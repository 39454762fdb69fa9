import TracedScript.Builtin.Apply
import TracedScript.Proofs.Value.Likeness
import TracedScript.Value.Operators

/-!
# Operations on values that are alike

Operations give values that are alike for values that are alike, or fail alike. What they give that
is no value, such as texts, keys and truth values, is the same.
-/

namespace TracedScript

/-- Both give results that correspond, or both fail alike. -/
inductive Likeness.Results (K : Likeness) {α β : Type} (p : α → β → Prop) :
    Except Failure α → Except Failure β → Prop where
  | ok {a : α} {b : β} : p a b → Results K p (.ok a) (.ok b)
  | error {e e' : Failure} : e.Like K e' → Results K p (.error e) (.error e')

variable {K : Likeness}

namespace Likeness.Results

variable {α β γ δ : Type} {p : α → β → Prop} {q : γ → δ → Prop}
  {x : Except Failure α} {y : Except Failure β}

theorem bind (h : K.Results p x y) {f : α → Except Failure γ} {g : β → Except Failure δ}
    (hf : ∀ a b, p a b → K.Results q (f a) (g b)) : K.Results q (x >>= f) (y >>= g) := by
  cases h with
  | ok h => exact hf _ _ h
  | error h => exact .error h

theorem map (h : K.Results p x y) {f : α → γ} {g : β → δ} (hf : ∀ a b, p a b → q (f a) (g b)) :
    K.Results q (x.map f) (y.map g) := by
  cases h with
  | ok h => exact .ok (hf _ _ h)
  | error h => exact .error h

end Likeness.Results

namespace Value.Like

variable {v v' w w' : Value}

/-! ## Texts -/

theorem reprs {vs ws : List Value} (h : List.Forall₂ (fun v w => v.repr = w.repr) vs ws) :
    Value.reprs vs = Value.reprs ws := by
  induction h with
  | nil => rfl
  | cons h hs ih =>
    cases hs with
    | nil => simp only [Value.reprs, h]
    | cons =>
      simp only [Value.reprs, h] at ih ⊢
      rw [ih]

theorem entryReprs {es es' : List Entry}
    (h : List.Forall₂ (Entry.Alike fun v w => v.repr = w.repr) es es') :
    Entry.reprs es = Entry.reprs es' := by
  induction h with
  | nil => rfl
  | cons h hs ih =>
    obtain ⟨hl, hv⟩ := h
    cases hs with
    | nil => simp only [Entry.reprs, hl, hv]
    | cons =>
      simp only [Entry.reprs, hl, hv] at ih ⊢
      rw [ih]

theorem repr (h : v.Like K w) : v.repr = w.repr := by
  induction v using Value.induction generalizing w with
  | h v ih =>
    obtain ⟨hd, ht⟩ := h
    unfold Value.repr
    rw [ht.name]
    cases hd with
    | array hvs =>
      have items := reprs (forall₂_of_mem hvs fun u hu w h => ih u hu h)
      simp only [Data.repr, items]
    | tuple hvs =>
      have items := forall₂_of_mem hvs fun u hu w h => ih u hu h
      cases items with
      | nil => rfl
      | cons h hs =>
        cases hs with
        | nil => simp only [Data.repr, h]
        | cons h' hs => rw [Data.repr, Data.repr, reprs (.cons h (.cons h' hs))] <;> simp
    | dict hes =>
      have entries := entryReprs (Entry.Alike.of_parts hes fun u hu w h => ih u hu h)
      simp only [Data.repr, entries]
    | func hf => rfl
    | exception hi he => simp only [Data.repr, he.kind, he.message]
    | _ => rfl

theorem display (h : v.Like K w) : v.display = w.display := by
  have text := h.repr
  obtain ⟨hd, ht⟩ := h
  cases hd with
  | str s => rfl
  | _ => exact text

/-! ## Keys -/

theorem keys? {vs ws : List Value} (h : List.Forall₂ (fun v w => v.key? = w.key?) vs ws) :
    Value.keys? vs = Value.keys? ws := by
  induction h with
  | nil => rfl
  | cons h hs ih => rw [Value.keys?, Value.keys?, h, ih]

theorem key? (h : v.Like K w) : v.key? = w.key? := by
  induction v using Value.induction generalizing w with
  | h v ih =>
    obtain ⟨hd, ht⟩ := h
    cases hd with
    | tuple hvs =>
      have items := keys? (forall₂_of_mem hvs fun u hu w h => ih u hu h)
      simp only [Value.key?, Data.key?, items]
    | _ => rfl

theorem unhashableIn {vs ws : List Value} (hvs : List.Forall₂ (Value.Like K) vs ws)
    (h : List.Forall₂ (fun v w => v.unhashable.Like K w.unhashable) vs ws)
    {whole whole' : Value} (hw : whole.Like K whole') :
    (Value.unhashableIn vs whole).Like K (Value.unhashableIn ws whole') := by
  induction h with
  | nil => exact hw
  | cons h hs ih =>
    cases hvs with
    | cons hv hvs =>
      rw [Value.unhashableIn, Value.unhashableIn, ← hv.key?]
      split
      · exact ih hvs
      · exact h

theorem unhashable (h : v.Like K w) : v.unhashable.Like K w.unhashable := by
  induction v using Value.induction generalizing w with
  | h v ih =>
    have same := h
    obtain ⟨hd, ht⟩ := h
    cases hd with
    | tuple hvs => exact unhashableIn hvs (forall₂_of_mem hvs fun u hu w h => ih u hu h) same
    | _ => exact same

theorem asKey (h : v.Like K w) : K.Results Eq v.asKey w.asKey := by
  unfold Value.asKey
  rw [← h.key?]
  split
  · exact .ok rfl
  · exact .error (h.unhashable.blameHere_kind .unhashable)

end Value.Like

theorem Entry.Alike.find? {es es' : List Entry} (index : List (Key × Nat))
    (h : List.Forall₂ (Entry.Alike (Value.Like K)) es es') (key : Key) :
    Option.Rel (Entry.Alike (Value.Like K)) (Dictionary.find? ⟨es, index⟩ key)
      (Dictionary.find? ⟨es', index⟩ key) := by
  show Option.Rel _ (((Dictionary.mk es index).slot? key).bind fun i => es[i]?)
    (((Dictionary.mk es index).slot? key).bind fun i => es'[i]?)
  cases (Dictionary.mk es index).slot? key with
  | none => exact .none
  | some i => exact forall₂_getElem? h i

namespace Value.Like

variable {v v' w w' : Value}

/-! ## Equality -/

theorem sameAll {vs vs' ws ws' : List Value}
    (h : List.Forall₂ (fun v v' => ∀ w w', w.Like K w' → v.same w = v'.same w') vs vs')
    (hw : List.Forall₂ (Value.Like K) ws ws') : Value.sameAll vs ws = Value.sameAll vs' ws' := by
  induction h generalizing ws ws' with
  | nil => cases hw <;> simp only [Value.sameAll]
  | cons h hs ih =>
    cases hw with
    | nil => simp only [Value.sameAll]
    | cons hw hws => rw [Value.sameAll, Value.sameAll, h _ _ hw, ih hws]

theorem sameIn {es es' fs fs' : List Entry} (index : List (Key × Nat))
    (hes : List.Forall₂ (Entry.Alike (Value.Like K)) es es')
    (h : List.Forall₂ (Entry.Alike fun v v' => ∀ w w', w.Like K w' → v.same w = v'.same w') es es')
    (hf : List.Forall₂ (Entry.Alike (Value.Like K)) fs fs') :
    Entry.sameIn es ⟨fs, index⟩ = Entry.sameIn es' ⟨fs', index⟩ := by
  induction h with
  | nil => simp only [Entry.sameIn]
  | cons h hs ih =>
    cases hes with
    | cons he hes =>
      obtain ⟨hl, -⟩ := he
      obtain ⟨-, hv⟩ := h
      rw [Entry.sameIn, Entry.sameIn, ih hes, hl.key?]
      congr 1
      cases Value.key? _ with
      | none => rfl
      | some key =>
        have found := Entry.Alike.find? index hf key
        rw [Option.bind_some, Option.bind_some]
        generalize Dictionary.find? ⟨fs, index⟩ key = o at found ⊢
        generalize Dictionary.find? ⟨fs', index⟩ key = o' at found ⊢
        cases found with
        | none => rfl
        | some h =>
          obtain ⟨-, hw⟩ := h
          exact hv _ _ hw

theorem same (h : v.Like K v') (hw : w.Like K w') : v.same w = v'.same w' := by
  induction v using Value.induction generalizing v' w w' with
  | h v ih =>
    obtain ⟨hd, -⟩ := h
    obtain ⟨hd', -⟩ := hw
    cases hd with
    | array hvs =>
      cases hd' with
      | array hws =>
        simp only [Value.same, Data.same]
        exact sameAll (forall₂_of_mem hvs fun u hu w h w w' hw => ih u hu h hw) hws
      | _ => simp only [Value.same, Data.same]
    | tuple hvs =>
      cases hd' with
      | tuple hws =>
        simp only [Value.same, Data.same]
        exact sameAll (forall₂_of_mem hvs fun u hu w h w w' hw => ih u hu h hw) hws
      | _ => simp only [Value.same, Data.same]
    | dict hes =>
      cases hd' with
      | dict hfs =>
        have entries (index : List (Key × Nat)) :=
          sameIn index hes (Entry.Alike.of_parts hes fun u hu w h w w' hw => ih u hu h hw) hfs
        simp only [Value.same, Data.same, hes.length_eq, hfs.length_eq, entries]
      | _ => simp only [Value.same, Data.same]
    | func hf =>
      cases hd' with
      | func hg =>
        obtain ⟨hi, -, -, -⟩ := hf
        obtain ⟨hj, -, -, -⟩ := hg
        simp only [Value.same, Data.same]
        rw [Bool.eq_iff_iff, beq_iff_eq, beq_iff_eq]
        exact K.ident_inj hi hj
      | _ => simp only [Value.same, Data.same]
    | exception hi =>
      cases hd' with
      | exception hj =>
        simp only [Value.same, Data.same]
        rw [Bool.eq_iff_iff, beq_iff_eq, beq_iff_eq]
        exact K.ident_inj hi hj
      | _ => simp only [Value.same, Data.same]
    | «namespace» name hs =>
      cases hd' with
      | «namespace» name' ht =>
        simp only [Value.same, Data.same]
        rw [Bool.eq_iff_iff, beq_iff_eq, beq_iff_eq]
        exact Likeness.scope_inj hs ht
      | _ => simp only [Value.same, Data.same]
    | _ => cases hd' <;> simp only [Value.same, Data.same]

/-! ## Operators -/

section

variable (h : v.Like K v') (hw : w.Like K w')

include h hw

theorem joinedSpan : Option.Rel K.span (v.joinedSpan w) (v'.joinedSpan w') := by
  have left := h.span
  have right := hw.span
  unfold Value.joinedSpan
  generalize v.span = s at left ⊢
  generalize v'.span = s' at left ⊢
  generalize w.span = t at right ⊢
  generalize w'.span = t' at right ⊢
  cases left with
  | none => exact right
  | some hs =>
    cases right with
    | none => exact .some hs
    | some ht => exact .some (K.span_through hs ht)

theorem unsupported (op : BinaryOperator) :
    (Value.unsupported op v w).Like K (Value.unsupported op v' w') := by
  unfold Value.unsupported
  dsimp only
  rw [← h.kind, ← hw.kind]
  split
  · exact (Failure.Like.failure _ (joinedSpan h hw)).withOrigin hw.origin
  · exact (Failure.Like.failure _ (joinedSpan h hw)).withOrigin h.origin

theorem checked (o : Option Int64) :
    K.Results (Value.Like K) (Value.checked v w o) (Value.checked v' w' o) := by
  cases o with
  | none => exact .error (.failure _ (joinedSpan h hw))
  | some n => exact .ok (.int n)

theorem blameRight (f : Fault) : (Value.blameRight v w f).Like K (Value.blameRight v' w' f) :=
  (Failure.Like.failure f (joinedSpan h hw)).withOrigin hw.origin

theorem add : K.Results (Value.Like K) (v.add w) (v'.add w') := by
  have other := Likeness.Results.error (p := Value.Like K) (unsupported h hw .add)
  have checked := checked h hw
  obtain ⟨hd, -⟩ := h
  obtain ⟨hd', -⟩ := hw
  cases hd with
  | int a =>
    cases hd' with
    | int b => exact checked _
    | _ => exact other
  | float x =>
    cases hd' with
    | float y => exact .ok (.float _)
    | _ => exact other
  | str s =>
    cases hd' with
    | str t => exact .ok (.str _)
    | _ => exact other
  | _ => exact other

theorem subtract : K.Results (Value.Like K) (v.subtract w) (v'.subtract w') := by
  have other := Likeness.Results.error (p := Value.Like K) (unsupported h hw .subtract)
  have checked := checked h hw
  obtain ⟨hd, -⟩ := h
  obtain ⟨hd', -⟩ := hw
  cases hd with
  | int a =>
    cases hd' with
    | int b => exact checked _
    | _ => exact other
  | float x =>
    cases hd' with
    | float y => exact .ok (.float _)
    | _ => exact other
  | _ => exact other

theorem multiply : K.Results (Value.Like K) (v.multiply w) (v'.multiply w') := by
  have other := Likeness.Results.error (p := Value.Like K) (unsupported h hw .multiply)
  have checked := checked h hw
  obtain ⟨hd, -⟩ := h
  obtain ⟨hd', -⟩ := hw
  cases hd with
  | int a =>
    cases hd' with
    | int b => exact checked _
    | _ => exact other
  | float x =>
    cases hd' with
    | float y => exact .ok (.float _)
    | _ => exact other
  | _ => exact other

theorem divide : K.Results (Value.Like K) (v.divide w) (v'.divide w') := by
  have other := Likeness.Results.error (p := Value.Like K) (unsupported h hw .divide)
  have checked := checked h hw
  have blame := blameRight h hw
  obtain ⟨hd, -⟩ := h
  obtain ⟨hd', -⟩ := hw
  cases hd with
  | int a =>
    cases hd' with
    | int b =>
      unfold Value.divide
      dsimp only
      split
      · exact .error (blame _)
      · exact checked _
    | _ => exact other
  | float x =>
    cases hd' with
    | float y =>
      unfold Value.divide
      dsimp only
      split
      · exact .error (blame _)
      · exact .ok (.float _)
    | _ => exact other
  | _ => exact other

theorem power : K.Results (Value.Like K) (v.power w) (v'.power w') := by
  have other := Likeness.Results.error (p := Value.Like K) (unsupported h hw .power)
  have checked := checked h hw
  have blame := blameRight h hw
  obtain ⟨hd, -⟩ := h
  obtain ⟨hd', -⟩ := hw
  cases hd with
  | int a =>
    cases hd' with
    | int b =>
      unfold Value.power
      dsimp only
      split
      · exact .error (blame _)
      · exact checked _
    | _ => exact other
  | float x =>
    cases hd' with
    | float y => exact .ok (.float _)
    | _ => exact other
  | _ => exact other

theorem compare (op : BinaryOperator) (ints : Int → Int → Bool) (floats : Float → Float → Bool) :
    K.Results (Value.Like K) (Value.compare op ints floats v w)
      (Value.compare op ints floats v' w') := by
  have other := Likeness.Results.error (p := Value.Like K) (unsupported h hw op)
  obtain ⟨hd, -⟩ := h
  obtain ⟨hd', -⟩ := hw
  cases hd with
  | int a =>
    cases hd' with
    | int b => exact .ok (.bool _)
    | _ => exact other
  | float x =>
    cases hd' with
    | float y => exact .ok (.bool _)
    | _ => exact other
  | _ => exact other

theorem connect (op : BinaryOperator) (f : Bool → Bool → Bool) :
    K.Results (Value.Like K) (Value.connect op f v w) (Value.connect op f v' w') := by
  have other := Likeness.Results.error (p := Value.Like K) (unsupported h hw op)
  obtain ⟨hd, -⟩ := h
  obtain ⟨hd', -⟩ := hw
  cases hd with
  | bool a =>
    cases hd' with
    | bool b => exact .ok (.bool _)
    | _ => exact other
  | _ => exact other

theorem applyBinary (op : BinaryOperator) :
    K.Results (Value.Like K) (v.applyBinary op w) (v'.applyBinary op w') := by
  cases op with
  | add => exact add h hw
  | subtract => exact subtract h hw
  | multiply => exact multiply h hw
  | divide => exact divide h hw
  | power => exact power h hw
  | equal | notEqual =>
    dsimp only [Value.applyBinary]
    rw [same h hw]
    exact .ok (.bool _)
  | less | lessEqual | greater | greaterEqual =>
    dsimp only [Value.applyBinary]
    exact compare h hw _ _ _
  | and | or => exact connect h hw _ _

end

theorem applyUnary (h : v.Like K w) (op : UnaryOperator) :
    K.Results (Value.Like K) (v.applyUnary op) (w.applyUnary op) := by
  have whole := Likeness.Results.ok (K := K) h
  have other := Likeness.Results.error (p := Value.Like K)
    (h.blameHere_kind (.unsupportedPrefix op.text))
  have overflow := Likeness.Results.error (p := Value.Like K) (.failure .overflow h.span)
  obtain ⟨hd, -⟩ := h
  cases op with
  | plus =>
    cases hd with
    | int | float => exact whole
    | _ => exact other
  | minus =>
    cases hd with
    | int a =>
      dsimp only [Value.applyUnary]
      cases Number.Word.neg? a with
      | none => exact overflow
      | some b => exact .ok (.int b)
    | float x => exact .ok (.float _)
    | _ => exact other
  | not =>
    cases hd with
    | bool b => exact .ok (.bool _)
    | _ => exact other

theorem truth (h : v.Like K w) : K.Results Eq v.truth w.truth := by
  have other := Likeness.Results.error (p := Eq (α := Bool)) (h.blameHere_kind .conditionNotBool)
  obtain ⟨hd, -⟩ := h
  cases hd with
  | bool b => exact .ok rfl
  | _ => exact other

/-! ## Collections -/

theorem sameKinds {vs ws : List Value} (h : List.Forall₂ (Value.Like K) vs ws)
    (container what : String) :
    K.Results (fun _ _ => True) (Value.sameKinds container what vs)
      (Value.sameKinds container what ws) := by
  cases h with
  | nil => exact .ok trivial
  | cons hfirst hrest =>
    rename_i first first' rest rest'
    have found : Option.Rel (Value.Like K) (rest.find? fun v => v.kind ≠ first.kind)
        (rest'.find? fun v => v.kind ≠ first'.kind) :=
      forall₂_find? hrest fun v w h => by rw [h.kind, hfirst.kind]
    dsimp only [Value.sameKinds]
    rw [← hfirst.kind] at found ⊢
    generalize (rest.find? fun v => v.kind ≠ first.kind) = o at found ⊢
    generalize (rest'.find? fun v => v.kind ≠ first.kind) = o' at found ⊢
    cases found with
    | none => exact .ok trivial
    | some h => exact .error (h.blameHere_kind (.mixedKinds container what first.kind))

theorem array {vs ws : List Value} (h : List.Forall₂ (Value.Like K) vs ws) :
    K.Results (Value.Like K) (Value.array vs) (Value.array ws) :=
  (sameKinds h "Array" "elements").bind fun _ _ _ => .ok (ofData (.array h))

theorem tuple {vs ws : List Value} (h : List.Forall₂ (Value.Like K) vs ws) :
    K.Results (Value.Like K) (Value.tuple vs) (Value.tuple ws) :=
  (sameKinds h "Tuple" "elements").bind fun _ _ _ => .ok (ofData (.tuple h))

end Value.Like

/-- Two dictionaries with one index whose entries correspond. -/
inductive Dictionary.Like (K : Likeness) : Dictionary → Dictionary → Prop where
  | mk {es es' : List Entry} {index : List (Key × Nat)} :
    List.Forall₂ (Entry.Alike (Value.Like K)) es es' → Like K ⟨es, index⟩ ⟨es', index⟩

namespace Dictionary.Like

variable {d d' : Dictionary}

theorem insert (h : d.Like K d') (key : Key) {e e' : Entry}
    (he : Entry.Alike (Value.Like K) e e') : (d.insert key e).Like K (d'.insert key e') := by
  obtain ⟨hes⟩ := h
  rename_i es es' index
  unfold Dictionary.insert
  cases hs : (Dictionary.mk es index).slot? key with
  | some i =>
    rw [show (Dictionary.mk es' index).slot? key = some i from hs]
    exact .mk (forall₂_set hes he i)
  | none =>
    rw [show (Dictionary.mk es' index).slot? key = none from hs]
    dsimp only
    rw [hes.length_eq]
    exact .mk (List.rel_append hes (.cons he .nil))

theorem insertAll {pairs pairs' : List (Value × Value)}
    (h : List.Forall₂ (fun p p' => p.1.Like K p'.1 ∧ p.2.Like K p'.2) pairs pairs')
    (hd : d.Like K d') : K.Results (Like K) (d.insertAll pairs) (d'.insertAll pairs') := by
  induction h generalizing d d' with
  | nil => exact .ok hd
  | cons h hs ih =>
    refine h.1.asKey.bind fun k k' hk => ?_
    subst hk
    exact ih (hd.insert k (.mk h.1 h.2))

end Dictionary.Like

namespace Value.Like

variable {v v' w w' : Value}

theorem dict {pairs pairs' : List (Value × Value)}
    (h : List.Forall₂ (fun p p' => p.1.Like K p'.1 ∧ p.2.Like K p'.2) pairs pairs') :
    K.Results (Value.Like K) (Value.dict pairs) (Value.dict pairs') := by
  have keys : List.Forall₂ (Value.Like K) (pairs.map (·.1)) (pairs'.map (·.1)) :=
    List.rel_map (fun _ _ hp => hp.1) h
  have values : List.Forall₂ (Value.Like K) (pairs.map (·.2)) (pairs'.map (·.2)) :=
    List.rel_map (fun _ _ hp => hp.2) h
  refine (sameKinds keys "Dict" "keys").bind fun _ _ _ => ?_
  refine (sameKinds values "Dict" "values").bind fun _ _ _ => ?_
  refine (Dictionary.Like.insertAll h (.mk .nil)).bind fun d d' hd => ?_
  obtain ⟨hes⟩ := hd
  exact .ok (ofData (.dict hes))

/-! ## Elements -/

theorem characters (s : String) :
    List.Forall₂ (Value.Like K) (Value.characters s) (Value.characters s) := by
  refine List.forall₂_same.mpr fun v hv => ?_
  obtain ⟨c, -, rfl⟩ := List.mem_map.mp hv
  exact .str _

theorem length? (h : v.Like K w) : v.length? = w.length? := by
  obtain ⟨hd, -⟩ := h
  cases hd with
  | array hvs | tuple hvs => exact congrArg some hvs.length_eq
  | dict hes => exact congrArg some hes.length_eq
  | _ => rfl

theorem elements? (h : v.Like K w) :
    Option.Rel (List.Forall₂ (Value.Like K)) v.elements? w.elements? := by
  obtain ⟨hd, -⟩ := h
  cases hd with
  | array hvs | tuple hvs => exact .some hvs
  | str s => exact .some (characters s)
  | dict hes =>
    refine .some (List.rel_map ?_ hes)
    rintro _ _ ⟨hl, -⟩
    exact hl
  | _ => exact .none

theorem element (h : v.Like K w) {vs ws : List Value} (hvs : List.Forall₂ (Value.Like K) vs ws)
    (i : Int64) {s s' : Span} (hs : K.span s s') :
    K.Results (Value.Like K) (v.element vs i s) (w.element ws i s') := by
  have found : Option.Rel (Value.Like K)
      ((Number.Word.slot? i vs.length).bind fun i => vs[i]?)
      ((Number.Word.slot? i ws.length).bind fun i => ws[i]?) := by
    rw [hvs.length_eq]
    cases Number.Word.slot? i ws.length with
    | none => exact .none
    | some j => exact forall₂_getElem? hvs j
  unfold Value.element
  rw [h.kind, hvs.length_eq] at *
  generalize ((Number.Word.slot? i ws.length).bind fun i => vs[i]?) = o at found ⊢
  generalize ((Number.Word.slot? i ws.length).bind fun i => ws[i]?) = o' at found ⊢
  cases found with
  | none => exact .error ((Failure.Like.failAt _ hs).withOrigin h.origin)
  | some hfound => exact .ok hfound

/-- Indexing a sequence, for which only a number will do. -/
theorem sequence (h : v.Like K v') (hw : w.Like K w') {vs vs' : List Value}
    (hvs : List.Forall₂ (Value.Like K) vs vs') {s s' : Span} (hs : K.span s s') :
    K.Results (Value.Like K)
      (match w.data with
        | .int i => v.element vs i s
        | _ => .error (((Fault.indexNotInt v.kind w.kind).failAt s).withOrigin w.origin))
      (match w'.data with
        | .int i => v'.element vs' i s'
        | _ => .error (((Fault.indexNotInt v'.kind w'.kind).failAt s').withOrigin w'.origin)) := by
  have other := Likeness.Results.error (p := Value.Like K)
    ((Failure.Like.failAt (.indexNotInt v.kind w.kind) hs).withOrigin hw.origin)
  rw [← h.kind, ← hw.kind]
  obtain ⟨hd, -⟩ := hw
  cases hd with
  | int i => exact h.element hvs i hs
  | _ => exact other

theorem index (h : v.Like K v') (hw : w.Like K w') {s s' : Span} (hs : K.span s s') :
    K.Results (Value.Like K) (v.index w s) (v'.index w' s') := by
  have sequence {vs vs' : List Value} (hvs : List.Forall₂ (Value.Like K) vs vs') :=
    h.sequence hw hvs hs
  have other := Likeness.Results.error (p := Value.Like K)
    ((Failure.Like.failAt (.notIndexable v.kind) hs).withOrigin h.origin)
  have kind := h.kind
  obtain ⟨hd, ht⟩ := h
  cases hd with
  | array hvs | tuple hvs => exact sequence hvs
  | str t => exact sequence (characters t)
  | dict hes =>
    refine hw.asKey.bind fun k k' hk => ?_
    subst hk
    rename_i index
    have found := Entry.Alike.find? index hes k
    generalize Dictionary.find? _ k = o at found ⊢
    generalize Dictionary.find? _ k = o' at found ⊢
    cases found with
    | none =>
      dsimp only
      rw [← hw.repr]
      exact .error ((Failure.Like.failAt _ hs).withOrigin hw.origin)
    | some hfound =>
      obtain ⟨-, hv⟩ := hfound
      exact .ok hv
  | _ => exact other

/-! ## Built-in functions -/

theorem converted {α : Type} (h : v.Like K w) (target : Kind) {s s' : Span} (hs : K.span s s')
    {wrap : α → Value} (hwrap : ∀ a, (wrap a).Like K (wrap a)) (o : Option α) :
    K.Results (Value.Like K) (v.converted target s wrap o) (w.converted target s' wrap o) := by
  cases o with
  | none =>
    dsimp only [Value.converted]
    rw [← h.repr]
    exact .error (h.blame _ hs)
  | some a => exact .ok (hwrap a)

section

variable (h : v.Like K w) {s s' : Span} (hs : K.span s s')

include h hs

theorem toInt : K.Results (Value.Like K) (v.toInt s) (w.toInt s') := by
  have whole := h
  have other := Likeness.Results.error (p := Value.Like K) (h.blame_kind (.notConvertible · .int) hs)
  obtain ⟨hd, -⟩ := h
  cases hd with
  | int n | bool b => exact .ok (.int _)
  | float x | str t => exact whole.converted .int hs .int _
  | _ => exact other

theorem toFloat : K.Results (Value.Like K) (v.toFloat s) (w.toFloat s') := by
  have whole := h
  have other := Likeness.Results.error (p := Value.Like K)
    (h.blame_kind (.notConvertible · .float) hs)
  obtain ⟨hd, -⟩ := h
  cases hd with
  | float x | bool b => exact .ok (.float _)
  | int n | str t => exact whole.converted .float hs .float _
  | _ => exact other

theorem toCollection (target : Kind) {collect : List Value → Except Failure Value}
    (hc : ∀ vs ws, List.Forall₂ (Value.Like K) vs ws →
      K.Results (Value.Like K) (collect vs) (collect ws)) :
    K.Results (Value.Like K) (v.toCollection target collect s) (w.toCollection target collect s') := by
  have elements := h.elements?
  unfold Value.toCollection
  generalize v.elements? = o at elements ⊢
  generalize w.elements? = o' at elements ⊢
  cases elements with
  | none => exact .error (h.blame_kind (.notConvertible · target) hs)
  | some hvs => exact hc _ _ hvs

theorem sqrtOf (x : Float) : K.Results (Value.Like K) (v.sqrtOf x s) (w.sqrtOf x s') := by
  unfold Value.sqrtOf
  split
  · exact .error (h.blame _ hs)
  · exact .ok (.float _)

theorem sqrt : K.Results (Value.Like K) (v.sqrt s) (w.sqrt s') := by
  have root := sqrtOf h hs
  have other := Likeness.Results.error (p := Value.Like K) (h.blame_kind (.notANumber "sqrt") hs)
  obtain ⟨hd, -⟩ := h
  cases hd with
  | float x => exact root x
  | int n =>
    dsimp only [Value.sqrt]
    cases Number.toFloat? n with
    | none => exact .error (.failAt _ hs)
    | some x => exact root x
  | _ => exact other

theorem rounded (function : String) (round : Float → Option Int64) :
    K.Results (Value.Like K) (v.rounded function round s) (w.rounded function round s') := by
  have tooLarge := Likeness.Results.error (p := Value.Like K)
    (h.blame (.doesNotFit function v.repr) hs)
  have other := Likeness.Results.error (p := Value.Like K) (h.blame_kind (.notANumber function) hs)
  have text := h.repr
  obtain ⟨hd, -⟩ := h
  cases hd with
  | int n => exact .ok (.int n)
  | float x =>
    dsimp only [Value.rounded]
    rw [← text]
    cases round x with
    | none => exact tooLarge
    | some n => exact .ok (.int n)
  | _ => exact other

theorem abs : K.Results (Value.Like K) (v.abs s) (w.abs s') := by
  have other := Likeness.Results.error (p := Value.Like K) (h.blame_kind (.notANumber "abs") hs)
  obtain ⟨hd, -⟩ := h
  cases hd with
  | int n =>
    dsimp only [Value.abs]
    cases Number.Word.abs? n with
    | none => exact .error (.failAt _ hs)
    | some m => exact .ok (.int m)
  | float x => exact .ok (.float _)
  | _ => exact other

end

theorem toBool (h : v.Like K w) : v.toBool = w.toBool := by
  obtain ⟨hd, -⟩ := h
  cases hd with
  | array hvs | tuple hvs => cases hvs <;> rfl
  | dict hes => cases hes <;> rfl
  | _ => rfl

end Value.Like

namespace Builtin

variable {v w : Value} {s s' : Span}

theorem like_range (r : IntRange) (hs : K.span s s') :
    K.Results (Value.Like K) (r.array s) (r.array s') := by
  unfold IntRange.array
  split
  · exact .error (.failAt _ hs)
  · split
    · exact .error (.failAt _ hs)
    · refine .ok (.ofData (.array (List.forall₂_same.mpr fun v hv => ?_)))
      obtain ⟨n, -, rfl⟩ := List.mem_map.mp hv
      exact .int n

theorem like_intArgument (f : Builtin) (h : v.Like K w) (hs : K.span s s') :
    K.Results Eq (f.intArgument s v) (f.intArgument s' w) := by
  have other := Likeness.Results.error (p := Eq (α := Int64))
    (h.blame_kind (.argumentsNotOfKind f.name .int) hs)
  obtain ⟨hd, -⟩ := h
  cases hd with
  | int n => exact .ok rfl
  | _ => exact other

theorem like_checkAssertion (h : v.Like K w) {o o' : Option Value}
    (ho : Option.Rel (Value.Like K) o o') (hs : K.span s s') :
    K.Results (Value.Like K) (checkAssertion v o s) (checkAssertion w o' s') := by
  have other := Likeness.Results.error (p := Value.Like K) (h.blame_kind .assertionNotBool hs)
  have text : o.map Value.display = o'.map Value.display := by
    cases ho with
    | none => rfl
    | some h => exact congrArg some h.display
  obtain ⟨hd, -⟩ := h
  cases hd with
  | bool b =>
    cases b with
    | true => exact .ok .null
    | false =>
      dsimp only [checkAssertion]
      rw [← text]
      exact .error (.failAt _ hs)
  | _ => exact other

theorem like_printedLine? (f : Builtin) {args args' : List Value}
    (h : List.Forall₂ (Value.Like K) args args') :
    f.printedLine? args = f.printedLine? args' := by
  cases h with
  | nil => rfl
  | cons h hs =>
    cases hs with
    | nil =>
      cases f with
      | print => exact congrArg some h.display
      | _ => rfl
    | cons => cases f <;> rfl

theorem like_result (f : Builtin) {args args' : List Value}
    (h : List.Forall₂ (Value.Like K) args args') (hs : K.span s s') :
    K.Results (Value.Like K) (f.result args s) (f.result args' s') := by
  have wrong : K.Results (Value.Like K) (.error (f.wrongCount args.length s))
      (.error (f.wrongCount args'.length s')) := by
    rw [h.length_eq]
    exact .error (.failAt _ hs)
  have number {v w : Value} (h : v.Like K w) := like_intArgument .range h hs
  cases h with
  | nil =>
    cases f with
    | print => exact .ok .null
    | _ => exact wrong
  | cons h₁ h =>
    cases h with
    | nil =>
      cases f with
      | print => exact .ok .null
      | range =>
        refine (number h₁).bind fun a a' ha => ?_
        subst ha
        exact like_range _ hs
      | type =>
        dsimp only [result]
        rw [h₁.kind]
        exact .ok (.str _)
      | panic | throw =>
        dsimp only [result]
        rw [h₁.display]
        exact .error (.failAt _ hs)
      | assert => exact like_checkAssertion h₁ .none hs
      | str =>
        dsimp only [result]
        rw [h₁.display]
        exact .ok (.str _)
      | int => exact h₁.toInt hs
      | float => exact h₁.toFloat hs
      | bool =>
        dsimp only [result]
        rw [h₁.toBool]
        exact .ok (.bool _)
      | array => exact h₁.toCollection hs .array fun _ _ => Value.Like.array
      | tuple => exact h₁.toCollection hs .tuple fun _ _ => Value.Like.tuple
      | sqrt => exact h₁.sqrt hs
      | floor | ceil => exact h₁.rounded hs _ _
      | abs => exact h₁.abs hs
    | cons h₂ h =>
      cases h with
      | nil =>
        cases f with
        | range =>
          refine (number h₁).bind fun a a' ha => (number h₂).bind fun b b' hb => ?_
          subst ha hb
          exact like_range _ hs
        | assert => exact like_checkAssertion h₁ (.some h₂) hs
        | _ => exact wrong
      | cons h₃ h =>
        cases h with
        | nil =>
          cases f with
          | range =>
            refine (number h₁).bind fun a a' ha => (number h₂).bind fun b b' hb => ?_
            refine (number h₃).bind fun c c' hc => ?_
            subst ha hb hc
            exact like_range _ hs
          | _ => exact wrong
        | cons => cases f <;> exact wrong

end Builtin

end TracedScript
