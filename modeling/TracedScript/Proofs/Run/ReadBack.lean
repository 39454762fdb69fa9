import TracedScript.Proofs.Scope.BuiltInNames
import TracedScript.Proofs.Syntax.Literals
import TracedScript.Proofs.Value.Equivalence

/-!
# Texts of values read back

A literal for a value evaluates to a twin of the value: `Value.Readable.comesBack`. So the text of a
value, run as a program, gives a value that equals it and has the same text: `repr_reads_back`.
-/

namespace TracedScript

/-! ## Built-in names in a fresh scope -/

/-- From the scope the built-in names give what they stand for. -/
def Store.SeesBuiltIns (s : Store) (id : ScopeId) : Prop :=
  ∀ b ∈ Machine.prelude, s.get? id b.1 = some b.2

theorem Store.KeepsPrelude.sees {s : Store} (h : s.KeepsPrelude) :
    (s.add (some Machine.preludeScope)).SeesBuiltIns s.next := by
  have spared : s.Spared s := by
    refine ⟨Nat.le_refl _, fun _ _ => rfl, fun id hid => ?_⟩
    rw [bindings_of_next_le s hid]
    exact List.forall_mem_nil _
  have opened : s.Spared ((s.add (some Machine.preludeScope)).defineAll s.next []) :=
    spared.opened (some Machine.preludeScope) (List.forall_mem_nil _)
  have sheltered := spared.sheltered h (.inl rfl) []
  exact fun b hb => opened.get? (h.opened _ []) sheltered hb

/-! ## Evaluating literals -/

namespace Eval

variable {α β ι : Type} {m : Machine}

theorem completed_of_ok {x : Eval α} {a : α} (h : x m = (.ok a, m)) (stack : CallStack)
    (span : Span) : completed stack span x m = (.ok a, m) := by
  rw [completed, adapt_apply, h]
  rfl

/-- What gives results one by one without changing the state gives them all. -/
theorem mapM_of_ok {f : α → Eval β} {r : ι → β → Prop} {xs : List ι} {as : List α}
    (h : List.Forall₂ (fun x a => ∃ b, f a m = (.ok b, m) ∧ r x b) xs as) :
    ∃ bs, as.mapM f m = (.ok bs, m) ∧ List.Forall₂ r xs bs := by
  induction h with
  | nil => exact ⟨[], rfl, .nil⟩
  | cons h _ ih =>
    obtain ⟨b, hb, hr⟩ := h
    obtain ⟨bs, hbs, hrs⟩ := ih
    refine ⟨b :: bs, ?_, .cons hr hrs⟩
    rw [List.mapM_cons, bind_of_ok hb, bind_of_ok hbs]
    rfl

theorem read_of_get? {name : String} {stack : CallStack} {v : Value}
    (h : m.store.get? stack.top.scope name = some v) (span : Span) :
    read name stack span m = (.ok (v.relocate span stack.display), m) := by
  have state : (get : Eval Machine) m = (.ok m, m) := rfl
  rw [read, bind_of_ok state, h]
  rfl

end Eval

namespace Value

variable {v : Value} {around : Surroundings} {stack : CallStack} {inLoop : Bool} {m : Machine}
  {kind : NodeKind} {span : Span} {n : Nat}

/-- The value of a built-in name that is read. -/
theorem evaluate_read (hs : m.store.SeesBuiltIns stack.top.scope) {b : String × Value}
    (hb : b ∈ Machine.prelude) :
    evaluate around (n + 1) ⟨.read b.1, span⟩ stack inLoop m =
      (.ok (b.2.relocate span stack.display), m) :=
  Eval.completed_of_ok (Eval.read_of_get? (hs b hb) span) stack span

theorem evaluate_int (a : Int64) : evaluate around (n + 1) ⟨.int a, span⟩ stack inLoop m =
    (.ok ((int a).place span stack.display), m) := Eval.completed_of_ok rfl stack span

/-- A construct whose result is placed where the node stands. -/
theorem evaluate_placed {node : Node} {x : Eval Value} {w : Value} (hx : x m = (.ok w, m))
    (hc : Eval.construct around n (evaluate around n) node stack inLoop =
      do return (← x).place node.span stack.display) :
    evaluate around (n + 1) node stack inLoop m = (.ok (w.place node.span stack.display), m) := by
  refine Eval.completed_of_ok ?_ stack node.span
  rw [hc, Eval.bind_of_ok hx]
  rfl

/-- The minus in front of digits gives back the number. -/
theorem evaluate_negative {a : Int64} (ha : a ≠ Int64.minValue) {operand : Node}
    (ho : operand.kind = .int (-a)) :
    evaluate around (n + 2) ⟨.unary .minus operand, span⟩ stack inLoop m =
      (.ok ((int a).place span stack.display), m) := by
  obtain ⟨kind, span'⟩ := operand
  subst ho
  have inner : evaluate around (n + 1) ⟨.int (-a), span'⟩ stack inLoop m =
      (.ok ((int (-a)).place span' stack.display), m) := evaluate_int _
  have negated : applyUnary .minus ((int (-a)).place span' stack.display) = .ok (int a) := by
    have data : ((int (-a)).place span' stack.display).data = .int (-a) := rfl
    simp only [applyUnary, data, Number.Word.neg?_neg ha]
  refine Eval.completed_of_ok ?_ stack span
  show (do
    let v ← evaluate around (n + 1) ⟨.int (-a), span'⟩ stack inLoop
    return (← Eval.ofExcept (applyUnary .minus v)).place span stack.display : Eval Value) m = _
  rw [Eval.bind_of_ok inner, negated]
  rfl

/-- With any allowance that is not less than the size of the value, the node evaluates to a twin of
it. -/
def ComesBack (around : Surroundings) (stack : CallStack) (inLoop : Bool) (m : Machine) (v : Value)
    (node : Node) : Prop :=
  ∀ n, sizeOf v ≤ n → ∃ w, evaluate around (n + 1) node stack inLoop m = (.ok w, m) ∧ v.Twin w

/-- A part is smaller than what it is inside of, so what is left of the allowance suffices. -/
theorem part_evaluates {u : Value} {e : Node} (hu : u ∈ v.data.parts) (hn : sizeOf v ≤ n)
    (h : ComesBack around stack inLoop m u e) :
    ∃ w, evaluate around n e stack inLoop m = (.ok w, m) ∧ u.Twin w := by
  obtain ⟨k, rfl, hk⟩ := exists_pred_of_lt (Nat.lt_of_lt_of_le (sizeOf_part hu) hn)
  exact h k hk

/-- Nodes for the items of a collection evaluate to twins of them, one behind the other. -/
theorem items_evaluate {r : Value → Node → Prop} {items : List Value} {nodes : List Node}
    (hp : items ⊆ v.data.parts) (hn : sizeOf v ≤ n) (hr : List.Forall₂ r items nodes)
    (h : ∀ u ∈ items, ∀ e, r u e → ComesBack around stack inLoop m u e) :
    ∃ ws, (nodes.mapM fun e => evaluate around n e stack inLoop) m = (.ok ws, m) ∧
      List.Forall₂ Twin items ws :=
  Eval.mapM_of_ok (forall₂_of_mem hr fun u hu e he => part_evaluates (hp hu) hn (h u hu e he))

theorem entries_evaluate {r : Value → Node → Prop} {d : Dictionary} {trace : Trace}
    {nodes : List (Node × Node)} (hn : sizeOf (Value.mk (.dict d) trace) ≤ n)
    (hr : List.Forall₂ (fun e b => r e.label b.1 ∧ r e.value b.2) d.entries nodes)
    (hl : ∀ e ∈ d.entries, ∀ c, r e.label c → ComesBack around stack inLoop m e.label c)
    (hv : ∀ e ∈ d.entries, ∀ c, r e.value c → ComesBack around stack inLoop m e.value c) :
    ∃ pairs : List (Value × Value),
      (nodes.mapM fun (b : Node × Node) => do
        return (← evaluate around n b.1 stack inLoop, ← evaluate around n b.2 stack inLoop)) m =
        (.ok pairs, m) ∧
      List.Forall₂ (fun e b => e.label.Twin b.1 ∧ e.value.Twin b.2) d.entries pairs := by
  refine Eval.mapM_of_ok (forall₂_of_mem hr fun e he b hb => ?_)
  have part {u : Value} (hu : u ∈ [e.label, e.value]) : u ∈ (Data.dict d).parts :=
    List.mem_flatMap.mpr ⟨e, he, hu⟩
  obtain ⟨label, hlabel, twin⟩ :=
    part_evaluates (part (List.mem_cons_self ..)) hn (hl e he b.1 hb.1)
  obtain ⟨value, hvalue, twin'⟩ := part_evaluates (part (by simp)) hn (hv e he b.2 hb.2)
  refine ⟨(label, value), ?_, twin, twin'⟩
  rw [Eval.bind_of_ok hlabel, Eval.bind_of_ok hvalue]
  rfl

/-- A literal for a value evaluates to a twin of it, wherever the built-in names can be read. -/
theorem Readable.comesBack (h : v.Readable) (hw : v.WellFormed) {node : Node}
    (hl : v.Denoted node) (hs : m.store.SeesBuiltIns stack.top.scope) :
    ComesBack around stack inLoop m v node := by
  induction h generalizing node with
  | null =>
    intro n hn
    obtain ⟨kind, span⟩ := node
    cases hl
    exact ⟨_, evaluate_read hs (b := Machine.reserved "Null" Value.null)
      (by simp [Machine.prelude]), .of_data (by simp)⟩
  | bool =>
    intro n hn
    obtain ⟨kind, span⟩ := node
    cases hl with
    | true =>
      exact ⟨_, evaluate_read hs (b := Machine.reserved "True" (Value.bool true))
        (by simp [Machine.prelude]), .of_data (by simp)⟩
    | false =>
      exact ⟨_, evaluate_read hs (b := Machine.reserved "False" (Value.bool false))
        (by simp [Machine.prelude]), .of_data (by simp)⟩
  | @int a trace ha =>
    intro n hn
    obtain ⟨kind, span⟩ := node
    cases hl with
    | int => exact ⟨_, evaluate_int _, .of_data (by simp)⟩
    | negative ho =>
      obtain ⟨k, rfl, -⟩ : ∃ k, n = k + 1 ∧ 0 ≤ k := exists_pred_of_lt (by simp at hn; omega)
      exact ⟨_, evaluate_negative ha ho, .of_data (by simp)⟩
  | str =>
    intro n hn
    obtain ⟨kind, span⟩ := node
    cases hl
    exact ⟨_, Eval.completed_of_ok rfl stack span, .of_data (by simp)⟩
  | @array items trace hi ih =>
    intro n hn
    obtain ⟨kind, span⟩ := node
    cases hl with
    | @array inside _ nodes _ denoted hf =>
      obtain ⟨ws, hws, twins⟩ := items_evaluate (v := ⟨.array items, trace⟩) (fun _ => id) hn hf
        fun u hu e he => ih u hu (hw.part hu) (denoted u e he)
      have oneKind : OneKind items := hw.self
      have made : Eval.array (fun c => evaluate around n c stack inLoop) nodes m =
          (.ok (ofData (.array ws)), m) := by
        rw [Eval.array, Eval.bind_of_ok hws, array_of_oneKind (oneKind.twins twins)]
        rfl
      exact ⟨_, evaluate_placed made rfl, .array twins⟩
  | @tuple items trace hi ih =>
    intro n hn
    obtain ⟨kind, span⟩ := node
    cases hl with
    | @tuple inside _ nodes _ denoted hf =>
      obtain ⟨ws, hws, twins⟩ := items_evaluate (v := ⟨.tuple items, trace⟩) (fun _ => id) hn hf
        fun u hu e he => ih u hu (hw.part hu) (denoted u e he)
      have oneKind : OneKind items := hw.self
      have made : Eval.tuple (fun c => evaluate around n c stack inLoop) nodes m =
          (.ok (ofData (.tuple ws)), m) := by
        rw [Eval.tuple, Eval.bind_of_ok hws, tuple_of_oneKind (oneKind.twins twins)]
        rfl
      exact ⟨_, evaluate_placed made rfl, .tuple twins⟩
  | @dict d trace _ _ ihl ihv =>
    intro n hn
    obtain ⟨kind, span⟩ := node
    cases hl with
    | @dict inside _ nodes _ denoted hf =>
      obtain ⟨pairs, hpairs, twins⟩ := entries_evaluate hn hf
        (fun e he c hc => ihl e he (hw.label rfl he) (denoted _ c hc))
        (fun e he c hc => ihv e he (hw.value rfl he) (denoted _ c hc))
      obtain ⟨d', hd', twin⟩ := dict_of_twins hw.self twins
      have made : Eval.dict (fun c => evaluate around n c stack inLoop) nodes m =
          (.ok (ofData (.dict d')), m) := by
        show (do
          let pairs ← nodes.mapM fun b => do
            return (← evaluate around n b.1 stack inLoop, ← evaluate around n b.2 stack inLoop)
          Eval.ofExcept (Value.dict pairs) : Eval Value) m = _
        rw [Eval.bind_of_ok hpairs, hd']
        rfl
      exact ⟨_, evaluate_placed made rfl, twin _ _⟩

end Value

/-! ## The text of a value as a program -/

/-- A program of one statement gives the value of that statement. -/
theorem Machine.run_single {m m' : Machine} {around : Surroundings} {n : Nat} {name text : String}
    {e : Node} {w : Value} (hp : (Source.mk name (Text.normalize text)).program = .ok [e])
    (he : evaluate around n e (.root "<program>" m.store.next .program) false
      { m with store := m.store.add (some preludeScope) } = (.ok w, m')) :
    m.run around n name text = (.ok [w], m') := by
  have whole : Eval.program (evaluate around n) [e] m = (.ok [w], m') := by
    show (do
      let w ← ExceptT.adapt Stop.escaped
        (evaluate around n e (.root "<program>" m.store.next .program) false)
      let ws ← Eval.topLevel (evaluate around n) (.root "<program>" m.store.next .program) []
      return w :: ws : Eval (List Value)) { m with store := m.store.add (some preludeScope) } = _
    rw [Eval.bind_apply, Eval.adapt_apply, he]
    rfl
  rw [run_of_program m around n hp, attempt, whole]

/-- The text of a value, run as a program, gives a twin of the value with any allowance that is not
less than some bound. -/
theorem Value.Readable.run {v : Value} (h : v.Readable) (hw : v.WellFormed) {m : Machine}
    (hm : m.Reached) (around : Surroundings) (name : String) :
    ∃ (bound : Nat) (w : Value) (m' : Machine), v.Twin w ∧
      ∀ n, bound ≤ n → m.run around n name v.repr = (.ok [w], m') := by
  obtain ⟨e, program, denoted⟩ := h.program name
  let opened : Machine := { m with store := m.store.add (some Machine.preludeScope) }
  have sees : opened.store.SeesBuiltIns m.store.next := hm.prelude.sees
  obtain ⟨w, evaluated, twin⟩ : ∃ w, evaluate around (sizeOf v + 1) e
      (.root "<program>" m.store.next .program) false opened = (.ok w, opened) ∧ v.Twin w :=
    h.comesBack hw denoted sees _ (Nat.le_refl _)
  have ran : m.run around (sizeOf v + 1) name v.repr = (.ok [w], opened) :=
    Machine.run_single program evaluated
  refine ⟨sizeOf v + 1, w, opened, twin, fun n hn => ?_⟩
  rw [Machine.run_of_le m around hn, ran]
  rw [ran]
  intro stopped
  cases stopped

/-- Let a value be built from null, truth values, whole numbers but the least one, and strings with
no characters but those that show as themselves or as the escapes of string literals. It may have
arrays, tuples and dictionaries nested to any depth, well-formed as those of all programs are. Then
its text, run as a program in any state between programs, gives a single value, which equals it and
has the same text. So two such values with the same text are equal. -/
theorem repr_reads_back {v : Value} (hr : v.Readable) (hw : v.WellFormed) :
    (∀ m : Machine, m.Reached → ∀ (around : Surroundings) (name : String),
      ∃ (bound : Nat) (w : Value) (m' : Machine),
        (∀ n, bound ≤ n → m.run around n name v.repr = (.ok [w], m')) ∧
        v.same w = true ∧ w.same v = true ∧ w.repr = v.repr) ∧
    ∀ v' : Value, v'.Readable → v'.WellFormed → v'.repr = v.repr → v.same v' = true := by
  have itself : v.same v = true := Value.same_self_of_numeric hw.keyed hr.numeric
  refine ⟨fun m hm around name => ?_, fun v' hr' hw' same => ?_⟩
  · obtain ⟨bound, w, m', twin, ran⟩ := hr.run hw hm around name
    refine ⟨bound, w, m', ran, ?_, ?_, twin.repr.symm⟩
    · rw [← twin.same_right, itself]
    · rw [← twin.same_left, itself]
  · -- Both texts are the same program, so both values are twins of the one that it gives.
    obtain ⟨bound, w, _, twin, ran⟩ := hr.run hw .initial ⟨.standard, .empty [], none⟩ "main"
    obtain ⟨bound', w', _, twin', ran'⟩ := hr'.run hw' .initial ⟨.standard, .empty [], none⟩ "main"
    rw [same] at ran'
    have both := (ran (max bound bound') (Nat.le_max_left ..)).symm.trans
      (ran' (max bound bound') (Nat.le_max_right ..))
    cases both
    rw [twin'.same_right, ← twin.same_right, itself]

/-- An array with a tuple of a negative number and one of nothing. -/
def nestedTuples : Value := .ofData (.array [.ofData (.tuple [.int (-7)]), .ofData (.tuple [])])

/-- One entry, from a string with quotes and a line break to nested tuples. -/
def nestedEntry : Entry := ⟨.ofData (.str "say \"hi\"\n"), nestedTuples⟩

/-- The text of a dictionary with that entry is read back, the brace at its start included. -/
theorem nested_dictionary_reads_back :
    let v : Value := .ofData (.dict (Dictionary.empty.insert (.str "say \"hi\"\n") nestedEntry))
    v.repr = "\x7b\"say \\\"hi\\\"\\n\": [(-7,), ()]\x7d" ∧
    (∃ (bound : Nat) (w : Value) (m' : Machine),
      (∀ n, bound ≤ n →
        Machine.initial.run ⟨.standard, .empty [], none⟩ n "main" v.repr = (.ok [w], m')) ∧
      v.same w = true ∧ w.same v = true ∧ w.repr = v.repr) ∧
    v.same v = true := by
  intro v
  have readable : v.Readable := by
    refine .dict (List.forall_mem_singleton.mpr ?_) (List.forall_mem_singleton.mpr ?_)
    · have all : ("say \"hi\"\n".toList.all fun c => decide (Text.Quotable c)) = true := by
        decide +kernel
      exact .str (by simpa using all)
    · refine .array (List.forall_mem_cons.mpr ⟨?_, List.forall_mem_singleton.mpr ?_⟩)
      · exact .tuple (List.forall_mem_singleton.mpr (.int (by decide)))
      · exact .tuple (List.forall_mem_nil _)
  have wellFormed : v.WellFormed := by
    have modest := Value.modest_wellFormed
    have one : Value.tuple [.int (-7)] = .ok (.ofData (.tuple [.int (-7)])) := rfl
    have tuples : Value.array [.ofData (.tuple [.int (-7)]), .ofData (.tuple [])] =
      .ok nestedTuples := rfl
    have whole : Value.dict [(nestedEntry.label, nestedTuples)] = .ok v := rfl
    refine modest.dict whole (List.forall_mem_singleton.mpr ⟨modest.made (Value.made_str _), ?_⟩)
    refine modest.array tuples (List.forall_mem_cons.mpr ⟨?_, List.forall_mem_singleton.mpr ?_⟩)
    · exact modest.tuple one (List.forall_mem_singleton.mpr (modest.made (Value.made_int _)))
    · exact modest.tuple rfl (List.forall_mem_nil _)
  obtain ⟨reads, equal⟩ := repr_reads_back readable wellFormed
  exact ⟨by decide +kernel, reads .initial .initial ⟨.standard, .empty [], none⟩ "main",
    equal v readable wellFormed rfl⟩

end TracedScript
