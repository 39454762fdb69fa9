import Mathlib.Data.List.Forall2
import TracedScript.Proofs.Syntax.Subtree

/-!
# Constructs of one form

Two constructs are alike if they are of the same form, with the same names, operators and literals,
and the nodes directly inside them correspond. What it means for nodes to correspond, and for the
spans that an evaluation looks at, is a parameter: nothing is said here of what lies deeper.
-/

namespace TracedScript

theorem forall₂_of_mem {α β : Type} {r q : α → β → Prop} {as : List α} {bs : List β}
    (h : List.Forall₂ r as bs) (hq : ∀ a ∈ as, ∀ b, r a b → q a b) : List.Forall₂ q as bs :=
  ((List.forall₂_and_left as bs).mpr ⟨hq, h⟩).imp fun _ b hab => hab.1 b hab.2

theorem forall₂_find? {α β : Type} {r : α → β → Prop} {as : List α} {bs : List β}
    (h : List.Forall₂ r as bs) {p : α → Bool} {q : β → Bool} (hp : ∀ a b, r a b → p a = q b) :
    Option.Rel r (as.find? p) (bs.find? q) := by
  induction h with
  | nil => exact .none
  | cons h _ ih =>
    rw [List.find?_cons, List.find?_cons, hp _ _ h]
    split
    · exact .some h
    · exact ih

theorem forall₂_findSome? {α β γ δ : Type} {r : α → β → Prop} {q : γ → δ → Prop} {as : List α}
    {bs : List β} (h : List.Forall₂ r as bs) {f : α → Option γ} {g : β → Option δ}
    (hf : ∀ a b, r a b → Option.Rel q (f a) (g b)) :
    Option.Rel q (as.findSome? f) (bs.findSome? g) := by
  induction h with
  | nil => exact .none
  | @cons a b _ _ h _ ih =>
    have found := hf a b h
    rw [List.findSome?_cons, List.findSome?_cons]
    generalize f a = o at found ⊢
    generalize g b = o' at found ⊢
    cases found with
    | none => exact ih
    | some h => exact .some h

theorem forall₂_getElem? {α β : Type} {r : α → β → Prop} {as : List α} {bs : List β}
    (h : List.Forall₂ r as bs) (i : Nat) : Option.Rel r as[i]? bs[i]? := by
  induction h generalizing i with
  | nil => exact .none
  | cons h _ ih =>
    cases i with
    | zero => exact .some h
    | succ i => exact ih i

theorem forall₂_set {α β : Type} {r : α → β → Prop} {as : List α} {bs : List β}
    (h : List.Forall₂ r as bs) {a : α} {b : β} (hab : r a b) (i : Nat) :
    List.Forall₂ r (as.set i a) (bs.set i b) := by
  induction h generalizing i with
  | nil => exact .nil
  | cons h hs ih =>
    cases i with
    | zero => exact .cons hab hs
    | succ i => exact .cons h (ih i)

theorem optionRel_refl {α : Type} {r : α → α → Prop} (h : ∀ a, r a a) (o : Option α) :
    Option.Rel r o o := by
  cases o with
  | none => exact .none
  | some a => exact .some (h a)

theorem optionRel_or {α : Type} {r : α → α → Prop} {o o' p p' : Option α}
    (h : Option.Rel r o o') (h' : Option.Rel r p p') : Option.Rel r (o.or p) (o'.or p') := by
  cases h with
  | none => exact h'
  | some h => exact .some h

section

variable (code : Node → Node → Prop) (span : Span → Span → Prop)

structure ParameterLiteral.Alike (p p' : ParameterLiteral) : Prop where
  name : p.name = p'.name
  type : Option.Rel code p.type p'.type

structure OptionLiteral.Alike (o o' : OptionLiteral) : Prop where
  name : o.name = o'.name
  default : code o.default o'.default

structure FunctionLiteral.Alike (f f' : FunctionLiteral) : Prop where
  params : List.Forall₂ (ParameterLiteral.Alike code) f.params f'.params
  options : List.Forall₂ (OptionLiteral.Alike code) f.options f'.options
  returns : Option.Rel code f.returns f'.returns
  body : List.Forall₂ code f.body f'.body

structure NamedArgument.Alike (a a' : NamedArgument) : Prop where
  name : a.name = a'.name
  value : code a.value a'.value
  span : span a.span a'.span

structure ArgumentList.Alike (l l' : ArgumentList) : Prop where
  positional : List.Forall₂ code l.positional l'.positional
  named : List.Forall₂ (NamedArgument.Alike code span) l.named l'.named
  span : span l.span l'.span

structure Branch.Alike (b b' : Branch) : Prop where
  condition : code b.condition b'.condition
  body : List.Forall₂ code b.body b'.body

inductive NodeKind.Alike : NodeKind → NodeKind → Prop where
  | int (n : Int64) : Alike (.int n) (.int n)
  | float (x : Float) : Alike (.float x) (.float x)
  | str (s : String) : Alike (.str s) (.str s)
  | array {items items' : List Node} :
    List.Forall₂ code items items' → Alike (.array items) (.array items')
  | tuple {items items' : List Node} :
    List.Forall₂ code items items' → Alike (.tuple items) (.tuple items')
  | dict {entries entries' : List (Node × Node)} :
    List.Forall₂ (fun e e' => code e.1 e'.1 ∧ code e.2 e'.2) entries entries' →
    Alike (.dict entries) (.dict entries')
  | read (name : String) : Alike (.read name) (.read name)
  | assign (name : String) {value value' : Node} :
    code value value' → Alike (.assign name value) (.assign name value')
  | declare (name : String) {value value' : Node} :
    code value value' → Alike (.declare name value) (.declare name value')
  | declareNull (name : String) : Alike (.declareNull name) (.declareNull name)
  | unary (op : UnaryOperator) {operand operand' : Node} :
    code operand operand' → Alike (.unary op operand) (.unary op operand')
  | binary {left left' : Node} (op : BinaryOperator) {right right' : Node} :
    code left left' → code right right' → Alike (.binary left op right) (.binary left' op right')
  | function {literal literal' : FunctionLiteral} :
    FunctionLiteral.Alike code literal literal' → Alike (.function literal) (.function literal')
  | call {callee callee' : Node} {lists lists' : List ArgumentList} :
    code callee callee' → List.Forall₂ (ArgumentList.Alike code span) lists lists' →
    Alike (.call callee lists) (.call callee' lists')
  | member {target target' : Node} (name : String) :
    code target target' → Alike (.member target name) (.member target' name)
  | index {target target' slot slot' : Node} :
    code target target' → code slot slot' → Alike (.index target slot) (.index target' slot')
  | «return» {value value' : Option Node} :
    Option.Rel code value value' → Alike (.return value) (.return value')
  | «break» : Alike .break .break
  | «continue» : Alike .continue .continue
  | «if» {cases cases' : List Branch} {otherwise otherwise' : Option (List Node)} :
    List.Forall₂ (Branch.Alike code) cases cases' →
    Option.Rel (List.Forall₂ code) otherwise otherwise' →
    Alike (.if cases otherwise) (.if cases' otherwise')
  | switch (target : Target) {subject subject' : Node} {cases cases' : List Branch}
    {otherwise otherwise' : Option (List Node)} :
    code subject subject' → List.Forall₂ (Branch.Alike code) cases cases' →
    Option.Rel (List.Forall₂ code) otherwise otherwise' →
    Alike (.switch target subject cases otherwise) (.switch target subject' cases' otherwise')
  | «for» (target : Target) {iterable iterable' : Node} {body body' : List Node} :
    code iterable iterable' → List.Forall₂ code body body' →
    Alike (.for target iterable body) (.for target iterable' body')
  | «while» {test test' : Node} {body body' : List Node} :
    code test test' → List.Forall₂ code body body' → Alike (.while test body) (.while test' body')
  | handler {body body' : List Node} :
    List.Forall₂ code body body' → Alike (.handler body) (.handler body')
  | include {module module' : Node} :
    code module module' → Alike (.include module) (.include module')

end

section

variable {code code' : Node → Node → Prop} {span span' : Span → Span → Prop}

/-- What corresponds still corresponds where more does. -/
theorem NodeKind.Alike.mono {kind kind' : NodeKind} (h : NodeKind.Alike code span kind kind')
    (hcode : ∀ n n', code n n' → code' n n') (hspan : ∀ s s', span s s' → span' s s') :
    NodeKind.Alike code' span' kind kind' := by
  have option {o o' : Option Node} (h : Option.Rel code o o') : Option.Rel code' o o' := by
    cases h with
    | none => exact .none
    | some h => exact .some (hcode _ _ h)
  have branches {bs bs' : List Branch} (h : List.Forall₂ (Branch.Alike code) bs bs') :
      List.Forall₂ (Branch.Alike code') bs bs' :=
    h.imp fun _ _ h => ⟨hcode _ _ h.condition, h.body.imp hcode⟩
  have rest {o o' : Option (List Node)} (h : Option.Rel (List.Forall₂ code) o o') :
      Option.Rel (List.Forall₂ code') o o' := by
    cases h with
    | none => exact .none
    | some h => exact .some (h.imp hcode)
  cases h with
  | int n => exact .int n
  | float x => exact .float x
  | str s => exact .str s
  | array h => exact .array (h.imp hcode)
  | tuple h => exact .tuple (h.imp hcode)
  | dict h => exact .dict (h.imp fun _ _ h => ⟨hcode _ _ h.1, hcode _ _ h.2⟩)
  | read name => exact .read name
  | assign name h => exact .assign name (hcode _ _ h)
  | declare name h => exact .declare name (hcode _ _ h)
  | declareNull name => exact .declareNull name
  | unary op h => exact .unary op (hcode _ _ h)
  | binary op hl hr => exact .binary op (hcode _ _ hl) (hcode _ _ hr)
  | function h =>
    refine .function ⟨?_, ?_, option h.returns, h.body.imp hcode⟩
    · exact h.params.imp fun _ _ h => ⟨h.name, option h.type⟩
    · exact h.options.imp fun _ _ h => ⟨h.name, hcode _ _ h.default⟩
  | call hcallee hlists =>
    refine .call (hcode _ _ hcallee) (hlists.imp fun _ _ h => ⟨h.positional.imp hcode, ?_, ?_⟩)
    · exact h.named.imp fun _ _ h => ⟨h.name, hcode _ _ h.value, hspan _ _ h.span⟩
    · exact hspan _ _ h.span
  | member name h => exact .member name (hcode _ _ h)
  | index ht hs => exact .index (hcode _ _ ht) (hcode _ _ hs)
  | «return» h => exact .return (option h)
  | «break» => exact .break
  | «continue» => exact .continue
  | «if» hb ho => exact .if (branches hb) (rest ho)
  | switch target hs hb ho => exact .switch target (hcode _ _ hs) (branches hb) (rest ho)
  | «for» target hi hb => exact .for target (hcode _ _ hi) (hb.imp hcode)
  | «while» ht hb => exact .while (hcode _ _ ht) (hb.imp hcode)
  | handler hb => exact .handler (hb.imp hcode)
  | «include» h => exact .include (hcode _ _ h)

end

/-- A construct corresponds to itself if the nodes directly inside it do. -/
theorem NodeKind.Alike.refl {code : Node → Node → Prop} {span : Span → Span → Prop}
    (hspan : ∀ s, span s s) {kind : NodeKind} (h : ∀ c ∈ kind.children, code c c) :
    NodeKind.Alike code span kind kind := by
  have nodes {items : List Node} (h : ∀ c ∈ items, code c c) : List.Forall₂ code items items :=
    List.forall₂_same.mpr h
  have option {o : Option Node} (h : ∀ c ∈ o.toList, code c c) : Option.Rel code o o := by
    cases o with
    | none => exact .none
    | some c => exact .some (h c (List.mem_singleton_self c))
  have branches {bs : List Branch} (h : ∀ c ∈ bs.flatMap Branch.children, code c c) :
      List.Forall₂ (Branch.Alike code) bs bs := by
    refine List.forall₂_same.mpr fun b hb => ⟨?_, nodes fun c hc => ?_⟩
    · exact h _ (List.mem_flatMap.mpr ⟨b, hb, List.mem_cons_self ..⟩)
    · exact h _ (List.mem_flatMap.mpr ⟨b, hb, List.mem_cons_of_mem _ hc⟩)
  have rest {o : Option (List Node)} (h : ∀ c ∈ o.getD [], code c c) :
      Option.Rel (List.Forall₂ code) o o := by
    cases o with
    | none => exact .none
    | some body => exact .some (nodes h)
  cases kind with
  | int n => exact .int n
  | float x => exact .float x
  | str s => exact .str s
  | array items => exact .array (nodes h)
  | tuple items => exact .tuple (nodes h)
  | dict entries =>
    refine .dict (List.forall₂_same.mpr fun e he => ⟨?_, ?_⟩)
    · exact h _ (List.mem_flatMap.mpr ⟨e, he, by simp⟩)
    · exact h _ (List.mem_flatMap.mpr ⟨e, he, by simp⟩)
  | read name => exact .read name
  | assign name value => exact .assign name (h value (List.mem_singleton_self value))
  | declare name value => exact .declare name (h value (List.mem_singleton_self value))
  | declareNull name => exact .declareNull name
  | unary op operand => exact .unary op (h operand (List.mem_singleton_self operand))
  | binary left op right =>
    obtain ⟨hl, hr⟩ := List.forall_mem_cons.mp h
    exact .binary op hl (hr right (List.mem_singleton_self right))
  | function literal =>
    have part {c : Node} (hc : c ∈ literal.children) : code c c := h c hc
    simp only [FunctionLiteral.children, List.mem_append, List.mem_flatMap, List.mem_map] at part
    apply Alike.function
    constructor
    · exact List.forall₂_same.mpr fun p hp =>
        ⟨rfl, option fun c hc => part (.inl (.inl (.inl ⟨p, hp, hc⟩)))⟩
    · exact List.forall₂_same.mpr fun o ho => ⟨rfl, part (.inl (.inl (.inr ⟨o, ho, rfl⟩)))⟩
    · exact option fun c hc => part (.inl (.inr hc))
    · exact nodes fun c hc => part (.inr hc)
  | call callee lists =>
    obtain ⟨hcallee, hlists⟩ := List.forall_mem_cons.mp h
    apply Alike.call hcallee
    apply List.forall₂_same.mpr
    intro list hlist
    have part {c : Node} (hc : c ∈ list.children) : code c c :=
      hlists c (List.mem_flatMap.mpr ⟨list, hlist, hc⟩)
    constructor
    · exact nodes fun c hc => part (List.mem_append_left _ hc)
    · exact List.forall₂_same.mpr fun a ha =>
        ⟨rfl, part (List.mem_append_right _ (List.mem_map_of_mem ha)), hspan a.span⟩
    · exact hspan list.span
  | member target name => exact .member name (h target (List.mem_singleton_self target))
  | index target slot =>
    obtain ⟨ht, hs⟩ := List.forall_mem_cons.mp h
    exact .index ht (hs slot (List.mem_singleton_self slot))
  | «return» value => exact .return (option h)
  | «break» => exact .break
  | «continue» => exact .continue
  | «if» bs otherwise =>
    obtain ⟨hb, ho⟩ := List.forall_mem_append.mp h
    exact .if (branches hb) (rest ho)
  | switch target subject bs otherwise =>
    obtain ⟨hsubject, h⟩ := List.forall_mem_cons.mp h
    obtain ⟨hb, ho⟩ := List.forall_mem_append.mp h
    exact .switch target hsubject (branches hb) (rest ho)
  | «for» target iterable body =>
    obtain ⟨hi, hb⟩ := List.forall_mem_cons.mp h
    exact .for target hi (nodes hb)
  | «while» test body =>
    obtain ⟨ht, hb⟩ := List.forall_mem_cons.mp h
    exact .while ht (nodes hb)
  | handler body => exact .handler (nodes h)
  | «include» module => exact .include (h module (List.mem_singleton_self module))

end TracedScript
