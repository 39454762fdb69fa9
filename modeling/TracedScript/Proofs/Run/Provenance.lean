import TracedScript.Proofs.Control.Places

/-!
# Values know where they are

Whatever a construct gives it has put at a place in its own frame, or it has taken the value of a
node inside as it is. So the value of a node stands within the node and belongs to the frame that
the node is evaluated in. Values forget their oldest places in time, and whoever binds a value tells
it the name. Main statement: `values_know_their_places`.
-/

namespace TracedScript

/-! ## Places and frames -/

/-- The value has a place, and belongs to the frame. -/
structure Value.Located (stack : CallStack) (v : Value) : Prop where
  span : ∃ span, v.span = some span
  owner : v.trace.owner = some stack.display

theorem Value.located_place (v : Value) (span : Span) (stack : CallStack) :
    (v.place span stack.display).Located stack := ⟨⟨span, rfl⟩, rfl⟩

theorem Value.located_relocate (v : Value) (span : Span) (stack : CallStack) :
    (v.relocate span stack.display).Located stack := ⟨⟨span, rfl⟩, rfl⟩

namespace Eval

/-- From whatever state, a result is such that `p`. -/
abbrev Gives {α : Type} (p : α → Prop) (x : Eval α) : Prop := x.Ends p fun _ => True

section

variable {α β : Type} {p : β → Prop}

/-- Only the last step counts. -/
theorem Gives.last {x : Eval α} {f : α → Eval β} (h : ∀ a, (f a).Gives p) : (x >>= f).Gives p :=
  Terms.Agree.bind (p := fun _ => True)
    (.of_fair fun _ _ => ⟨trivial, fun _ _ => trivial, fun _ _ => trivial⟩) fun a _ => h a

theorem gives_fail {e : Failure} : (fail e : Eval β).Gives p := .fail trivial

theorem gives_completed {x : Eval β} (h : x.Gives p) (stack : CallStack) (span : Span) :
    (completed stack span x).Gives p := h.adapt (fun _ _ => trivial) fun _ _ => id

end

variable {around : Surroundings} {evaluator : Evaluator} {stack : CallStack} {name : String}
  {span : Span} {v : Value}

theorem gives_placed (v : Value) :
    (pure (v.place span stack.display) : Eval Value).Gives (Value.Located stack) :=
  .pure (v.located_place span stack)

theorem gives_relocated (v : Value) :
    (pure (v.relocate span stack.display) : Eval Value).Gives (Value.Located stack) :=
  .pure (v.located_relocate span stack)

theorem gives_read : (read name stack span).Gives (Value.Located stack) := by
  unfold read
  refine .last fun m => ?_
  split
  · exact gives_relocated _
  · exact gives_fail

theorem gives_assign (hv : v.Located stack) :
    (assign name v stack span).Gives (Value.Located stack) := by
  unfold assign
  refine .last fun m => ?_
  dsimp only
  split
  · split
    · exact gives_fail
    · exact .last fun _ => .pure hv
  · exact gives_fail

theorem gives_declare (hv : v.Located stack) :
    (declare name v stack span).Gives (Value.Located stack) := by
  unfold declare
  refine .last fun m => ?_
  dsimp only
  split
  · exact gives_fail
  · exact .last fun _ => .pure hv

/-! ### Calls -/

theorem gives_callBuiltin (f : Builtin) (args : Arguments) :
    (callBuiltin around f args stack).Gives (Value.Located stack) := by
  unfold callBuiltin
  split
  · exact gives_fail
  · split
    · exact gives_fail
    · apply gives_completed
      have result : (do
          let result ← ofExcept (f.result args.positional args.span)
          return result.relocate args.span stack.display : Eval Value).Gives
            (Value.Located stack) := .last fun _ => gives_relocated _
      dsimp only
      split
      · exact .last fun _ => result
      · exact result

/-- The frame of the function is left: its value belongs to the caller. -/
theorem gives_callFunction (f : Function) (args : Arguments) :
    (callFunction around evaluator f name args stack).Gives (Value.Located stack) := by
  unfold callFunction
  dsimp only
  split
  · exact .fail_bind trivial
  · refine .last fun bs => .last fun scope => .last fun _ => .last fun result => ?_
    split
    · split
      · exact .fail_bind trivial
      · exact gives_relocated _
    · exact gives_relocated _

theorem gives_call (callee : Value) (args : Arguments) :
    (call around evaluator callee args stack).Gives (Value.Located stack) := by
  unfold call
  split
  · exact gives_callBuiltin _ _
  · exact gives_callFunction _ _
  · exact gives_fail

theorem gives_callAll {inLoop : Bool} (lists : List ArgumentList) (hv : v.Located stack) :
    (callAll around evaluator span stack inLoop v lists).Gives (Value.Located stack) := by
  induction lists generalizing v with
  | nil => exact .pure hv
  | cons list lists ih =>
    unfold callAll
    exact .last fun args => (gives_call v args).bind fun result hr => ih hr

/-! ### All constructs -/

theorem gives_construct (n : Nat) (node : Node) (inLoop : Bool)
    (h : ∀ c b, (evaluator c stack b).Gives (Value.Located stack)) :
    (construct around n evaluator node stack inLoop).Gives (Value.Located stack) := by
  obtain ⟨kind, span⟩ := node
  cases kind with
  | int | float | str => exact gives_placed _
  | array | tuple | dict | function | «if» | «for» | «while» | handler =>
    exact .last fun _ => gives_placed _
  | read => exact gives_read
  | assign _ value => exact (h value inLoop).bind fun _ hv => gives_assign hv
  | declare _ value => exact (h value inLoop).bind fun _ hv => gives_declare hv
  | declareNull => exact gives_declare (Value.located_place ..)
  | unary => exact .last fun _ => .last fun _ => gives_placed _
  | binary => exact .last fun _ => .last fun _ => .last fun _ => gives_placed _
  | member | index => exact .last fun _ => .last fun _ => .last fun _ => gives_relocated _
  | call callee lists => exact (h callee inLoop).bind fun _ hv => gives_callAll lists hv
  | «return» value =>
    unfold construct
    dsimp only
    split
    · cases value <;> exact .last fun _ => .throw trivial
    · exact gives_fail
  | «break» | «continue» =>
    unfold construct
    dsimp only
    split
    · exact .throw trivial
    · exact gives_fail
  | switch => exact .last fun _ => .last fun _ => .last fun _ => gives_placed _
  | «include» =>
    unfold construct includeModule
    refine .last fun v => .last fun name => .last fun m => ?_
    dsimp only
    split
    · exact .fail_bind trivial
    · exact .last fun scope => gives_declare (Value.located_place ..)

/-- The induction is on the allowance: all nodes whose value is taken as it is are evaluated in the
same frame. -/
theorem gives_evaluate (around : Surroundings) (n : Nat) (node : Node) (stack : CallStack)
    (inLoop : Bool) : (evaluate around n node stack inLoop).Gives (Value.Located stack) := by
  induction n generalizing node inLoop with
  | zero => exact .throw trivial
  | succ n ih => exact gives_completed (gives_construct n node inLoop ih) stack node.span

end Eval

/-! ## Names and former places -/

theorem Value.modest_recent : Modest Recent where
  moved hv _ _ ho := ho hv
  plain _ _ := Nat.zero_le _

/-- Each value knows the name that it is bound to. -/
def Bindings.Named (bs : Bindings) : Prop := ∀ b ∈ bs, b.2.name = some b.1

/-- Each value knows the name that it is bound to, and neither it nor any value inside it has more
former places than a value remembers. -/
def Bindings.Recorded (bs : Bindings) : Prop :=
  ∀ b ∈ bs, b.2.name = some b.1 ∧ b.2.Throughout Value.Recent

/-- This holds of the values bound in every scope. -/
def Store.Recorded (s : Store) : Prop := ∀ id, (s.bindings id).Recorded

theorem Bindings.Named.recorded {bs : Bindings} (h : bs.Named)
    (hb : ∀ b ∈ bs, b.2.Throughout Value.Recent) : bs.Recorded := fun b hm => ⟨h b hm, hb b hm⟩

namespace Function

theorem named_bindParameters {function : String} {params : List Parameter} {args : List Value}
    {bs : Bindings} (h : bindParameters function params args = .ok bs) : bs.Named := by
  fun_induction bindParameters function params args generalizing bs with
  | case1 p ps v vs _ ih | case3 p ps v vs _ ih =>
    obtain ⟨rest, hr, rfl⟩ := exists_of_map_ok h
    exact List.forall_mem_cons.mpr ⟨rfl, ih hr⟩
  | case2 => cases h
  | case4 =>
    cases h
    exact List.forall_mem_nil _

theorem named_bindOptions {f : Function} {function : String} {named : List NamedValue}
    {bs : Bindings} (h : f.bindOptions function named = .ok bs) : bs.Named := by
  fun_induction bindOptions f function named generalizing bs with
  | case1 =>
    cases h
    exact List.forall_mem_nil _
  | case2 a rest _ ih =>
    obtain ⟨later, hl, rfl⟩ := exists_of_map_ok h
    exact List.forall_mem_cons.mpr ⟨rfl, ih hl⟩
  | case3 => cases h

theorem named_bind {f : Function} {function : String} {args : Arguments} {bs : Bindings}
    (h : f.bind function args = .ok bs) : bs.Named := by
  unfold Function.bind at h
  split at h
  · cases h
  obtain ⟨params, hparams, h⟩ := exists_of_bind_ok h
  obtain ⟨options, hoptions, h⟩ := exists_of_bind_ok h
  cases h
  refine List.forall_mem_append.mpr ⟨List.forall_mem_append.mpr ⟨?_, ?_⟩, ?_⟩
  · exact named_bindParameters hparams
  · exact List.forall_mem_map.mpr fun _ _ => rfl
  · exact named_bindOptions hoptions

end Function

theorem Module.named_native {directories : List String} {name : String} {bs : Bindings}
    (h : native? directories name = some bs) : bs.Named := by
  unfold native? at h
  split at h
  · cases h
    exact List.forall_mem_append.mpr ⟨by simp [Module.bind, Value.named, Value.name, Trace.named],
      List.forall_mem_map.mpr fun _ _ => rfl⟩
  · split at h
    · cases h
      simp [sys, Module.bind, Bindings.Named, Value.named, Value.name, Trace.named]
    · cases h

theorem Machine.recorded_prelude : Bindings.Recorded prelude := by
  intro b hb
  obtain ⟨v, hv, whole⟩ := exists_made_of_mem_prelude hb
  rw [whole]
  refine ⟨rfl, Value.throughout_iff.mpr ⟨?_, ?_⟩⟩
  · have nowhere : v.origin = [] := congrArg Trace.origin hv.fresh
    show v.origin.length ≤ Trace.limit
    rw [nowhere]
    exact Nat.zero_le _
  · show ∀ u ∈ v.data.parts, u.Throughout Value.Recent
    rw [hv.atomic.parts]
    exact List.forall_mem_nil _

namespace Store.Recorded

variable {s : Store}

theorem define (h : s.Recorded) (id : ScopeId) (name : String) {v : Value}
    (hv : v.Throughout Value.Recent) : (s.define id name (v.named name)).Recorded :=
  fun j => forall_bindings_define (h j) ⟨rfl, Value.modest_recent.named hv name⟩

theorem opened (h : s.Recorded) (parent : Option ScopeId) {bs : Bindings} (hb : bs.Recorded) :
    ((s.add parent).defineAll s.next bs).Recorded := by
  intro j
  refine forall_bindings_defineAll ?_ hb
  rw [bindings_add]
  exact h j

end Store.Recorded

namespace Discipline

/-- Allows values that do not remember too many places, bound to the names that they know. -/
def recorded : Discipline where
  code _ := True
  scope _ := True
  frame _ id := Machine.preludeScope ≠ id
  allows _ v := v.Recent
  store s := s.Recorded
  code_child _ _ := trivial
  scope_prelude := trivial
  scope_frame _ := trivial
  frame_ne h := h
  frame_grows _ h := h
  modest _ := Value.modest_recent
  allows_grows _ h := h
  allows_namespace _ := Nat.zero_le _
  scope_namespace _ _ := trivial
  allows_function _ _ _ _ _ _ := Nat.zero_le _
  body _ _ := ⟨fun _ _ => trivial, trivial⟩
  store_top h hp := ⟨h.opened (some Machine.preludeScope) (List.forall_mem_nil _),
    (hp.opened_ne (some Machine.preludeScope) []).1⟩
  store_call h hp _ _ hbind hb := ⟨h.opened _ ((Function.named_bind hbind).recorded hb),
    (hp.opened_ne none []).1⟩
  store_native h hb := ⟨h.opened none ((Module.named_native hb).recorded
    (Value.modest_recent.native hb)), Nat.zero_le _⟩
  store_assign h _ _ _ _ _ hv := h.define _ _ hv
  store_declare h _ _ _ hv := h.define _ _ hv

variable {m : Machine} {around : Surroundings} {name text : String}

theorem covers_recorded : recorded.Covers around := fun _ _ _ _ _ _ _ _ => trivial

theorem reads_recorded : recorded.Reads name text := fun _ _ _ _ => trivial

theorem recorded_initial : recorded.Sound Machine.initial.store := by
  refine .initial fun id => ?_
  by_cases hid : Machine.preludeScope = id
  · subst hid
    rw [Machine.keepsPrelude_initial.bindings]
    exact Machine.recorded_prelude
  · rw [Machine.bindings_initial hid]
    exact List.forall_mem_nil _

theorem recorded_reached (h : m.Reached) : recorded.Sound m.store :=
  Universal.reached ⟨recorded_initial, fun _ => covers_recorded, fun _ _ => reads_recorded⟩ h

end Discipline

theorem Visit.Settled.meets_recorded {u : Visit} (h : u.Settled) (hr : u.machine.store.Recorded) :
    Discipline.recorded.Meets u.machine.store u where
  grows := .refl _
  sound := ⟨h.prelude, fun id _ b hb => Discipline.bound_of_value (D := .recorded) (hr id b hb).2,
    fun _ _ _ _ => trivial, hr⟩
  code := trivial
  standing := h.frames

/-- Let a node of a program be evaluated in any frame, in any state whose bindings know their names.
Then they do so afterwards. And if this gives a value, it stands within the node, belongs to the
frame and has no more than 16 former places. In all states between, before and after runs, and in
which a run comes to evaluate a node, all values that are bound in any scope know their names. -/
theorem values_know_their_places (around : Surroundings) :
    (∀ u : Visit, u.node.Parsed → u.Settled → u.machine.store.Recorded →
      (u.ending around).2.store.Recorded ∧
      ∀ v, (u.ending around).1 = .ok v →
        (∃ span, v.span = some span ∧ u.node.span.Contains span) ∧
        v.trace.owner = some u.stack.display ∧ v.origin.length ≤ 16) ∧
    ∀ m : Machine, m.Reached → m.store.Recorded ∧ ∀ n name text u,
      m.Visits around n name text u → u.Settled ∧ u.machine.store.Recorded := by
  refine ⟨fun u hn hu hr => ?_, fun m hm => ?_⟩
  · have outcome : Discipline.recorded.Outcome u.machine.store _ (u.ending around) :=
      (hu.meets_recorded hr).ending Discipline.covers_recorded
    refine ⟨outcome.sound.store, fun v hv => ?_⟩
    have located : v.Located u.stack :=
      ((Eval.gives_evaluate around u.allowance u.node u.stack u.inLoop).fair u.machine).value v hv
    obtain ⟨span, hspan⟩ := located.span
    exact ⟨⟨span, hspan, hu.stands hn hv span hspan⟩, located.owner, (outcome.value v hv).self⟩
  · have sound := Discipline.recorded_reached hm
    exact ⟨sound.store, fun n name text u h => ⟨Visit.settled_of_visits hm h,
      (h.meets Discipline.covers_recorded sound Discipline.reads_recorded).sound.store⟩⟩

/-- The value of the first statement of a program, if there is one. -/
def firstValue? (around : Surroundings) (n : Nat) (name text : String) : Option Value :=
  match (Source.mk name (Text.normalize text)).program with
  | .ok (c :: _) =>
    let root : CallStack := .root "<program>" Machine.initial.store.next .program
    match (evaluate around n c root false
        { Machine.initial with
          store := Machine.initial.store.add (some Machine.preludeScope) }).1 with
    | .ok v => some v
    | _ => none
  | _ => none

/-- An element of an array that is read remembers where it was written. -/
theorem element_knows_its_places :
    let around : Surroundings := ⟨.standard, .empty [], none⟩
    ∃ u v span, Machine.initial.Visits around 9 "main" "[7][0]" u ∧ u.node.Parsed ∧ u.Settled ∧
      u.machine.store.Recorded ∧ (u.ending around).1 = .ok v ∧ v.span = some span ∧
      u.node.span.Contains span ∧ v.trace.owner = some u.stack.display ∧ v.origin.length = 1 := by
  intro around
  have gives : (firstValue? around 9 "main" "[7][0]").any (·.origin.length = 1) = true := by
    decide +kernel
  unfold firstValue? at gives
  cases hp : (Source.mk "main" (Text.normalize "[7][0]")).program with
  | error e =>
    rw [hp] at gives
    cases gives
  | ok statements =>
    rw [hp] at gives
    cases statements with
    | nil => cases gives
    | cons c rest =>
      let u : Visit := ⟨c, .root "<program>" Machine.initial.store.next .program, false,
        { Machine.initial with store := Machine.initial.store.add (some Machine.preludeScope) }, 9⟩
      have visits : Machine.initial.Visits around 9 "main" "[7][0]" u :=
        Machine.initial.visits_first around 9 hp
      have parsed : u.node.Parsed := ⟨_, _, hp, c, List.mem_cons_self .., .refl⟩
      obtain ⟨step, reached⟩ := values_know_their_places around
      obtain ⟨settled, recorded⟩ := (reached .initial .initial).2 9 "main" "[7][0]" u visits
      dsimp only at gives
      split at gives
      · rename_i v hv
        obtain ⟨⟨span, hspan, inside⟩, owner, -⟩ := (step u parsed settled recorded).2 v hv
        exact ⟨u, v, span, visits, parsed, settled, recorded, hv, hspan, inside, owner,
          of_decide_eq_true gives⟩
      · cases gives

end TracedScript
