import TracedScript.Proofs.Control.Visits
import TracedScript.Proofs.Run.Outcome
import TracedScript.Proofs.Run.OutputLimit

/-!
# Runs do not see each other

What earlier programs leave behind are scopes and numbers that are taken, and lines that are
printed. A later program gets to none of these scopes, so it runs as it would alone, but for higher
numbers for what is new: `runs_are_isolated`.
-/

namespace TracedScript

/-- The scope of the built-in names is that of both runs. Of all others those count that are made
from some point on, at which the next scope is `base` in the first run and `base'` in the second. -/
def ScopeId.Renumbered (base base' a a' : ScopeId) : Prop :=
  a = Machine.preludeScope ∧ a' = Machine.preludeScope ∨ ∃ k, a = base + k ∧ a' = base' + k

/-- Scopes are in the same order in both runs. -/
theorem ScopeId.Renumbered.lt_iff {base base' a a' b b' : ScopeId}
    (hbase : Machine.preludeScope < base) (hbase' : Machine.preludeScope < base')
    (ha : Renumbered base base' a a') (hb : Renumbered base base' b b') : a < b ↔ a' < b' := by
  obtain ⟨rfl, rfl⟩ | ⟨k, rfl, rfl⟩ := ha
  · obtain ⟨rfl, rfl⟩ | ⟨l, rfl, rfl⟩ := hb
    · exact Iff.rfl
    · exact iff_of_true (Nat.lt_add_right l hbase) (Nat.lt_add_right l hbase')
  · obtain ⟨rfl, rfl⟩ | ⟨l, rfl, rfl⟩ := hb
    · exact iff_of_false (Nat.not_lt_zero _) (Nat.not_lt_zero _)
    · rw [Nat.add_lt_add_iff_left, Nat.add_lt_add_iff_left]

/-- The same frame, but for the number of its scope. -/
structure Frame.Renumbered (scope : ScopeId → ScopeId → Prop) (f f' : Frame) : Prop where
  display : f.display = f'.display
  scope : scope f.scope f'.scope
  kind : f.kind = f'.kind
  callSite : f.callSite = f'.callSite
  depth : f.depth = f'.depth

/-- The same frames, but for the numbers of their scopes. -/
def CallStack.Renumbered (scope : ScopeId → ScopeId → Prop) (c c' : CallStack) : Prop :=
  List.Forall₂ (Frame.Renumbered scope) c.frames c'.frames

namespace CallStack.Renumbered

variable {scope : ScopeId → ScopeId → Prop} {c c' : CallStack} {s s' : ScopeId}

theorem top (h : c.Renumbered scope c') : c.top.Renumbered scope c'.top := by
  cases h
  assumption

theorem root (display : String) (kind : FrameKind) (hs : scope s s') :
    (CallStack.root display s kind).Renumbered scope (.root display s' kind) :=
  .cons ⟨rfl, hs, rfl, rfl, rfl⟩ .nil

theorem call (h : c.Renumbered scope c') (display : String) (kind : FrameKind) (hs : scope s s')
    (span : Span) :
    (c.call display s span kind).Renumbered scope (c'.call display s' span kind) := by
  have depth := congrArg (· + if kind = .function then 1 else 0) h.top.depth
  exact .cons ⟨rfl, hs, rfl, rfl, depth⟩ h

end CallStack.Renumbered

/-- Everything is the same, but in the second run new scopes, functions and caught errors have other
numbers, and it starts with nothing printed where the first run has printed something before. -/
def Likeness.renumbered (base base' id : Nat) (before : Array String)
    (hbase : Machine.preludeScope < base) (hbase' : Machine.preludeScope < base') : Likeness :=
  { Likeness.equal with
    scope := ScopeId.Renumbered base base'
    next := fun n n' => ∃ k, n = base + k ∧ n' = base' + k
    ident := fun i i' => i = id + i'
    stack := CallStack.Renumbered (ScopeId.Renumbered base base')
    output := fun p p' => p.toList = before.toList ++ p'.toList
    scope_prelude := .inl ⟨rfl, rfl⟩
    scope_lt := ScopeId.Renumbered.lt_iff hbase hbase'
    scope_next := .inr
    next_succ := by
      rintro n n' ⟨k, rfl, rfl⟩
      exact ⟨k + 1, rfl, rfl⟩
    ident_inj := by
      rintro i i' j j' rfl rfl
      exact Nat.add_left_cancel_iff
    ident_succ := by
      rintro i i' rfl
      rfl
    stack_display := fun h => h.top.display
    stack_depth := fun h => h.top.depth
    stack_root := fun display kind _ _ hs => .root display kind hs
    stack_call := by
      rintro c c' display kind s s' t t' h hs rfl
      exact h.call display kind hs t }

namespace Likeness

variable {base base' id : Nat} {before : Array String} {hbase : Machine.preludeScope < base}
  {hbase' : Machine.preludeScope < base'}

/-- The built-in names mean the same in both runs. -/
theorem like_prelude (K : Likeness) : Bindings.Like K Machine.prelude Machine.prelude := by
  have reserved (name : String) {d : Data} (h : d.Alike K (Value.Like K) d) :
      (Machine.reserved name (.ofData d)).2.Like K (Machine.reserved name (.ofData d)).2 :=
    .mk h (Reflexive.trace _)
  refine List.forall₂_same.mpr fun b hb => ⟨rfl, ?_⟩
  obtain hb | hb := List.mem_append.mp hb
  · simp only [List.mem_cons, List.not_mem_nil, or_false] at hb
    obtain rfl | rfl | rfl := hb
    · exact reserved "Null" .null
    · exact reserved "True" (.bool true)
    · exact reserved "False" (.bool false)
  · obtain ⟨f, -, rfl⟩ := List.mem_map.mp hb
    exact reserved f.name (.builtin f)

theorem renumbered_around (around : Surroundings) :
    (renumbered base base' id before hbase hbase').forever.Around around.unlimited
      around.unlimited := by
  refine ⟨rfl, rfl, fun line t t' ht m m' hm => .inl (.ok trivial ?_)⟩
  have printed : (m.printed.push line).toList = before.toList ++ (m'.printed.push line).toList := by
    rw [Array.toList_push, Array.toList_push, ← List.append_assoc]
    exact congrArg (· ++ [line]) hm.printed
  exact ⟨hm.store, printed, hm.including, hm.nextId⟩

end Likeness

/-- The scope of the built-in names, as a whole. -/
theorem Store.KeepsPrelude.scope {s : Store} (h : s.KeepsPrelude) :
    s.scopes[Machine.preludeScope]? = some ⟨Machine.prelude, none⟩ := by
  have bindings := h.bindings
  have parent := h.parent
  obtain ⟨⟨bs, p⟩, found⟩ : ∃ a, s.scopes[Machine.preludeScope]? = some a :=
    ⟨_, Array.getElem?_eq_getElem h.next⟩
  unfold Store.bindings at bindings
  unfold Store.parent? at parent
  rw [found] at bindings parent ⊢
  obtain rfl : bs = Machine.prelude := bindings
  obtain rfl : p = none := parent
  rfl

namespace Machine

/-- Stores that keep the built-in names are alike, as only new scopes count. -/
theorem like_between {m m' : Machine} (hm : m.store.KeepsPrelude) (hm' : m'.store.KeepsPrelude)
    (hid : m'.nextId = 0) (hprinted : m'.printed = #[]) (hincluding : m.including = m'.including) :
    m.Like (.renumbered m.store.next m'.store.next m.nextId m.printed hm.next hm'.next) m' := by
  refine ⟨⟨⟨0, rfl, rfl⟩, ?_⟩, ?_, hincluding, ?_⟩
  · rintro a a' (⟨rfl, rfl⟩ | ⟨k, rfl, rfl⟩)
    · rw [hm.scope, hm'.scope]
      exact .some ⟨Likeness.like_prelude _, .none⟩
    · have none (s : Store) : s.scopes[s.next + k]? = .none :=
        Array.getElem?_eq_none (Nat.le_add_right _ _)
      rw [none, none]
      exact .none
  · change m.printed.toList = m.printed.toList ++ m'.printed.toList
    rw [hprinted]
    exact (List.append_nil _).symm
  · change m.nextId = m.nextId + m'.nextId
    rw [hid]
    rfl

end Machine

/-! ## What users see -/

/-- Values that look the same and have been at the same places. -/
structure Value.SameShown (v v' : Value) : Prop where
  kind : v.kind = v'.kind
  display : v.display = v'.display
  repr : v.repr = v'.repr
  trace : v.trace = v'.trace

/-- Failures that are the same but for the numbers of scopes, and are reported alike. -/
structure Failure.SameShown (e e' : Failure) : Prop where
  kind : e.kind = e'.kind
  message : e.message = e'.message
  span : e.span = e'.span
  origin : e.origin = e'.origin
  stack : Option.Rel (CallStack.Renumbered fun _ _ => True) e.stack e'.stack
  report : Report.ofFailure e = Report.ofFailure e'

/-- The numbers of scopes are not reported. -/
theorem Report.trail_eq {scope : ScopeId → ScopeId → Prop} {e e' : Failure}
    (hspan : e.span = e'.span) (hstack : Option.Rel (CallStack.Renumbered scope) e.stack e'.stack) :
    trail e = trail e' := by
  have frames {fs fs' : List Frame} (h : List.Forall₂ (Frame.Renumbered scope) fs fs')
      (span : Option Span) : reached span fs = reached span fs' := by
    induction h generalizing span with
    | nil => rfl
    | cons hf _ ih => rw [reached, reached, hf.display, hf.callSite, ih]
  unfold trail
  rw [hspan]
  generalize e.stack = o at hstack ⊢
  generalize e'.stack = o' at hstack ⊢
  cases hstack with
  | none => rfl
  | some h => exact frames h e'.span

namespace Likeness

variable {base base' id : Nat} {before : Array String} {hbase : Machine.preludeScope < base}
  {hbase' : Machine.preludeScope < base'}

theorem sameShown_value {v v' : Value}
    (h : v.Like (renumbered base base' id before hbase hbase') v') : v.SameShown v' :=
  ⟨h.kind, h.display, h.repr, eq_of_trace (fun h => h) h.trace⟩

theorem sameShown_failure {e e' : Failure}
    (h : e.Like (renumbered base base' id before hbase hbase') e') : e.SameShown e' := by
  have span : e.span = e'.span := eq_of_rel (fun _ _ h => h) h.span
  have origin : e.origin = e'.origin := eq_of_hops (fun h => h) h.origin
  have stack : Option.Rel (CallStack.Renumbered fun _ _ => True) e.stack e'.stack := by
    have like := h.stack
    generalize e.stack = o at like ⊢
    generalize e'.stack = o' at like ⊢
    cases like with
    | none => exact .none
    | some hc => exact .some (hc.imp fun _ _ h => ⟨h.display, trivial, h.kind, h.callSite, h.depth⟩)
  refine ⟨h.kind, h.message, span, origin, stack, ?_⟩
  unfold Report.ofFailure
  rw [Report.trail_eq span stack, h.kind, h.message, origin]

end Likeness

/-- A program run after others, whatever has become of them, ends as it does when it is the first
one: it can not be read for the same reason, or gives values that look the same, are called the same
and have been at the same places, or fails with the same failure at the same place in the same
frames, which is reported in the same words. It prints the same. -/
theorem runs_are_isolated {m : Machine} (hm : m.Reached) (around : Surroundings) (n : Nat)
    (name text : String) :
    let last := m.run around.unlimited n name text
    let alone := Machine.initial.run around.unlimited n name text
    Outcome.Like Eq Value.SameShown Failure.SameShown last.1 alone.1 ∧
      last.2.outputAfter m.printed.size = alone.2.outputAfter 0 := by
  intro last alone
  have start := Machine.like_between hm.prelude Machine.keepsPrelude_initial rfl rfl hm.including
  have runs : Outcome.Like Eq Value.SameShown Failure.SameShown last.1 alone.1 ∧
      last.2.printed.toList = m.printed.toList ++ alone.2.printed.toList := by
    cases hp : (Source.mk name (Text.normalize text)).program with
    | error e =>
      have unread (m : Machine) : m.run around.unlimited n name text = (.error (.source e), m) := by
        rw [Machine.run, hp]
      have ended : last = (.error (.source e), m) := unread m
      have ended' : alone = (.error (.source e), Machine.initial) := unread _
      rw [ended, ended']
      exact ⟨.source rfl, start.printed⟩
    | ok statements =>
      have same : Outcome.Like Eq _ _ last.1 alone.1 ∧ _ :=
        Machine.run_like (Likeness.renumbered_around around) start n hp hp
          (List.forall₂_same.mpr fun _ _ => rfl)
      exact ⟨same.1.weaken (fun _ _ => Likeness.sameShown_value)
        fun _ _ => Likeness.sameShown_failure, same.2.printed⟩
  refine ⟨runs.1, ?_⟩
  unfold Machine.outputAfter
  rw [runs.2, ← Array.length_toList, List.drop_left, List.drop_zero]

/-- After a program that has declared a name, printed it and failed, the name is unknown again. -/
theorem name_forgotten_after_failure :
    let around : Surroundings := ⟨.standard, .empty [], none⟩
    let before := (Machine.initial.run around 9 "first" "var x = 1\nprint(x)\nthrow(x)").2
    let last := before.run around.unlimited 9 "main" "print(2)\nx"
    before.Reached ∧ before.printed.toList = ["1"] ∧ last.1.isOk = false ∧
      last.2.outputAfter 1 = "2\n" := by
  intro around before last
  have reached : before.Reached := .run around 9 _ _ .initial
  have printed : before.printed = #["1"] := by decide +kernel
  obtain ⟨outcome, output⟩ := runs_are_isolated reached around 9 "main" "print(2)\nx"
  have fails : (Machine.initial.run around.unlimited 9 "main" "print(2)\nx").1.isOk = false := by
    decide +kernel
  have text : (Machine.initial.run around.unlimited 9 "main" "print(2)\nx").2.outputAfter 0 =
      "2\n" := by decide +kernel
  rw [printed] at output
  refine ⟨reached, congrArg Array.toList printed, ?_, output.trans text⟩
  change (before.run around.unlimited 9 "main" "print(2)\nx").1.isOk = false
  generalize (before.run around.unlimited 9 "main" "print(2)\nx").1 = r at outcome ⊢
  generalize (Machine.initial.run around.unlimited 9 "main" "print(2)\nx").1 = r' at outcome fails
  cases outcome with
  | values => cases fails
  | source | failure | unfinished => rfl

end TracedScript
