import TracedScript.Proofs.Run.Evaluation

/-!
# Where failures end

A failure that leaves an evaluation is complete: nothing is attached to it any more. From there it
is passed on as it is, through all evaluations that contain this one, until a handler takes it up; a
fatal one is passed on by handlers, too. Main statement: `failures_end_at_handlers`.

Evaluations are followed by the visits that they make. A visit is made where its ending matters:
had it ended otherwise, what makes it could have ended otherwise. So there is no need to list the
places in which a construct evaluates something, and `agree_construct` tells for all of them what
becomes of a visit that fails. By `Visit.makes_iff` these are the visits in which stopping dead
leaves nothing to be done outside them.
-/

namespace TracedScript

/-- An evaluation: of which node, where, and with what allowance. -/
structure Visit where
  node : Node
  stack : CallStack
  inLoop : Bool
  machine : Machine
  allowance : Nat

namespace Visit

/-- How the visit ends under an evaluator. -/
def under (v : Visit) (eval : Evaluator) : Ending Value := eval v.node v.stack v.inLoop v.machine

def ending (around : Surroundings) (v : Visit) : Ending Value :=
  v.under (evaluate around v.allowance)

/-- The construct that the visit evaluates, with an evaluator for what it evaluates itself. -/
def construct (around : Surroundings) (n : Nat) (v : Visit) (eval : Evaluator) : Ending Value :=
  Eval.construct around n eval v.node v.stack v.inLoop v.machine

end Visit

/-- Two evaluators that end all visits alike, but for one. -/
def AlikeBut (w : Visit) (eval eval' : Evaluator) : Prop :=
  ∀ node stack inLoop m, (⟨node, stack, inLoop, m, w.allowance⟩ : Visit) ≠ w →
    eval node stack inLoop m = eval' node stack inLoop m

/-- The run makes the visit `w`: under some evaluator that ends only this visit otherwise, the run
ends otherwise. -/
def Needs {α : Type} (run : Evaluator → Ending α) (eval : Evaluator) (w : Visit) : Prop :=
  ∃ other : Evaluator, AlikeBut w other eval ∧ run other ≠ run eval

/-- The first visit makes the second one itself, with what is left of its allowance. -/
def Visit.Makes (around : Surroundings) (v w : Visit) : Prop :=
  v.allowance = w.allowance + 1 ∧
    Needs (v.construct around w.allowance) (evaluate around w.allowance) w

/-- `Leads around v path u`: the visit `v` makes the visit `u` by way of others; the path lists
those that `u` is inside of, from `v` inwards. -/
inductive Leads (around : Surroundings) : Visit → List Visit → Visit → Prop where
  | here (v : Visit) : Leads around v [] v
  | inside {v w u : Visit} {path : List Visit} :
    v.Makes around w → Leads around w path u → Leads around v (v :: path) u

/-- Where a path goes through a visit, the rest of the path leads on from there. -/
theorem Leads.from {around : Surroundings} {v h u : Visit} {outer inner : List Visit}
    (hl : Leads around v (outer ++ h :: inner) u) : Leads around h (h :: inner) u := by
  induction outer generalizing v with
  | nil =>
    cases hl with
    | inside hm hl => exact .inside hm hl
  | cons o outer ih =>
    cases hl with
    | inside hm hl => exact ih hl

/-! ## Complete failures -/

namespace Failure

/-- Both the span and the frame are known. -/
def Complete (e : Failure) : Prop := e.span.isSome = true ∧ e.stack.isSome = true

theorem complete_of_complete {e : Failure} (h : e.Complete) (stack : CallStack) (span : Span) :
    e.complete stack span = e := by
  obtain ⟨kind, message, at?, frame?, origin⟩ := e
  obtain ⟨hs, hf⟩ := h
  obtain ⟨s, rfl⟩ := Option.isSome_iff_exists.mp hs
  obtain ⟨f, rfl⟩ := Option.isSome_iff_exists.mp hf
  rfl

theorem complete_complete (e : Failure) (stack : CallStack) (span : Span) :
    (e.complete stack span).Complete := by
  unfold Complete complete orSpan inFrame
  constructor
  · cases e.span <;> rfl
  · cases e.stack <;> rfl

end Failure

/-- What leaves an evaluation as a failure is complete. -/
theorem complete_of_evaluate {around : Surroundings} {n : Nat} {node : Node} {stack : CallStack}
    {inLoop : Bool} {m m' : Machine} {e : Failure}
    (h : evaluate around n node stack inLoop m = (.error (.failed e), m')) : e.Complete := by
  cases n with
  | zero => cases h
  | succ n =>
    rw [evaluate, Eval.completed, Eval.adapt_apply] at h
    rcases hr : Eval.construct around n (evaluate around n) node stack inLoop m with ⟨r, m''⟩
    rw [hr] at h
    cases r with
    | ok v => cases h
    | error s =>
      cases s with
      | failed e' =>
        cases h
        exact e'.complete_complete stack node.span
      | returned v span => cases h
      | broke span => cases h
      | continued span => cases h
      | exhausted => cases h

/-! ## One visit inside another -/

/-- Nothing on the way out ends or changes the stop. -/
structure Stop.Final (s : Stop) : Prop where
  no_jump : ¬ s.IsJump
  complete : ∀ stack span, s.complete stack span = s

theorem Stop.final_failed {e : Failure} (h : e.Complete) : (Stop.failed e).Final :=
  ⟨id, fun stack span => congrArg Stop.failed (Failure.complete_of_complete h stack span)⟩

theorem Stop.final_exhausted : Stop.exhausted.Final := ⟨id, fun _ _ => rfl⟩

/-- By coming to the given stop in the given state, but for the list of modules that are being
included, which is put back on the way out. -/
def Parting.stoppedAt {s₁ : Stop} (h : s₁.Final) (m₁ : Machine) : Parting where
  stuck s m := s = s₁ ∧ ∃ names, m = { m₁ with including := names }
  stuck_no_jump hs := by
    obtain ⟨rfl, -⟩ := hs
    exact h.no_jump
  stuck_complete stack span hs := by
    obtain ⟨rfl, hm⟩ := hs
    exact ⟨h.complete stack span, hm⟩
  stuck_including names hs := by
    obtain ⟨rfl, -, rfl⟩ := hs
    exact ⟨rfl, names, rfl⟩

namespace Contract

variable {around : Surroundings} {s₁ : Stop} {m₁ : Machine}

/-- Two runs that part where the first comes to the given stop. -/
def stopping (h : s₁.Final) (m₁ : Machine) : Contract := lenient (.stoppedAt h m₁)

/-- An evaluator that stops in one visit agrees with all that differ there only. -/
theorem stopping_agree (h : s₁.Final) {w : Visit} {eval other : Evaluator}
    (he : AlikeBut w eval (evaluate around w.allowance)) (ho : AlikeBut w other eval)
    (hw : w.under eval = (.error s₁, m₁)) (names : List String) (node : Node) (stack : CallStack)
    (inLoop : Bool) :
    ((stopping h m₁).terms names).Agree (stopping h m₁).value ((stopping h m₁).stop stack inLoop)
      (eval node stack inLoop) (other node stack inLoop) := by
  intro m hm
  by_cases hv : (⟨node, stack, inLoop, m, w.allowance⟩ : Visit) = w
  · have ends : eval node stack inLoop m = (.error s₁, m₁) := by
      rw [← hw, ← hv]
      rfl
    refine .inr ⟨s₁, ?_, rfl, m₁.including, ?_⟩
    · rw [ends]
    · rw [ends]
  · obtain ⟨-, fair⟩ | ⟨s, -, hs⟩ := free_evaluate around w.allowance node stack inLoop m
      (lenient_state m)
    · unfold Terms.AgreeFrom
      rw [ho node stack inLoop m hv, he node stack inLoop m hv]
      exact .inl ⟨rfl, ⟨(lenient_state _).1, fair.state.2.trans hm.2⟩, fair.value, fair.stop⟩
    · exact hs.elim

end Contract

/-- Where an evaluator stops in a visit, a construct stops with it or ends as it does under any
other evaluator that differs there only. -/
theorem Visit.stops_or_same {around : Surroundings} {s₁ : Stop} {m₁ : Machine} (h : s₁.Final)
    {v w : Visit} {eval other : Evaluator} (he : AlikeBut w eval (evaluate around w.allowance))
    (ho : AlikeBut w other eval) (hw : w.under eval = (.error s₁, m₁))
    (hh : v.node.kind.IsHandler → ∀ e, s₁ = .failed e → e.isFatal = true) :
    v.construct around w.allowance other = v.construct around w.allowance eval ∨
      ∃ names, v.construct around w.allowance eval =
        (.error s₁, { m₁ with including := names }) := by
  have agree := Contract.stopping_agree h he ho hw
  have whole : ((Contract.stopping h m₁).terms v.machine.including).Agree
      (Contract.stopping h m₁).value ((Contract.stopping h m₁).stop v.stack v.inLoop)
      (Eval.construct around w.allowance eval v.node v.stack v.inLoop)
      (Eval.construct around w.allowance other v.node v.stack v.inLoop) := by
    apply Contract.agree_construct
    · trivial
    · trivial
    · exact fun b c _ => agree _ c v.stack b
    · exact fun name scope span _ _ c _ => agree _ c _ false
    · refine fun _ => ⟨trivial, fun name _ _ path text statements scope span _ _ _ c _ => ?_⟩
      exact agree _ c _ false
    · intro hhandler e m hstuck
      exact hh hhandler e hstuck.1.symm
    · exact fun _ => ⟨trivial, Nat.le_refl _, .inl rfl⟩
  obtain ⟨heq, -⟩ | ⟨s, hs, rfl, names, hm⟩ := whole v.machine (Contract.lenient_state _)
  · exact .inl heq.symm
  · exact .inr ⟨names, Prod.ext hs hm⟩

open Classical in
/-- The evaluator that stops dead in one visit, leaving the given state, and else does the same. -/
noncomputable def Visit.halting (w : Visit) (m₁ : Machine) (eval : Evaluator) : Evaluator :=
  fun node stack inLoop m =>
    if (⟨node, stack, inLoop, m, w.allowance⟩ : Visit) = w then (.error .exhausted, m₁)
    else eval node stack inLoop m

/-- Under the evaluator that stops dead in a visit a run ends there, if the run makes the visit. -/
theorem Needs.halts {α : Type} {run : Evaluator → Ending α} {eval : Evaluator} {w : Visit}
    {m₁ : Machine} (h : Needs run eval w)
    (hrun : ∀ other, AlikeBut w other (w.halting m₁ eval) →
      run other = run (w.halting m₁ eval) ∨
        ∃ names, run (w.halting m₁ eval) = (.error .exhausted, { m₁ with including := names })) :
    ∃ names, run (w.halting m₁ eval) = (.error .exhausted, { m₁ with including := names }) := by
  obtain ⟨other, ho, hne⟩ := h
  have alike : AlikeBut w (w.halting m₁ eval) eval := fun _ _ _ _ hv => if_neg hv
  have back : AlikeBut w eval (w.halting m₁ eval) := by
    intro node stack inLoop m hv
    exact (alike node stack inLoop m hv).symm
  have same : AlikeBut w other (w.halting m₁ eval) := by
    intro node stack inLoop m hv
    rw [ho node stack inLoop m hv, back node stack inLoop m hv]
  obtain hother | hstop := hrun other same
  · obtain heval | hstop := hrun eval back
    · exact absurd (hother.trans heval.symm) hne
    · exact hstop
  · exact hstop

/-- A visit in which a run can be stopped, with whatever state, is one that the run makes. -/
theorem Needs.of_halts {α : Type} {run : Evaluator → Ending α} {eval : Evaluator} {w : Visit}
    (h : ∀ m₁, ∃ names, run (w.halting m₁ eval) =
      (.error .exhausted, { m₁ with including := names })) : Needs run eval w := by
  -- A state that the run does not end in shows the difference.
  let mark := { (run eval).2 with nextId := (run eval).2.nextId + 1 }
  obtain ⟨names, hstop⟩ := h mark
  refine ⟨w.halting mark eval, fun _ _ _ _ hv => if_neg hv, fun heq => ?_⟩
  have later := congrArg (fun r => r.2.nextId) (hstop.symm.trans heq)
  exact Nat.succ_ne_self (run eval).2.nextId later

/-- A visit is made if and only if stopping dead in it stops what makes it, in whatever state. -/
theorem Visit.makes_iff (around : Surroundings) (v w : Visit) :
    v.Makes around w ↔ v.allowance = w.allowance + 1 ∧
      ∀ m₁, ∃ names, v.construct around w.allowance
        (w.halting m₁ (evaluate around w.allowance)) =
          (.error .exhausted, { m₁ with including := names }) := by
  refine and_congr_right fun _ => ⟨fun h m₁ => h.halts fun other ho => ?_, Needs.of_halts⟩
  have alike : AlikeBut w (w.halting m₁ (evaluate around w.allowance))
      (evaluate around w.allowance) := fun _ _ _ _ hv => if_neg hv
  refine stops_or_same Stop.final_exhausted alike ho (if_pos rfl) ?_
  intro _ e hs
  cases hs

namespace Visit

variable {around : Surroundings} {v w : Visit} {e : Failure} {m₁ : Machine}

/-- However a visit ends, the modules that are being included are the same as before it. -/
theorem including_of_ending {m : Machine} {r : Except Stop Value}
    (h : v.ending around = (r, m)) : m.including = v.machine.including := by
  have fair := Contract.free_fair (m := v.machine)
    (Contract.free_evaluate around v.allowance v.node v.stack v.inLoop)
  have same := fair.state.2
  rw [ending, under] at h
  rwa [h] at same

/-- Nothing is attached to a complete failure that leaves the construct of a visit. -/
theorem ending_of_construct {n : Nat} {names : List String} (hn : v.allowance = n + 1)
    (he : e.Complete) (h : v.construct around n (evaluate around n) =
      (.error (.failed e), { m₁ with including := names })) :
    v.ending around = (.error (.failed e), { m₁ with including := v.machine.including }) := by
  have ends : v.ending around = (.error (.failed e), { m₁ with including := names }) := by
    have kept := (Stop.final_failed he).complete v.stack v.node.span
    rw [construct] at h
    rw [ending, under, hn, evaluate, Eval.completed, Eval.adapt_apply, h]
    exact Prod.ext (congrArg Except.error kept) rfl
  have same : names = v.machine.including := including_of_ending ends
  rw [ends, same]

/-- A failure is passed on by everything but handlers, and by these if it is fatal. -/
theorem Makes.passes_on (hv : v.Makes around w) (hw : w.ending around = (.error (.failed e), m₁))
    (h : e.isFatal = true ∨ ¬ v.node.kind.IsHandler) :
    v.ending around = (.error (.failed e), { m₁ with including := v.machine.including }) := by
  obtain ⟨hn, other, ho, hne⟩ := hv
  have he := complete_of_evaluate hw
  have fatal : v.node.kind.IsHandler → ∀ e', Stop.failed e = .failed e' → e'.isFatal = true := by
    intro hhandler e' hs
    cases hs
    exact h.resolve_right fun hno => hno hhandler
  have final := Stop.final_failed he
  obtain heq | ⟨names, hs⟩ := stops_or_same final (fun _ _ _ _ _ => rfl) ho hw fatal
  · exact absurd heq hne
  · exact ending_of_construct hn he hs

theorem exists_of_isHandler {kind : NodeKind} (h : kind.IsHandler) :
    ∃ body, kind = .handler body := by
  cases kind with
  | handler body => exact ⟨body, rfl⟩
  | _ => exact h.elim

/-- What a handler makes of the way its block ends. -/
def afterBlock (node : Node) (stack : CallStack) : Ending Unit → Ending Value
  | (.ok _, m) => (.ok (Value.null.place node.span stack.display), m)
  | (.error (.failed e), m) =>
    if e.isFatal then (.error (.failed e), m)
    else (.ok ((Value.ofData (.exception m.nextId e)).place node.span stack.display),
      { m with nextId := m.nextId + 1 })
  | (.error s, m) => (.error s, m)

theorem construct_handler (around : Surroundings) (n : Nat) (eval : Evaluator) {node : Node}
    {body : List Node} (hk : node.kind = .handler body) (stack : CallStack) (inLoop : Bool)
    (m : Machine) :
    Eval.construct around n eval node stack inLoop m =
      afterBlock node stack (Eval.block (fun c => eval c stack inLoop) body m) := by
  unfold Eval.construct
  rw [hk]
  dsimp only
  rw [Eval.bind_apply, Eval.handled, Eval.tryCatch_apply, Eval.bind_apply]
  rcases Eval.block (fun c => eval c stack inLoop) body m with ⟨r, m'⟩
  cases r with
  | ok a => rfl
  | error s =>
    cases s with
    | failed e =>
      unfold afterBlock Ending.next Ending.rescue
      cases he : e.isFatal <;> simp only [he] <;> rfl
    | returned v span => rfl
    | broke span => rfl
    | continued span => rfl
    | exhausted => rfl

/-- A block stops with its first node. -/
theorem block_of_first {f : Node → Eval Value} {c : Node} {m m' : Machine} {s : Stop}
    (h : f c m = (.error s, m')) (rest : List Node) :
    Eval.block f (c :: rest) m = (.error s, m') := by
  have steps : Eval.block f (c :: rest) =
      ((f c >>= fun _ => pure PUnit.unit) >>= fun _ => Eval.block f rest) := rfl
  rw [steps, Eval.bind_apply, Eval.bind_apply, h]
  rfl

/-- A handler visits the first node of its block. -/
theorem makes_first (around : Surroundings) (n : Nat) {node c : Node} {rest : List Node}
    (hk : node.kind = .handler (c :: rest)) (stack : CallStack) (inLoop : Bool) (m : Machine) :
    Makes around ⟨node, stack, inLoop, m, n + 1⟩ ⟨c, stack, inLoop, m, n⟩ := by
  rw [makes_iff]
  refine ⟨rfl, fun m₁ => ⟨m₁.including, ?_⟩⟩
  have halts : (⟨c, stack, inLoop, m, n⟩ : Visit).halting m₁ (evaluate around n) c stack inLoop m =
      (.error .exhausted, m₁) := if_pos rfl
  have block := block_of_first (f := fun d => (⟨c, stack, inLoop, m, n⟩ : Visit).halting m₁
    (evaluate around n) d stack inLoop) halts rest
  rw [construct, construct_handler _ _ _ hk, block]
  rfl

/-- The value that a handler makes of a failure that it catches in the given state. -/
def caught (v : Visit) (e : Failure) (m : Machine) : Value :=
  (Value.ofData (.exception m.nextId e)).place v.node.span v.stack.display

/-- A handler that visits a node in its block takes up a failure of it that is not fatal. -/
theorem Makes.takes_up (hv : v.Makes around w) (hw : w.ending around = (.error (.failed e), m₁))
    (he : e.isFatal = false) (h : v.node.kind.IsHandler) :
    v.ending around = (.ok (v.caught e m₁),
      { m₁ with including := v.machine.including, nextId := m₁.nextId + 1 }) := by
  obtain ⟨hn, other, ho, hne⟩ := hv
  obtain ⟨body, hk⟩ := exists_of_isHandler h
  have final := Stop.final_failed (complete_of_evaluate hw)
  have agree := Contract.stopping_agree final (fun _ _ _ _ _ => rfl) ho hw
  have block : ((Contract.stopping final m₁).terms v.machine.including).Agree (fun _ => True)
      ((Contract.stopping final m₁).stop v.stack v.inLoop)
      (Eval.block (fun c => evaluate around w.allowance c v.stack v.inLoop) body)
      (Eval.block (fun c => other c v.stack v.inLoop) body) :=
    Contract.agree_block fun c _ => agree _ c v.stack v.inLoop
  obtain ⟨heq, -⟩ | ⟨s, hs, rfl, names, hm⟩ := block v.machine (Contract.lenient_state v.machine)
  · refine absurd ?_ hne
    rw [construct, construct, construct_handler _ _ _ hk, construct_handler _ _ _ hk, heq]
  · have ends : v.ending around = (.ok (v.caught e m₁),
        { m₁ with including := names, nextId := m₁.nextId + 1 }) := by
      have hblock : Eval.block (fun c => evaluate around w.allowance c v.stack v.inLoop) body
          v.machine = (.error (.failed e), { m₁ with including := names }) := Prod.ext hs hm
      rw [ending, under, hn, evaluate, Eval.completed, Eval.adapt_apply,
        construct_handler _ _ _ hk, hblock, afterBlock, he]
      rfl
    have same : names = v.machine.including := including_of_ending ends
    rw [ends, same]

end Visit

/-! ## Along a path -/

section Paths

variable {around : Surroundings} {v u : Visit} {path : List Visit} {e : Failure} {m₁ : Machine}

/-- A failure is passed on all the way out, if it is fatal or there is no handler on the way. -/
theorem Leads.passes_on (hl : Leads around v path u)
    (hu : u.ending around = (.error (.failed e), m₁))
    (h : e.isFatal = true ∨ ∀ i ∈ path, ¬ i.node.kind.IsHandler) :
    v.ending around = (.error (.failed e), { m₁ with including := v.machine.including }) := by
  induction hl with
  | here u =>
    have same : m₁.including = u.machine.including := Visit.including_of_ending hu
    rw [hu, ← same]
  | inside hm hl ih =>
    rw [List.forall_mem_cons] at h
    have inner := ih hu (h.imp_right And.right)
    have whole := hm.passes_on inner (h.imp_right And.left)
    exact whole

/-- The innermost handler on the way takes up a failure that is not fatal. -/
theorem Leads.takes_up {outer inner : List Visit} {h : Visit}
    (hl : Leads around v (outer ++ h :: inner) u)
    (hu : u.ending around = (.error (.failed e), m₁)) (he : e.isFatal = false)
    (hh : h.node.kind.IsHandler) (hi : ∀ i ∈ inner, ¬ i.node.kind.IsHandler) :
    h.ending around = (.ok (h.caught e m₁),
      { m₁ with including := h.machine.including, nextId := m₁.nextId + 1 }) := by
  cases hl.from with
  | inside hm hl =>
    have block := hl.passes_on hu (.inr hi)
    have whole := hm.takes_up block he hh
    exact whole

/-- A program passes on the failure of one of its statements. -/
theorem run_of_failing {name text : String} {statements : List Node} {m : Machine}
    (hp : (Source.mk name (Text.normalize text)).program = .ok statements)
    (hv : Needs (fun eval => Eval.program eval statements m) (evaluate around v.allowance) v)
    (hf : v.ending around = (.error (.failed e), m₁)) :
    m.run around v.allowance name text =
      (.error (.failure e), { m₁ with including := m.including }) := by
  obtain ⟨other, ho, hne⟩ := hv
  have final := Stop.final_failed (complete_of_evaluate hf)
  have agree := Contract.stopping_agree final (fun _ _ _ _ _ => rfl) ho hf
  have whole : ((Contract.stopping final m₁).terms m.including).Agree _ _
      (Eval.program (evaluate around v.allowance) statements) (Eval.program other statements) :=
    Contract.agree_program trivial (fun _ _ c _ => agree _ c _ false) v.stack v.inLoop
  have fair := Contract.free_fair (m := m)
    (Contract.free_program around v.allowance statements v.stack v.inLoop)
  obtain ⟨heq, -⟩ | ⟨s, hs, rfl, names, hm⟩ := whole m (Contract.lenient_state m)
  · exact absurd heq.symm hne
  · have ends : Eval.program (evaluate around v.allowance) statements m =
        (.error (.failed e), { m₁ with including := names }) := Prod.ext hs hm
    have same : names = m.including := by
      have kept := fair.state.2
      rwa [ends] at kept
    rw [Machine.run_of_program m around v.allowance hp, Machine.attempt, ends, same]
    rfl

end Paths

/-- Let a visit `u` that is made by way of `v` fail. If the failure is fatal, or there is no handler
on the way, `v` and any program that makes the visit `v` fail with it, just as it is, and nothing is
done any more after it: the state is the one in which it left `u`, with the list of modules that are
being included put back. Else the innermost handler on the way goes on with a value that holds it,
and has done nothing but make that value. -/
theorem failures_end_at_handlers (around : Surroundings) {v u : Visit} {path : List Visit}
    {e : Failure} {m₁ : Machine} (hl : Leads around v path u)
    (hu : u.ending around = (.error (.failed e), m₁)) :
    ((e.isFatal = true ∨ ∀ i ∈ path, ¬ i.node.kind.IsHandler) →
      v.ending around = (.error (.failed e), { m₁ with including := v.machine.including }) ∧
      ∀ (m : Machine) (name text : String) (statements : List Node),
        (Source.mk name (Text.normalize text)).program = .ok statements →
        Needs (fun eval => Eval.program eval statements m) (evaluate around v.allowance) v →
        m.run around v.allowance name text =
          (.error (.failure e), { m₁ with including := m.including })) ∧
    (e.isFatal = false → ∀ outer h inner, path = outer ++ h :: inner → h.node.kind.IsHandler →
      (∀ i ∈ inner, ¬ i.node.kind.IsHandler) →
      h.ending around = (.ok (h.caught e m₁),
        { m₁ with including := h.machine.including, nextId := m₁.nextId + 1 })) := by
  constructor
  · intro h
    have passed := hl.passes_on hu h
    refine ⟨passed, fun m name text statements hp hv => ?_⟩
    have whole := run_of_failing hp hv passed
    exact whole
  · rintro he outer h inner rfl hh hi
    exact hl.takes_up hu he hh hi

/-- The ending is a fatal failure. -/
def isFatal : Ending Value → Bool
  | (.error (.failed e), _) => e.isFatal
  | _ => false

/-- A handler around `panic` does not stop it. -/
theorem panic_leaves_handler :
    let around : Surroundings := ⟨.standard, .empty [], none⟩
    let panic : Node := ⟨.call ⟨.read "panic", default⟩ [⟨[⟨.str "stop", default⟩], [], default⟩],
      default⟩
    let u : Visit := ⟨panic, .root "<program>" 0 .program, false, .initial, 3⟩
    let v : Visit := ⟨⟨.handler [panic], default⟩, .root "<program>" 0 .program, false, .initial, 4⟩
    ∃ e m₁, u.ending around = (.error (.failed e), m₁) ∧ Leads around v [v] u ∧
      v.ending around = (.error (.failed e), { m₁ with including := [] }) := by
  intro around panic u v
  have fails : isFatal (u.ending around) = true := by decide +kernel
  have leads : Leads around v [v] u :=
    .inside (Visit.makes_first around 3 rfl _ false .initial) (.here u)
  rcases hu : u.ending around with ⟨r, m₁⟩
  rw [hu] at fails
  cases r with
  | ok value => cases fails
  | error s =>
    cases s with
    | failed e =>
      have ends := ((failures_end_at_handlers around leads hu).1 (.inl fails)).1
      exact ⟨e, m₁, rfl, leads, ends⟩
    | returned value span => cases fails
    | broke span => cases fails
    | continued span => cases fails
    | exhausted => cases fails

end TracedScript
