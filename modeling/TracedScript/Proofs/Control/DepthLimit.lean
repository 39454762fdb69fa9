import TracedScript.Proofs.Control.CallChain
import TracedScript.Proofs.Control.Differences

/-!
# The limit of call depth

The limit does nothing but refuse calls. A run in which no call is refused is the same under every
larger limit, and a run in which a call is refused ends in the failure of that call, whatever
handlers there are: `depth_limit_only_limits`.

Under a smaller limit a construct does what it does under a larger one, or refuses a call itself:
`Visit.construct_same_or_refused`. What it evaluates is followed by visits, so two runs that differ
lead to a visit that refuses a call: `Visit.ending_same_or_refused`.
-/

namespace TracedScript

/-- The same, but only so many calls may be inside each other. -/
def Surroundings.withDepth (around : Surroundings) (depth : Nat) : Surroundings :=
  { around with settings := { around.settings with maxDepth := depth } }

/-- The visit comes to call a function of the program: the callee and the argument lists before have
given the function, and the arguments have been evaluated. -/
def Visit.Calls (around : Surroundings) (u : Visit) (f : Function) (args : Arguments) : Prop :=
  ∃ n callee before list after v m m', u.allowance = n + 1 ∧
    u.node.kind = .call callee (before ++ list :: after) ∧
    (evaluate around n callee u.stack u.inLoop >>= fun w =>
      Eval.callAll around (evaluate around n) callee.span u.stack u.inLoop w before) u.machine =
        (.ok v, m) ∧
    v.data = .func f ∧
    Eval.arguments (fun node => evaluate around n node u.stack u.inLoop) list callee.span m =
      (.ok args, m')

namespace Eval

/-! ## One construct under two limits -/

/-- Nothing is asked for, but the first of two runs may stop as a call is refused in the frame. -/
def refusal (depth : Nat) (stack : CallStack) : Terms where
  state _ := True
  stuck s _ := depth ≤ stack.top.depth ∧ ∃ span, s = .failed ((Fault.tooDeep depth).failAt span)

section Limits

variable {around : Surroundings} {low high : Nat} (hle : low ≤ high) {stack : CallStack}

/-- What does not look at the limit is the same under both. -/
theorem same_refusal {α : Type} (x : Eval α) :
    (refusal low stack).Agree (fun _ => True) (fun _ => True) x x :=
  .of_fair fun _ _ => ⟨trivial, fun _ _ => trivial, fun _ _ => trivial⟩

theorem callFunction_refused (evaluator : Evaluator) (f : Function) (name : String)
    (args : Arguments) (hdepth : around.settings.maxDepth ≤ stack.top.depth) (m : Machine) :
    callFunction around evaluator f name args stack m =
      (.error (.failed ((Fault.tooDeep around.settings.maxDepth).failAt args.span)), m) := by
  unfold callFunction
  exact congrFun (if_pos hdepth) m

include hle

theorem refusal_callFunction (evaluator : Evaluator) (f : Function) (name : String)
    (args : Arguments) : (refusal low stack).Agree (fun _ => True) (fun _ => True)
      (callFunction (around.withDepth low) evaluator f name args stack)
      (callFunction (around.withDepth high) evaluator f name args stack) := by
  intro m _
  by_cases hlow : low ≤ stack.top.depth
  · have refused : callFunction (around.withDepth low) evaluator f name args stack m =
        (.error (.failed ((Fault.tooDeep low).failAt args.span)), m) :=
      callFunction_refused evaluator f name args hlow m
    rw [Terms.AgreeFrom, refused]
    exact .inr ⟨_, rfl, hlow, args.span, rfl⟩
  · have hhigh : ¬ high ≤ stack.top.depth := fun h => hlow (Nat.le_trans hle h)
    have same : callFunction (around.withDepth low) evaluator f name args stack =
        callFunction (around.withDepth high) evaluator f name args stack := by
      unfold callFunction
      exact (if_neg hlow).trans (if_neg hhigh).symm
    rw [same]
    exact same_refusal _ m trivial

theorem refusal_call (evaluator : Evaluator) (callee : Value) (args : Arguments) :
    (refusal low stack).Agree (fun _ => True) (fun _ => True)
      (call (around.withDepth low) evaluator callee args stack)
      (call (around.withDepth high) evaluator callee args stack) := by
  unfold call
  split
  · exact same_refusal _
  · exact refusal_callFunction hle evaluator _ _ args
  · exact same_refusal _

theorem refusal_callAll (evaluator : Evaluator) (span : Span) (inLoop : Bool) (v : Value)
    (lists : List ArgumentList) : (refusal low stack).Agree (fun _ => True) (fun _ => True)
      (callAll (around.withDepth low) evaluator span stack inLoop v lists)
      (callAll (around.withDepth high) evaluator span stack inLoop v lists) := by
  induction lists generalizing v with
  | nil => exact same_refusal _
  | cons list lists ih =>
    exact (same_refusal _).bind fun args _ =>
      (refusal_call hle evaluator v args).bind fun result _ => ih result

end Limits

/-! ## Which failures are refusals -/

section Refusals

variable {around : Surroundings} {n limit : Nat} {span : Span}

theorem stops_completed_ne {α : Type} {e : Failure} (h : e.stack = none) (stack : CallStack)
    (span : Span) (x : Eval α) : (completed stack span x).Stops (· ≠ .failed e) := by
  rintro m s hs rfl
  rw [completed, adapt_apply] at hs
  rcases hr : x m with ⟨r, m'⟩
  rw [hr] at hs
  cases r with
  | ok v => cases hs
  | error s =>
    cases s with
    | failed e' =>
      have complete := e'.complete_complete stack span
      cases hs
      rw [Failure.Complete, h] at complete
      cases complete.2
    | returned | broke | continued | exhausted => cases hs

theorem stops_arguments_ne {e : Failure} (h : e.stack = none) (stack : CallStack) (inLoop : Bool)
    (list : ArgumentList) (callee : Span) :
    (arguments (fun node => evaluate around n node stack inLoop) list callee).Stops
      (· ≠ .failed e) := by
  have inner (c : Node) := stops_evaluate_ne around n h c stack inLoop
  unfold arguments
  refine (Stops.mapM inner).bind fun _ => .bind (.mapM fun a : NamedArgument => ?_) fun _ => .pure _
  exact (inner a.value).bind fun _ => .pure _

/-- Calling something else than a function of the program is not refused for its depth. -/
theorem stops_call_ne {evaluator : Evaluator} {callee : Value}
    (h : ∀ f, callee.data ≠ .func f) (args : Arguments) (stack : CallStack) :
    (call around evaluator callee args stack).Stops
      (· ≠ .failed ((Fault.tooDeep limit).failAt span)) := by
  unfold call
  split
  · unfold callBuiltin
    split
    · exact .fail (Fault.ne_tooDeep rfl)
    · split
      · exact .fail (Fault.ne_tooDeep rfl)
      · exact stops_completed_ne rfl _ _ _
  · rename_i f hd
    exact absurd hd (h f)
  · refine .fail (Fault.ne_tooDeep ?_)
    rw [Failure.isFatal, Value.blameHere, Failure.kind_withOrigin]
    rfl

theorem callAll_append (around : Surroundings) (evaluator : Evaluator) (span : Span)
    (stack : CallStack) (inLoop : Bool) (v : Value) (before lists : List ArgumentList) :
    callAll around evaluator span stack inLoop v (before ++ lists) =
      callAll around evaluator span stack inLoop v before >>= fun w =>
        callAll around evaluator span stack inLoop w lists := by
  induction before generalizing v with
  | nil => exact (pure_bind _ _).symm
  | cons list before ih =>
    rw [List.cons_append, callAll, callAll, bind_assoc]
    simp only [bind_assoc, ih]

/-- A chain of calls that fails with a refusal of its own has come to call a function of the
program. -/
theorem exists_of_callAll_refused {stack : CallStack} {inLoop : Bool} {callee : Span}
    {lists : List ArgumentList} {v : Value} {m m' : Machine}
    (h : callAll around (evaluate around n) callee stack inLoop v lists m =
      (.error (.failed ((Fault.tooDeep limit).failAt span)), m')) :
    ∃ before list after w f m₁ args m₂, lists = before ++ list :: after ∧
      callAll around (evaluate around n) callee stack inLoop v before m = (.ok w, m₁) ∧
      w.data = .func f ∧
      arguments (fun node => evaluate around n node stack inLoop) list callee m₁ =
        (.ok args, m₂) := by
  induction lists generalizing v m with
  | nil => cases h
  | cons list lists ih =>
    rw [callAll, bind_apply] at h
    rcases hargs : arguments (fun node => evaluate around n node stack inLoop) list callee m with
      ⟨r, m₁⟩
    rw [hargs] at h
    cases r with
    | error s =>
      cases h
      exact absurd rfl (stops_arguments_ne rfl stack inLoop list callee m _ (by rw [hargs]))
    | ok args =>
      rw [Ending.next, bind_apply] at h
      rcases hcall : call around (evaluate around n) v args stack m₁ with ⟨r, m₂⟩
      rw [hcall] at h
      by_cases hfunction : ∃ f, v.data = .func f
      · obtain ⟨f, hf⟩ := hfunction
        exact ⟨[], list, lists, v, f, m, args, m₁, rfl, rfl, hf, hargs⟩
      · cases r with
        | error s =>
          cases h
          have other := fun f hf => hfunction ⟨f, hf⟩
          exact absurd rfl (stops_call_ne other args stack m₁ _ (by rw [hcall]))
        | ok result =>
          obtain ⟨before, list', after, w, f, m₃, args', m₄, rfl, hbefore, rest⟩ := ih h
          refine ⟨list :: before, list', after, w, f, m₃, args', m₄, rfl, ?_, rest⟩
          rw [callAll, bind_apply, hargs, Ending.next, bind_apply, hcall]
          exact hbefore

end Refusals

end Eval

namespace Visit

variable {around : Surroundings} {low high n : Nat} {v : Visit}

/-- Where calls are refused, a visit that comes to call a function fails with the refusal. -/
theorem Calls.construct_refused {f : Function} {args : Arguments} (h : v.Calls around f args)
    (hn : v.allowance = n + 1) (hdepth : around.settings.maxDepth ≤ v.stack.top.depth) :
    (v.construct around n (evaluate around n)).1 =
      .error (.failed ((Fault.tooDeep around.settings.maxDepth).failAt args.span)) := by
  obtain ⟨n', callee, before, list, after, w, m, m', hn', hk, hbefore, hd, hargs⟩ := h
  obtain rfl : n = n' := Nat.succ.inj (hn.symm.trans hn')
  have steps : v.construct around n (evaluate around n) =
      (evaluate around n callee v.stack v.inLoop >>= fun u =>
        Eval.callAll around (evaluate around n) callee.span v.stack v.inLoop u
          (before ++ list :: after)) v.machine := by
    unfold construct Eval.construct
    rw [hk]
  simp only [Eval.callAll_append] at steps
  rw [steps, ← bind_assoc, Eval.bind_apply, hbefore, Ending.next, Eval.callAll, Eval.bind_apply,
    hargs, Ending.next, Eval.bind_apply, Eval.call, hd]
  dsimp only
  rw [Eval.callFunction_refused _ _ _ _ hdepth]
  rfl

/-- A visit that fails with a refusal of its own has come to call a function. -/
theorem exists_calls (hn : v.allowance = n + 1) {callee : Node} {lists : List ArgumentList}
    (hk : v.node.kind = .call callee lists) {limit : Nat} {span : Span}
    (h : (v.construct around n (evaluate around n)).1 =
      .error (.failed ((Fault.tooDeep limit).failAt span))) :
    ∃ f args, v.Calls around f args := by
  have steps : v.construct around n (evaluate around n) =
      (evaluate around n callee v.stack v.inLoop >>= fun u =>
        Eval.callAll around (evaluate around n) callee.span v.stack v.inLoop u lists)
          v.machine := by
    unfold construct Eval.construct
    rw [hk]
  rw [steps, Eval.bind_apply] at h
  rcases hcallee : evaluate around n callee v.stack v.inLoop v.machine with ⟨r, m⟩
  rw [hcallee] at h
  cases r with
  | error s =>
    cases h
    exact absurd rfl (stops_evaluate_ne around n rfl callee v.stack v.inLoop v.machine _
      (by rw [hcallee]))
  | ok w =>
    obtain ⟨before, list, after, u, f, m₁, args, m₂, rfl, hbefore, hd, hargs⟩ :=
      Eval.exists_of_callAll_refused (Prod.ext h rfl)
    refine ⟨f, args, n, callee, before, list, after, u, m₁, m₂, hn, hk, ?_, hd, hargs⟩
    rw [Eval.bind_apply, hcallee]
    exact hbefore

/-- Of all constructs only calls look at the limit. -/
theorem construct_same_or_refused (hle : low ≤ high) (v : Visit) (n : Nat) (eval : Evaluator) :
    v.construct (around.withDepth high) n eval = v.construct (around.withDepth low) n eval ∨
      (∃ callee lists, v.node.kind = .call callee lists) ∧ low ≤ v.stack.top.depth ∧
        ∃ span, (v.construct (around.withDepth low) n eval).1 =
          .error (.failed ((Fault.tooDeep low).failAt span)) := by
  obtain ⟨⟨kind, span⟩, stack, inLoop, m, allowance⟩ := v
  cases kind with
  | call callee lists =>
    have agree : (Eval.refusal low stack).Agree (fun _ => True) (fun _ => True)
        (Eval.construct (around.withDepth low) n eval ⟨.call callee lists, span⟩ stack inLoop)
        (Eval.construct (around.withDepth high) n eval ⟨.call callee lists, span⟩ stack inLoop) :=
      (Eval.same_refusal _).bind fun v _ =>
        Eval.refusal_callAll hle eval callee.span inLoop v lists
    obtain ⟨heq, -⟩ | ⟨s, hs, hdepth, span, rfl⟩ := agree m trivial
    · exact .inl heq.symm
    · exact .inr ⟨⟨callee, lists, rfl⟩, hdepth, span, hs⟩
  | _ => exact .inl rfl

/-- A visit that ends differently under a larger limit leads to one that refuses a call. The
induction is on the allowance: the difference arises in the construct itself or in a visit that it
makes. -/
theorem ending_same_or_refused (hle : low ≤ high) (hn : v.allowance = n) :
    v.ending (around.withDepth high) = v.ending (around.withDepth low) ∨
      ∃ path u f args, Leads (around.withDepth low) v path u ∧
        u.Calls (around.withDepth low) f args ∧ low ≤ u.stack.top.depth := by
  induction n generalizing v with
  | zero =>
    left
    rw [ending, ending, under, under, hn]
    rfl
  | succ n ih =>
    refine (Classical.em _).elim .inr fun hnone => .inl ?_
    have inner : v.construct (around.withDepth low) n (evaluate (around.withDepth high) n) =
        v.construct (around.withDepth low) n (evaluate (around.withDepth low) n) := by
      refine Classical.byContradiction fun hne => ?_
      obtain ⟨w, makes, hw⟩ := exists_makes hn hne
      obtain rfl : w.allowance = n := Nat.succ.inj (makes.1.symm.trans hn)
      obtain same | ⟨path, u, f, args, leads, refused⟩ := ih rfl
      · exact hw same
      · exact hnone ⟨v :: path, u, f, args, .inside makes leads, refused⟩
    have whole : v.construct (around.withDepth high) n (evaluate (around.withDepth high) n) =
        v.construct (around.withDepth low) n (evaluate (around.withDepth low) n) := by
      obtain same | ⟨⟨callee, lists, hk⟩, hdepth, span, refused⟩ :=
        construct_same_or_refused hle v n (evaluate (around.withDepth high) n)
      · exact same.trans inner
      · rw [inner] at refused
        obtain ⟨f, args, calls⟩ := exists_calls hn hk refused
        exact absurd ⟨[], v, f, args, .here v, calls, hdepth⟩ hnone
    rw [construct, construct] at whole
    rw [ending, ending, under, under, hn, evaluate, evaluate, Eval.completed, Eval.completed,
      Eval.adapt_apply, Eval.adapt_apply, whole]

theorem Calls.ending_refused {f : Function} {args : Arguments} (h : v.Calls around f args)
    (hdepth : around.settings.maxDepth ≤ v.stack.top.depth) :
    ∃ m₁, v.ending around = (.error (.failed (((Fault.tooDeep around.settings.maxDepth).failAt
      args.span).inFrame v.stack)), m₁) := by
  obtain ⟨n, hn⟩ : ∃ n, v.allowance = n + 1 := by
    obtain ⟨n, -, -, -, -, -, -, -, hn, -⟩ := h
    exact ⟨n, hn⟩
  have refused := h.construct_refused hn hdepth
  refine ⟨(v.construct around n (evaluate around n)).2, ?_⟩
  rw [construct] at refused
  rw [ending, under, hn, evaluate, Eval.completed, Eval.adapt_apply, refused]
  rfl

end Visit

/-! ## Whole runs -/

/-- A path goes on to what its last visit makes. -/
theorem Leads.snoc {around : Surroundings} {v u w : Visit} {path : List Visit}
    (h : Leads around v path u) (hw : u.Makes around w) : Leads around v (path ++ [u]) w := by
  induction h with
  | here v => exact .inside hw (.here w)
  | inside hm _ ih => exact .inside hm (ih hw)

namespace Machine.Visits

variable {m : Machine} {around : Surroundings} {n : Nat} {name text : String}

/-- What a program visits is one of its statements, or one of them leads to it. -/
theorem leads {u : Visit} (h : m.Visits around n name text u) :
    ∃ statements v path, (Source.mk name (Text.normalize text)).program = .ok statements ∧
      v.allowance = n ∧
      Needs (fun eval => Eval.program eval statements m) (evaluate around n) v ∧
      Leads around v path u := by
  induction h with
  | @statement statements v hp hn hv => exact ⟨statements, v, [], hp, hn, hv, .here v⟩
  | inside _ hm ih =>
    obtain ⟨statements, v, path, hp, hn, hv, leads⟩ := ih
    exact ⟨statements, v, _, hp, hn, hv, leads.snoc hm⟩

theorem of_leads {v u : Visit} {path : List Visit} (hv : m.Visits around n name text v)
    (h : Leads around v path u) : m.Visits around n name text u := by
  induction h with
  | here => exact hv
  | inside hm _ ih => exact ih (hv.inside hm)

/-- A fatal failure of a visit is how the program ends. -/
theorem run_of_fatal {u : Visit} {e : Failure} {m₁ : Machine}
    (h : m.Visits around n name text u) (hu : u.ending around = (.error (.failed e), m₁))
    (he : e.isFatal = true) : m.run around n name text =
      (.error (.failure e), { m₁ with including := m.including }) := by
  obtain ⟨statements, v, path, hp, rfl, hv, leads⟩ := h.leads
  have whole := run_of_failing hp hv (leads.passes_on hu (.inl he))
  exact whole

end Machine.Visits

/-- Let no visit of a run call a function where as many functions are running as the limit allows.
Then the run with any larger limit is the same: in what it ends with, in what it prints, and in the
state it leaves. If a visit calls a function there, then the call is refused, and this is how the
run ends: in a panic at the call, with the frame of the visit, whatever handlers there are. -/
theorem depth_limit_only_limits (m : Machine) (around : Surroundings) {low high : Nat}
    (hle : low ≤ high) (n : Nat) (name text : String) :
    ((∀ u f args, m.Visits (around.withDepth low) n name text u →
        u.Calls (around.withDepth low) f args → u.stack.top.depth < low) →
      m.run (around.withDepth high) n name text = m.run (around.withDepth low) n name text) ∧
    ∀ u f args, m.Visits (around.withDepth low) n name text u →
      u.Calls (around.withDepth low) f args → low ≤ u.stack.top.depth →
      (m.run (around.withDepth low) n name text).1 = .error
        (.failure ⟨.panic, (Fault.tooDeep low).message, some args.span, some u.stack, []⟩) := by
  constructor
  · intro hnone
    cases hp : (Source.mk name (Text.normalize text)).program with
    | error e => rw [Machine.run, Machine.run, hp]
    | ok statements =>
      have same : Eval.program (evaluate (around.withDepth high) n) statements m =
          Eval.program (evaluate (around.withDepth low) n) statements m := by
        refine Classical.byContradiction fun hne => ?_
        obtain ⟨w, rfl, hw, needs⟩ := exists_statement hne
        have visits : m.Visits (around.withDepth low) w.allowance name text w :=
          .statement hp rfl needs
        obtain heq | ⟨path, u, f, args, leads, calls, hdepth⟩ :=
          Visit.ending_same_or_refused hle rfl
        · exact hw heq
        · have allowed := hnone u f args (visits.of_leads leads) calls
          exact Nat.not_lt_of_le hdepth allowed
      rw [Machine.run_of_program m _ n hp, Machine.run_of_program m _ n hp, Machine.attempt,
        Machine.attempt, same]
  · intro u f args visits calls hdepth
    obtain ⟨m₁, ends⟩ := calls.ending_refused hdepth
    rw [visits.run_of_fatal ends rfl]
    rfl

/-- A program that makes one call needs a limit of one. Where no call may be made at all, this call
is refused; a larger limit than one makes no difference. -/
theorem one_call_within_limit :
    let around : Surroundings := ⟨.standard, .empty [], none⟩
    let text := "(func() \x7b\x7d)()"
    Machine.initial.run (around.withDepth 256) 9 "main" text =
        Machine.initial.run (around.withDepth 1) 9 "main" text ∧
      ∃ u f args, Machine.initial.Visits (around.withDepth 0) 9 "main" text u ∧
        u.Calls (around.withDepth 0) f args ∧
        (Machine.initial.run (around.withDepth 0) 9 "main" text).1 = .error
          (.failure ⟨.panic, (Fault.tooDeep 0).message, some args.span, some u.stack, []⟩) := by
  intro around text
  have runs : (Machine.initial.run (around.withDepth 1) 9 "main" text).1.isOk = true := by
    decide +kernel
  have fails : (Machine.initial.run (around.withDepth 0) 9 "main" text).1.isOk = false := by
    decide +kernel
  constructor
  · have limits := depth_limit_only_limits .initial around (show 1 ≤ 256 by decide) 9 "main" text
    refine limits.1 fun u f args visits calls => Nat.lt_of_not_le fun hdepth => ?_
    rw [limits.2 u f args visits calls hdepth] at runs
    cases runs
  · have limits := depth_limit_only_limits .initial around (show 0 ≤ 1 by decide) 9 "main" text
    refine Classical.byContradiction fun hnone => ?_
    have same := limits.1 fun u f args visits calls => Nat.lt_of_not_le fun hdepth =>
      hnone ⟨u, f, args, visits, calls, limits.2 u f args visits calls hdepth⟩
    rw [← same, runs] at fails
    cases fails

end TracedScript
