import TracedScript.Proofs.Run.Evaluation

/-!
# Where jumps end

A `return` ends in the function that it stands in, a `break` or `continue` in its loop. Main
statement: `jumps_stay_inside`. All of it is read off the contract that asks for nothing, by a
choice of what is around: no jump fits a frame that is no function, outside loops.
-/

namespace TracedScript

/-- If the stop is a jump, there is something around that it ends in. -/
def Stop.Fits (stack : CallStack) (inLoop : Bool) : Stop → Prop
  | .returned _ _ => stack.inFunction = true
  | .broke _ => inLoop = true
  | .continued _ => inLoop = true
  | .failed _ => True
  | .exhausted => True

namespace Eval

variable {α : Type}

/-- Every stop with which the run may end is such that `q`. -/
def Stops (q : Stop → Prop) (x : Eval α) : Prop := ∀ m s, (x m).1 = .error s → q s

/-- No jump leaves the run. -/
def Stays (x : Eval α) : Prop := x.Stops fun s => ¬ s.IsJump

/-- No jump fits a frame that is no function, outside loops. -/
theorem stays_of_fits {x : Eval α} {stack : CallStack} (hf : stack.inFunction = false)
    (h : x.Stops (Stop.Fits stack false)) : x.Stays := by
  intro m s hs hj
  have fits := h m s hs
  cases s with
  | returned v span =>
    rw [Stop.Fits, hf] at fits
    cases fits
  | broke span => cases fits
  | continued span => cases fits
  | failed e => exact hj
  | exhausted => exact hj

end Eval

namespace Contract

variable {α : Type} {stack : CallStack} {inLoop : Bool} {p : α → Prop} {x : Eval α}

theorem fits_of_stop {Γ : Contract} {s : Stop} (h : Γ.stop stack inLoop s) :
    s.Fits stack inLoop := by
  cases s with
  | returned v span => exact h.1
  | broke span => exact h
  | continued span => exact h
  | failed e => trivial
  | exhausted => trivial

theorem stops_of_free (hx : ∀ names, (free.terms names).Agree p (free.stop stack inLoop) x x) :
    x.Stops (Stop.Fits stack inLoop) := by
  intro m s hs
  have fair := free_fair (hx m.including)
  exact fits_of_stop (fair.stop s hs)

/-- A frame in which no jump fits. -/
def outside : CallStack := .root "<program>" Machine.preludeScope .program

theorem stays_of_free (hx : ∀ names, (free.terms names).Agree p (free.stop outside false) x x) :
    x.Stays := Eval.stays_of_fits rfl (stops_of_free hx)

end Contract

section Evaluations

variable (around : Surroundings) (n : Nat)

theorem stops_evaluate (node : Node) (stack : CallStack) (inLoop : Bool) :
    (evaluate around n node stack inLoop).Stops (Stop.Fits stack inLoop) :=
  Contract.stops_of_free fun _ => Contract.free_evaluate around n node stack inLoop

/-- The body of a function may `return`, but then its call has a result. -/
theorem stays_call (callee : Value) (args : Arguments) (stack : CallStack) :
    (Eval.call around (evaluate around n) callee args stack).Stays := by
  apply Contract.stays_of_free (p := Contract.free.value)
  intro names
  apply Contract.agree_call
  · intro name scope span _ _ c _
    exact Contract.free_evaluate around n c _ false
  · exact Contract.lenient_value callee
  · exact ⟨fun v _ => Contract.lenient_value v, fun a _ => Contract.lenient_value a.value⟩

theorem stays_moduleScope (name : String) (stack : CallStack) (span : Span) :
    (Eval.moduleScope around (evaluate around n) name stack span).Stays := by
  apply Contract.stays_of_free (p := Contract.free.scope)
  intro names
  apply Contract.agree_moduleScope
  · intro path text statements scope span _ _ _ c _
    exact Contract.free_evaluate around n c _ false
  · trivial

/-- Where nothing jumps, turning stray jumps into failures does nothing. -/
theorem adapt_escaped {α : Type} {x : Eval α} (h : x.Stays) :
    (ExceptT.adapt Stop.escaped x : Eval α) = x := by
  funext m
  have stays := h m
  rw [Eval.adapt_apply]
  rcases hx : x m with ⟨r, m'⟩
  cases r with
  | ok a => rfl
  | error s =>
    have hj := stays s (by rw [hx])
    cases s with
    | returned v span => exact absurd trivial hj
    | broke span => exact absurd trivial hj
    | continued span => exact absurd trivial hj
    | failed e => rfl
    | exhausted => rfl

theorem topLevel_eq_mapM (stack : CallStack) (h : stack.inFunction = false)
    (statements : List Node) :
    Eval.topLevel (evaluate around n) stack statements =
      statements.mapM fun node => evaluate around n node stack false := by
  unfold Eval.topLevel
  congr 1
  funext node
  apply adapt_escaped
  exact Eval.stays_of_fits h (stops_evaluate around n node stack false)

theorem stays_topLevel (stack : CallStack) (h : stack.inFunction = false)
    (statements : List Node) : (Eval.topLevel (evaluate around n) stack statements).Stays := by
  apply Contract.stays_of_free (p := fun _ => True)
  intro names
  have agree : (Contract.free.terms names).Agree _ (Contract.free.stop Contract.outside false)
      (Eval.topLevel (evaluate around n) stack statements)
      (Eval.topLevel (evaluate around n) stack statements) :=
    Contract.agree_topLevel h fun c _ => Contract.free_evaluate around n c _ false
  exact agree.weaken (fun _ _ => trivial) fun _ => id

end Evaluations

namespace Machine

/-- The error of a program whose top level has stopped otherwise than by a jump. -/
def plainError : Stop → ProgramError
  | .failed e => .failure e
  | _ => .unfinished

/-- Runs a program as `run` does, but with no provision for jumps that leave its statements. -/
def runPlainly (m : Machine) (around : Surroundings) (allowance : Nat) (name text : String) :
    Except ProgramError (List Value) × Machine :=
  match (Source.mk name (Text.normalize text)).program with
  | .error e => (.error (.source e), m)
  | .ok statements =>
    let frame := CallStack.root "<program>" m.store.next .program
    match (statements.mapM fun node => evaluate around allowance node frame false)
        { m with store := m.store.add (some preludeScope) } with
    | (.ok vs, m) => (.ok vs, m)
    | (.error stop, m) => (.error (plainError stop), m)

theorem ofStop_of_not_jump {s : Stop} (h : ¬ s.IsJump) : ProgramError.ofStop s = plainError s := by
  cases s with
  | returned v span => exact absurd trivial h
  | broke span => exact absurd trivial h
  | continued span => exact absurd trivial h
  | failed e => rfl
  | exhausted => rfl

theorem run_eq_runPlainly (m : Machine) (around : Surroundings) (n : Nat) (name text : String) :
    m.run around n name text = m.runPlainly around n name text := by
  unfold runPlainly
  cases hp : (Source.mk name (Text.normalize text)).program with
  | error e =>
    unfold run
    rw [hp]
  | ok statements =>
    have stays := stays_topLevel around n (.root "<program>" m.store.next .program) rfl statements
      { m with store := m.store.add (some preludeScope) }
    have body : Eval.program (evaluate around n) statements m =
        Eval.topLevel (evaluate around n) (.root "<program>" m.store.next .program) statements
          { m with store := m.store.add (some preludeScope) } := rfl
    rw [run_of_program m around n hp, attempt, body]
    dsimp only
    rw [← topLevel_eq_mapM around n (.root "<program>" m.store.next .program) rfl statements]
    rcases hr : Eval.topLevel (evaluate around n) (.root "<program>" m.store.next .program)
      statements { m with store := m.store.add (some preludeScope) } with ⟨r, m'⟩
    cases r with
    | ok vs => rfl
    | error s =>
      have hj := stays s (by rw [hr])
      dsimp only
      rw [ofStop_of_not_jump hj]

end Machine

/-- Jumps never leave what they belong to: a node only ends in a `return` inside a function and in
a `break` or `continue` inside a loop, no jump leaves a call or the script of an include, and at
the top level of a module or a program there are no stray jumps to turn into failures. -/
theorem jumps_stay_inside (around : Surroundings) (n : Nat) :
    (∀ node stack inLoop,
      (evaluate around n node stack inLoop).Stops (Stop.Fits stack inLoop)) ∧
    (∀ callee args stack, (Eval.call around (evaluate around n) callee args stack).Stays) ∧
    (∀ name stack span, (Eval.moduleScope around (evaluate around n) name stack span).Stays) ∧
    (∀ name scope span (stack : CallStack) statements,
      Eval.topLevel (evaluate around n) (stack.call name scope span .module) statements =
        statements.mapM fun node =>
          evaluate around n node (stack.call name scope span .module) false) ∧
    (∀ node scope,
      (evaluate around n node (.root "<program>" scope .program) false).Stays) ∧
    ∀ m name text, Machine.run m around n name text = m.runPlainly around n name text := by
  refine ⟨stops_evaluate around n, stays_call around n, stays_moduleScope around n, ?_, ?_, ?_⟩
  · intro name scope span stack statements
    exact topLevel_eq_mapM around n _ rfl statements
  · intro node scope
    exact Eval.stays_of_fits rfl (stops_evaluate around n node _ false)
  · intro m name text
    exact m.run_eq_runPlainly around n name text

end TracedScript
