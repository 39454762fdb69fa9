import TracedScript.Machine.Calls
import TracedScript.Machine.Literals
import TracedScript.Machine.Modules

/-!
# Evaluation

Closes the recursion: each construct is evaluated with an evaluator for the nodes inside it. The
allowance bounds how deep evaluations are inside each other, and how many passes a `while` makes;
whoever uses it up gets `Stop.exhausted`, which nothing catches.
-/

namespace TracedScript

namespace Eval

/-- Evaluates a construct. `eval` evaluates the nodes inside it and `n` is how many passes a `while`
may make. -/
def construct (around : Surroundings) (n : Nat) (eval : Evaluator) (node : Node)
    (stack : CallStack) (inLoop : Bool) : Eval Value :=
  let span := node.span
  let place (v : Value) : Value := v.place span stack.display
  let inside (node : Node) : Eval Value := eval node stack inLoop
  match node.kind with
  | .int n => return place (.int n)
  | .float x => return place (.float x)
  | .str s => return place (.str s)
  | .array items => return place (← array inside items)
  | .tuple items => return place (← tuple inside items)
  | .dict entries => return place (← dict inside entries)
  | .function literal => return place (← function inside literal stack.top.scope)
  | .read name => read name stack span
  | .assign name value => do assign name (← inside value) stack span
  | .declare name value => do declare name (← inside value) stack span
  | .declareNull name => declare name (place .null) stack span
  | .unary op operand => do
    let v ← inside operand
    return place (← ofExcept (v.applyUnary op))
  | .binary left op right => do
    let v ← inside left
    let w ← inside right
    return place (← ofExcept (v.applyBinary op w))
  | .member target name => do
    let v ← inside target
    let found ← ofExcept (v.member (← get).store name span)
    return found.relocate span stack.display
  | .index target index => do
    let v ← inside target
    let i ← inside index
    let found ← ofExcept (v.index i span)
    return found.relocate span stack.display
  | .call callee lists => do
    let v ← inside callee
    callAll around eval callee.span stack inLoop v lists
  | .return value =>
    if stack.inFunction then do
      let v ← match value with
        | some value => inside value
        | none => pure (place .null)
      throw (.returned v span)
    else fail (Fault.misplacedReturn.failAt span)
  | .break => if inLoop then throw (.broke span) else fail (Fault.misplacedBreak.failAt span)
  | .continue =>
    if inLoop then throw (.continued span) else fail (Fault.misplacedContinue.failAt span)
  | .if cases otherwise => do
    branches inside stack otherwise cases
    return place .null
  | .switch target subject cases otherwise => do
    let v ← inside subject
    let _ ← bindTarget target v stack subject.span
    branches inside stack otherwise cases
    return place .null
  | .for target iterable body => do
    forEach eval target iterable body stack
    return place .null
  | .while test body => do
    repeatWhile (condition (fun node => eval node stack false) stack test)
      (pass (fun node => eval node stack true) body) n
    return place .null
  | .handler body => return place (← handled inside body)
  | .include module => includeModule around eval module stack span inLoop

end Eval

/-- Evaluates a node; a failure that leaves it has a span and a frame. -/
def evaluate (around : Surroundings) : Nat → Evaluator
  | 0, _, _, _ => throw .exhausted
  | n + 1, node, stack, inLoop =>
    Eval.completed stack node.span
      (Eval.construct around n (evaluate around n) node stack inLoop)

end TracedScript
