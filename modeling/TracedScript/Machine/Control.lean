import TracedScript.Machine.Names
import TracedScript.Value.Access
import TracedScript.Value.Operators

/-!
# Blocks, branches, loops and handlers

Blocks share the scope of the code around them. A loop ends the `break` and `continue` of its body,
a handler ends errors; everything else that stops a block goes on to what contains it.
-/

namespace TracedScript.Eval

/-- Runs statements in order. -/
def block (eval : Node → Eval Value) (body : List Node) : Eval Unit :=
  body.forM fun node => discard (eval node)

/-- Evaluates a condition, which must be a truth value. -/
def condition (eval : Node → Eval Value) (stack : CallStack) (test : Node) : Eval Bool := do
  let v ← eval test
  completed stack test.span (ofExcept v.truth)

/-- Runs the block of the first branch whose condition holds, else the other block, if any. -/
def branches (eval : Node → Eval Value) (stack : CallStack) (otherwise : Option (List Node)) :
    List Branch → Eval Unit
  | [] => block eval (otherwise.getD [])
  | b :: bs => do
    if ← condition eval stack b.condition then block eval b.body
    else branches eval stack otherwise bs

/-- Runs the body of a loop once and tells whether the loop goes on. -/
def pass (eval : Node → Eval Value) (body : List Node) : Eval Bool :=
  tryCatch (do block eval body; return true) fun
    | .continued _ => return true
    | .broke _ => return false
    | stop => throw stop

/-- Runs a pass for each element, until one ends the loop. -/
def passes (bind : Value → Eval Unit) (pass : Eval Bool) : List Value → Eval Unit
  | [] => return
  | v :: vs => do
    bind v
    if ← pass then passes bind pass vs

/-- Binds each element of a value in turn and runs the body for it. -/
def forEach (eval : Evaluator) (target : Target) (iterable : Node) (body : List Node)
    (stack : CallStack) : Eval Unit := do
  let v ← eval iterable stack false
  match v.elements? with
  | none => fail (v.blame (.notIterable v.kind) iterable.span)
  | some elements =>
    passes
      (fun element => do
        let _ ← bindTarget target (element.relocate iterable.span stack.display) stack iterable.span)
      (pass (fun node => eval node stack true) body) elements

/-- Runs passes as long as the condition holds, at most `n` of them. -/
def repeatWhile (test pass : Eval Bool) : Nat → Eval Unit
  | 0 => throw .exhausted
  | n + 1 => do
    if ← test then
      if ← pass then repeatWhile test pass n

/-- Runs a block and gives the error that it fails with, if that can be caught, else null. -/
def handled (eval : Node → Eval Value) (body : List Node) : Eval Value :=
  tryCatch (do block eval body; return .null) fun
    | .failed e =>
      if e.isFatal then throw (.failed e)
      else do return .ofData (.exception (← freshId) e)
    | stop => throw stop

end TracedScript.Eval
