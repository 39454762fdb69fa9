import TracedScript.Proofs.Run.Evaluation

/-!
# What has been printed stays printed

Whatever a run does and however it ends, the lines that had been printed before are still there,
in front of those that it has printed itself. Main statements: `evaluate_keepsOutput` and
`Machine.printed_run`.

`KeepsOutput` is a class, so that a run that is put together from others is seen to have it without
a proof of its own, wherever no `match` stands in between.
-/

namespace TracedScript

/-- The run prints, if at all, behind what has been printed before. -/
class Eval.KeepsOutput {α : Type} (x : Eval α) : Prop where
  prefix_of : ∀ m, m.printed.toList <+: (x m).2.printed.toList

namespace Ending

variable {α β : Type}

theorem printed_next (r : Ending α) (f : α → Eval β) [hf : ∀ a, Eval.KeepsOutput (f a)] :
    r.2.printed.toList <+: (r.next f).2.printed.toList := by
  obtain ⟨a | s, m⟩ := r
  · exact List.prefix_rfl
  · exact (hf _).prefix_of m

theorem printed_rescue (r : Ending α) (h : Stop → Eval α) [hh : ∀ s, Eval.KeepsOutput (h s)] :
    r.2.printed.toList <+: (r.rescue h).2.printed.toList := by
  obtain ⟨a | s, m⟩ := r
  · exact (hh _).prefix_of m
  · exact List.prefix_rfl

end Ending

namespace Eval.KeepsOutput

variable {α β : Type}

/-- What prints nothing keeps the output. -/
theorem of_silent {x : Eval α} (h : ∀ m, (x m).2.printed = m.printed) : KeepsOutput x := by
  constructor
  intro m
  exact (h m).symm ▸ List.prefix_rfl

/-! ## Ways to put runs together -/

instance (a : α) : KeepsOutput (pure a : Eval α) := of_silent fun _ => rfl

instance (s : Stop) : KeepsOutput (throw s : Eval α) := of_silent fun _ => rfl

instance (e : Failure) : KeepsOutput (fail e : Eval α) := of_silent fun _ => rfl

instance (o : Except Failure α) : KeepsOutput (ofExcept o) := of_silent fun _ => by cases o <;> rfl

instance : KeepsOutput (get : Eval Machine) := of_silent fun _ => rfl

instance bind (x : Eval α) (f : α → Eval β) [hx : KeepsOutput x] [hf : ∀ a, KeepsOutput (f a)] :
    KeepsOutput (x >>= f) := by
  constructor
  intro m
  rw [bind_apply]
  exact (hx.prefix_of m).trans (Ending.printed_next (x m) f)

instance tryCatch (x : Eval α) (h : Stop → Eval α) [hx : KeepsOutput x]
    [hh : ∀ s, KeepsOutput (h s)] : KeepsOutput (tryCatch x h) := by
  constructor
  intro m
  rw [tryCatch_apply]
  exact (hx.prefix_of m).trans (Ending.printed_rescue (x m) h)

instance (f : Stop → Stop) (x : Eval α) [hx : KeepsOutput x] :
    KeepsOutput (ExceptT.adapt f x : Eval α) := ⟨hx.prefix_of⟩

instance (stack : CallStack) (span : Span) (x : Eval α) [hx : KeepsOutput x] :
    KeepsOutput (completed stack span x) := ⟨hx.prefix_of⟩

instance (x : Eval α) [KeepsOutput x] : KeepsOutput (discard x : Eval PUnit) :=
  bind x fun _ => pure PUnit.unit

instance (c : Prop) [Decidable c] (x y : Eval α) [KeepsOutput x] [KeepsOutput y] :
    KeepsOutput (if c then x else y) := by
  split <;> infer_instance

instance (xs : List β) (f : β → Eval α) [∀ b, KeepsOutput (f b)] : KeepsOutput (xs.mapM f) := by
  induction xs with
  | nil => exact of_silent fun _ => rfl
  | cons b bs ih =>
    rw [List.mapM_cons]
    infer_instance

instance (xs : List β) (f : β → Eval Unit) [∀ b, KeepsOutput (f b)] :
    KeepsOutput (xs.forM f) := by
  induction xs with
  | nil => exact of_silent fun _ => rfl
  | cons b bs ih => exact bind (f b) fun _ => bs.forM f

instance (o : Option β) (f : β → Eval α) [∀ b, KeepsOutput (f b)] : KeepsOutput (o.mapM f) := by
  cases o with
  | none => exact of_silent fun _ => rfl
  | some b => exact bind (f b) fun a => pure (some a)

instance (name : String) (x : Eval α) [hx : KeepsOutput x] :
    KeepsOutput (whileIncluding name x) :=
  ⟨fun m => hx.prefix_of { m with including := m.including ++ [name] }⟩

/-! ## Steps -/

instance : KeepsOutput freshId := of_silent fun _ => rfl

instance (parent : Option ScopeId) : KeepsOutput (openScope parent) := of_silent fun _ => rfl

instance (scope : ScopeId) (name : String) (v : Value) : KeepsOutput (define scope name v) :=
  of_silent fun _ => rfl

instance (scope : ScopeId) (bs : Bindings) : KeepsOutput (defineAll scope bs) :=
  of_silent fun _ => rfl

instance (around : Surroundings) (line : String) (span : Span) :
    KeepsOutput (printLine around line span) := by
  have push : KeepsOutput (modify fun m => { m with printed := m.printed.push line } : Eval Unit) :=
    ⟨fun m => ⟨[line], Array.toList_push.symm⟩⟩
  have room (full : Option Capacity) : KeepsOutput
      (match full with
        | none => modify fun m => { m with printed := m.printed.push line }
        | some full => fail ((Fault.outputFailed full.refusal).failAt span) : Eval Unit) := by
    cases full <;> infer_instance
  unfold printLine
  infer_instance

instance (name : String) (stack : CallStack) (span : Span) :
    KeepsOutput (read name stack span) := by
  have found (m : Machine) : KeepsOutput
      (match m.store.get? stack.top.scope name with
        | some v => pure (v.relocate span stack.display)
        | none => fail ((Fault.undefined name).failAt span) : Eval Value) := by
    split <;> infer_instance
  unfold read
  infer_instance

instance (name : String) (v : Value) (stack : CallStack) (span : Span) :
    KeepsOutput (assign name v stack span) := by
  unfold assign
  refine @bind _ _ _ _ inferInstance fun m => ?_
  dsimp only
  split
  · split <;> infer_instance
  · infer_instance

instance (name : String) (v : Value) (stack : CallStack) (span : Span) :
    KeepsOutput (declare name v stack span) := by
  unfold declare
  infer_instance

instance (target : Target) (v : Value) (stack : CallStack) (span : Span) :
    KeepsOutput (bindTarget target v stack span) := by
  unfold bindTarget
  infer_instance

/-! ## Constructs -/

section Nodes

variable {eval : Node → Eval Value} [∀ c, KeepsOutput (eval c)]

instance (body : List Node) : KeepsOutput (block eval body) := by
  unfold block
  infer_instance

instance (stack : CallStack) (test : Node) : KeepsOutput (condition eval stack test) := by
  unfold condition
  infer_instance

instance (stack : CallStack) (otherwise : Option (List Node)) (cases : List Branch) :
    KeepsOutput (branches eval stack otherwise cases) := by
  induction cases with
  | nil => exact inferInstanceAs (KeepsOutput (block eval _))
  | cons b bs ih =>
    unfold branches
    infer_instance

instance (body : List Node) : KeepsOutput (pass eval body) := by
  unfold pass
  refine @tryCatch _ _ _ inferInstance fun s => ?_
  cases s <;> dsimp only <;> infer_instance

instance (body : List Node) : KeepsOutput (handled eval body) := by
  unfold handled
  refine @tryCatch _ _ _ inferInstance fun s => ?_
  cases s <;> dsimp only <;> infer_instance

instance (body : List Node) : KeepsOutput (runBody eval body) := by
  unfold runBody
  refine @tryCatch _ _ _ inferInstance fun s => ?_
  cases s <;> dsimp only <;> infer_instance

instance (items : List Node) : KeepsOutput (array eval items) := by
  unfold array
  infer_instance

instance (items : List Node) : KeepsOutput (tuple eval items) := by
  unfold tuple
  infer_instance

instance (entries : List (Node × Node)) : KeepsOutput (dict eval entries) := by
  unfold dict
  infer_instance

instance (node : Node) : KeepsOutput (typeTag eval node) := by
  unfold typeTag
  refine @bind _ _ _ _ inferInstance fun v => ?_
  split
  · split <;> infer_instance
  · infer_instance

instance (literal : FunctionLiteral) (scope : ScopeId) :
    KeepsOutput (function eval literal scope) := by
  unfold function
  infer_instance

instance (list : ArgumentList) (callee : Span) : KeepsOutput (arguments eval list callee) := by
  unfold arguments
  infer_instance

end Nodes

instance (step : Value → Eval Unit) (pass : Eval Bool) [∀ v, KeepsOutput (step v)]
    [KeepsOutput pass] (vs : List Value) : KeepsOutput (passes step pass vs) := by
  induction vs with
  | nil => exact of_silent fun _ => rfl
  | cons v vs ih =>
    unfold passes
    infer_instance

instance (test pass : Eval Bool) [KeepsOutput test] [KeepsOutput pass] (n : Nat) :
    KeepsOutput (repeatWhile test pass n) := by
  induction n with
  | zero => exact of_silent fun _ => rfl
  | succ n ih =>
    unfold repeatWhile
    infer_instance

section Frames

variable {eval : Evaluator} [∀ c stack inLoop, KeepsOutput (eval c stack inLoop)]
  (around : Surroundings) (stack : CallStack)

instance (target : Target) (iterable : Node) (body : List Node) :
    KeepsOutput (forEach eval target iterable body stack) := by
  unfold forEach
  refine @bind _ _ _ _ inferInstance fun v => ?_
  split <;> infer_instance

instance (f : Builtin) (args : Arguments) : KeepsOutput (callBuiltin around f args stack) := by
  unfold callBuiltin
  split
  · infer_instance
  · dsimp only
    split
    · infer_instance
    · cases f.printedLine? args.positional <;> dsimp only <;> infer_instance

instance (f : Function) (name : String) (args : Arguments) :
    KeepsOutput (callFunction around eval f name args stack) := by
  unfold callFunction
  dsimp only
  cases f.returns <;> dsimp only <;> infer_instance

instance (callee : Value) (args : Arguments) :
    KeepsOutput (call around eval callee args stack) := by
  unfold call
  split <;> infer_instance

instance (span : Span) (inLoop : Bool) (v : Value) (lists : List ArgumentList) :
    KeepsOutput (callAll around eval span stack inLoop v lists) := by
  induction lists generalizing v with
  | nil => exact of_silent fun _ => rfl
  | cons list lists ih =>
    unfold callAll
    infer_instance

instance (statements : List Node) : KeepsOutput (topLevel eval stack statements) := by
  unfold topLevel
  infer_instance

instance (name : String) (script : Source) (span : Span) :
    KeepsOutput (runScript eval name script stack span) := by
  unfold runScript
  dsimp only
  cases script.program <;> dsimp only <;> infer_instance

instance (bs : Bindings) : KeepsOutput (nativeScope bs) := by
  unfold nativeScope
  infer_instance

instance (name : String) (span : Span) :
    KeepsOutput (moduleScope around eval name stack span) := by
  unfold moduleScope
  dsimp only
  split
  · infer_instance
  · split <;> infer_instance

instance (module : Node) (span : Span) (inLoop : Bool) :
    KeepsOutput (includeModule around eval module stack span inLoop) := by
  unfold includeModule
  infer_instance

instance (n : Nat) (node : Node) (inLoop : Bool) :
    KeepsOutput (construct around n eval node stack inLoop) := by
  unfold construct
  dsimp only
  cases node.kind with
  | «return» value => cases value <;> dsimp only <;> infer_instance
  | _ => dsimp only; infer_instance

end Frames

end Eval.KeepsOutput

open Eval in
instance evaluate_keepsOutput (around : Surroundings) (n : Nat) (node : Node) (stack : CallStack)
    (inLoop : Bool) : KeepsOutput (evaluate around n node stack inLoop) := by
  induction n generalizing node stack inLoop with
  | zero => exact KeepsOutput.of_silent fun _ => rfl
  | succ n ih =>
    unfold evaluate
    infer_instance

open Eval in
instance (evaluator : Evaluator) [∀ c stack inLoop, KeepsOutput (evaluator c stack inLoop)]
    (statements : List Node) : KeepsOutput (Eval.program evaluator statements) := by
  unfold Eval.program
  infer_instance

/-- A program leaves in place what others have printed before it. -/
theorem Machine.printed_run (m : Machine) (around : Surroundings) (n : Nat) (name text : String) :
    m.printed.toList <+: (m.run around n name text).2.printed.toList := by
  cases hp : (Source.mk name (Text.normalize text)).program with
  | error e =>
    have unread : m.run around n name text = (.error (.source e), m) := by rw [run, hp]
    exact unread.symm ▸ List.prefix_rfl
  | ok statements =>
    rw [m.run_of_program around n hp, attempt_snd]
    exact Eval.KeepsOutput.prefix_of m

end TracedScript
