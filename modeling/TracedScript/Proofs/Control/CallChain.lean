import TracedScript.Proofs.Control.Jumps
import TracedScript.Proofs.Control.Visits

/-!
# The chain of callers

Wherever a program has got to, the list of modules that are being included and the depth of calls
tell what the call stack is made of. Main statement: `stack_mirrors_calls`. So the two checks that
read them, for circular includes and for calls that are too deep, are checks of the call stack.
-/

namespace TracedScript

/-- The name of the module whose top level runs in the frame, which is what stands between
`<module ` and `>`. -/
def Frame.module? (f : Frame) : Option String :=
  if f.kind = .module then some (String.ofList (f.display.toList.drop 8).dropLast) else none

namespace CallStack

/-- The modules of the stack's module frames, outermost first. -/
def modules (s : CallStack) : List String := s.frames.reverse.filterMap Frame.module?

/-- How many function frames the stack has. -/
def calls (s : CallStack) : Nat := s.frames.countP fun f => f.kind = .function

section Calling

variable (s : CallStack) (display : String) (scope : ScopeId) (span : Span)

@[simp] theorem frames_call (kind : FrameKind) :
    (s.call display scope span kind).frames = (s.call display scope span kind).top :: s.frames :=
  rfl

theorem modules_call_function : (s.call display scope span .function).modules = s.modules := by
  unfold modules
  rw [frames_call, List.reverse_cons, List.filterMap_append]
  exact List.append_nil _

theorem modules_call_module (name : String) :
    (s.call s!"<module {name}>" scope span .module).modules = s.modules ++ [name] := by
  have named : (s.call s!"<module {name}>" scope span .module).top.module? = some name := by
    have display : s!"<module {name}>" = "<module " ++ name ++ ">" := rfl
    have shown : (s!"<module {name}>").toList = "<module ".toList ++ (name.toList ++ ['>']) := by
      rw [display, String.toList_append, String.toList_append, List.append_assoc]
      rfl
    have inner : ((s!"<module {name}>").toList.drop 8).dropLast = name.toList := by
      rw [shown, List.drop_left' (by decide), List.dropLast_concat]
    exact congrArg some ((congrArg String.ofList inner).trans String.ofList_toList)
  unfold modules
  rw [frames_call, List.reverse_cons, List.filterMap_append, List.filterMap_cons, named]
  rfl

theorem calls_call_function :
    (s.call display scope span .function).calls = s.calls + 1 := by
  unfold calls
  rw [frames_call]
  exact List.countP_cons_of_pos rfl

theorem calls_call_module : (s.call display scope span .module).calls = s.calls := by
  unfold calls
  rw [frames_call]
  exact List.countP_cons_of_neg (by simp [call])

end Calling

/-- The modules being included are those of the stack's module frames, each once, and the depth is
the number of its function frames, of which there are no more than allowed. -/
structure Mirrors (around : Surroundings) (s : CallStack) (names : List String) : Prop where
  modules : names = s.modules
  nodup : s.modules.Nodup
  depth : s.top.depth = s.calls
  bound : s.calls ≤ around.settings.maxDepth

end CallStack

/-- Calls count themselves and includes write themselves down, after a look at what is there. -/
def FrameLaw.mirroring (around : Surroundings) : FrameLaw around where
  holds := CallStack.Mirrors around
  program _ := ⟨rfl, List.nodup_nil, rfl, Nat.zero_le _⟩
  call {stack _} name scope span h hd := by
    have one := stack.calls_call_function name scope span
    have same := stack.modules_call_function name scope span
    have room := h.depth ▸ hd
    refine ⟨h.modules.trans same.symm, same ▸ h.nodup, ?_, one ▸ room⟩
    exact (congrArg Nat.succ h.depth).trans one.symm
  module {stack _} name scope span h _ hname := by
    have more := stack.modules_call_module scope span name
    have same := stack.calls_call_module s!"<module {name}>" scope span
    refine ⟨?_, ?_, h.depth.trans same.symm, same ▸ h.bound⟩
    · rw [more, h.modules]
    · rw [more]
      refine List.nodup_append.mpr ⟨h.nodup, by simp, ?_⟩
      rintro a ha b hb rfl
      obtain rfl := List.mem_singleton.mp hb
      exact hname (h.modules ▸ ha)

/-! ## What a run can not stop with -/

namespace Eval.Stops

variable {α β : Type} {p q : Stop → Prop} {x : Eval α}

theorem pure (a : α) : (Pure.pure a : Eval α).Stops q := fun _ _ hs => by cases hs

theorem fail {e : Failure} (h : q (.failed e)) : (Eval.fail e : Eval α).Stops q := by
  intro m s hs
  cases hs
  exact h

theorem ofExcept {o : Except Failure α} (h : ∀ e, o = .error e → q (.failed e)) :
    (Eval.ofExcept o).Stops q := by
  cases o with
  | ok a => exact pure a
  | error e => exact fail (h e rfl)

theorem bind {f : α → Eval β} (hx : x.Stops q) (hf : ∀ a, (f a).Stops q) :
    (x >>= f).Stops q := by
  intro m s hs
  rw [bind_apply] at hs
  rcases hr : x m with ⟨r, m'⟩
  rw [hr] at hs
  cases r with
  | ok a => exact hf a m' s hs
  | error t =>
    cases hs
    exact hx m s (by rw [hr])

theorem tryCatch {h : Stop → Eval α} (hx : x.Stops p) (hh : ∀ s, p s → (h s).Stops q) :
    Stops q (tryCatch x h) := by
  intro m s hs
  rw [tryCatch_apply] at hs
  rcases hr : x m with ⟨r, m'⟩
  rw [hr] at hs
  cases r with
  | ok a => cases hs
  | error t => exact hh t (hx m t (by rw [hr])) m' s hs

theorem mapM {xs : List β} {f : β → Eval α} (h : ∀ b, (f b).Stops q) : (xs.mapM f).Stops q := by
  induction xs with
  | nil => exact pure []
  | cons b bs ih =>
    rw [List.mapM_cons]
    exact (h b).bind fun a => ih.bind fun as => pure (a :: as)

theorem block {f : Node → Eval Value} {body : List Node} (h : ∀ c, (f c).Stops q) :
    (Eval.block f body).Stops q := by
  induction body with
  | nil => exact pure ()
  | cons c cs ih => exact ((h c).bind fun _ => pure ()).bind fun _ => ih

theorem runBody {f : Node → Eval Value} {body : List Node} (h : ∀ c, (f c).Stops q) :
    (Eval.runBody f body).Stops q := by
  have run : (Eval.block f body).Stops q := block h
  refine (run.bind fun _ => pure Value.null).tryCatch fun s hs => ?_
  cases s with
  | returned v span => exact pure v
  | broke | continued | failed | exhausted =>
    intro m s hm
    cases hm
    exact hs

end Eval.Stops

/-- A failure that comes from inside has the frame that it arose in attached; what has none has
arisen right here. -/
theorem stops_evaluate_ne (around : Surroundings) (n : Nat) {e : Failure} (h : e.stack = none)
    (node : Node) (stack : CallStack) (inLoop : Bool) :
    (evaluate around n node stack inLoop).Stops (· ≠ .failed e) := by
  rintro m s hs rfl
  have complete := complete_of_evaluate (Prod.ext hs rfl)
  rw [Failure.Complete, h] at complete
  cases complete.2

/-! ## Circular includes -/

namespace Fault

/-- Which failures may be taken for that of a circular include: none of another kind, and none
whose message starts otherwise. -/
theorem ne_circularInclude {e : Failure} {name : String} {span : Span}
    (h : e.kind ≠ .include ∨ e.message.toList.head? = some 'M') :
    Stop.failed e ≠ .failed ((circularInclude name).failAt span) := by
  intro heq
  cases heq
  obtain h | h := h
  · exact h rfl
  · have text : (circularInclude name).message = "Circular include of module " ++ name := rfl
    have start : ((circularInclude name).failAt span).message.toList.head? = some 'C' := by
      rw [failAt, failure, text, String.toList_append]
      rfl
    rw [start] at h
    cases h

theorem head_missingModule (name : String) :
    (missingModule name).message.toList.head? = some 'M' := by
  have text : (missingModule name).message = "Module " ++ name ++ " does not exist" := rfl
  rw [text, String.toList_append, String.toList_append]
  rfl

theorem head_unparsableModule (name : String) (e : SourceError) :
    (unparsableModule name e).message.toList.head? = some 'M' := by
  have text : (unparsableModule name e).message =
      "Module " ++ name ++ " could not be parsed: " ++ e.kind.name ++ ": " ++ e.message := rfl
  rw [text]
  simp only [String.toList_append, List.append_assoc]
  rfl

end Fault

section Includes

variable (around : Surroundings) (n : Nat) (stack : CallStack) (span : Span)

theorem stops_moduleScope_ne (name asked : String) :
    (Eval.moduleScope around (evaluate around n) asked stack span).Stops
      (· ≠ .failed ((Fault.circularInclude name).failAt span)) := by
  have opens (parent : Option ScopeId) : (Eval.openScope parent).Stops
      (· ≠ .failed ((Fault.circularInclude name).failAt span)) := fun _ _ hs => by cases hs
  unfold Eval.moduleScope
  dsimp only
  split
  · rename_i path text _
    unfold Eval.runScript
    refine (opens _).bind fun scope => ?_
    dsimp only
    split
    · rename_i e _
      refine .fail (Fault.ne_circularInclude (.inr ?_))
      rw [Failure.message_withOrigin]
      exact Fault.head_unparsableModule asked e
    · rename_i statements _
      refine .bind (fun m s hs => ?_) fun _ => .pure scope
      have top := topLevel_eq_mapM around n (stack.call s!"<module {asked}>" scope span .module)
        rfl statements
      have inner : (Eval.topLevel (evaluate around n)
          (stack.call s!"<module {asked}>" scope span .module) statements).Stops
          (· ≠ .failed ((Fault.circularInclude name).failAt span)) := by
        rw [top]
        exact .mapM fun c => stops_evaluate_ne around n rfl c _ false
      exact inner _ s hs
  · split
    · refine (opens _).bind fun scope => .bind (fun _ _ hs => ?_) fun _ => .pure scope
      cases hs
    · exact .fail (Fault.ne_circularInclude (.inr (Fault.head_missingModule asked)))

theorem stops_declare_ne (name bound : String) (v : Value) :
    (Eval.declare bound v stack span).Stops
      (· ≠ .failed ((Fault.circularInclude name).failAt span)) := by
  intro m s hs
  rw [Eval.declare_apply] at hs
  split at hs
  · cases hs
    exact Fault.ne_circularInclude (.inl fun hkind => by cases hkind)
  · cases hs

end Includes

namespace Visit

/-- The visit includes a module, and gets a valid name for it. -/
def Asks (around : Surroundings) (u : Visit) (name : String) : Prop :=
  ∃ n module v m, u.allowance = n + 1 ∧ u.node.kind = .include module ∧
    evaluate around n module u.stack u.inLoop u.machine = (.ok v, m) ∧
    Eval.moduleName v module.span = .ok name

/-- The construct that the visit evaluates fails with the fault. A failure that comes from inside
does not count, as it has a frame attached. -/
def FailsWith (around : Surroundings) (u : Visit) (f : Fault) : Prop :=
  (u.construct around (u.allowance - 1) (evaluate around (u.allowance - 1))).1 =
    .error (.failed (f.failAt u.node.span))

/-- An include fails as circular if and only if the module is being included. -/
theorem failsWith_circularInclude_iff {around : Surroundings} {u : Visit} {name : String}
    (h : u.Asks around name) :
    u.FailsWith around (.circularInclude name) ↔ name ∈ u.machine.including := by
  obtain ⟨n, module, v, m, hn, hk, hv, hname⟩ := h
  have same : m.including = u.machine.including :=
    including_of_ending (v := ⟨module, u.stack, u.inLoop, u.machine, n⟩) hv
  have steps : u.construct around n (evaluate around n) =
      (if name ∈ m.including then
        (.error (.failed ((Fault.circularInclude name).failAt u.node.span)), m)
      else (Eval.moduleScope around (evaluate around n) name u.stack u.node.span >>= fun scope =>
        Eval.declare (Module.bindingName name)
          ((Value.ofData (.namespace name scope)).place u.node.span u.stack.display) u.stack
          u.node.span) m) := by
    unfold construct Eval.construct
    rw [hk]
    exact Eval.includeModule_of_named around hv hname
  rw [FailsWith, hn, Nat.add_sub_cancel, steps, ← same]
  split
  · rename_i hm
    exact iff_of_true rfl hm
  · rename_i hm
    refine iff_of_false (fun hf => ?_) hm
    have stops := (stops_moduleScope_ne around n u.stack u.node.span name name).bind
      fun scope => stops_declare_ne u.stack u.node.span name (Module.bindingName name)
        ((Value.ofData (.namespace name scope)).place u.node.span u.stack.display)
    exact stops m _ hf rfl

end Visit

/-! ## Calls that are too deep -/

/-- What may be taken for the failure of a call that is too deep can not be caught. -/
theorem Fault.ne_tooDeep {e : Failure} {limit : Nat} {span : Span} (h : e.isFatal = false) :
    Stop.failed e ≠ .failed ((tooDeep limit).failAt span) := by
  intro heq
  cases heq
  cases h

namespace Function

theorem not_fatal_of_map {α β : Type} {x : Except Failure α} {f : α → β} {e : Failure}
    (h : x.map f = .error e) (hx : ∀ e, x = .error e → e.isFatal = false) :
    e.isFatal = false := by
  cases x with
  | ok a => cases h
  | error e' =>
    cases h
    exact hx e rfl

theorem not_fatal_of_bindParameters {function : String} {params : List Parameter}
    {args : List Value} {e : Failure} (h : bindParameters function params args = .error e) :
    e.isFatal = false := by
  induction params generalizing args e with
  | nil => cases h
  | cons p ps ih =>
    cases args with
    | nil => cases h
    | cons v vs =>
      unfold bindParameters at h
      split at h
      · split at h
        · exact not_fatal_of_map h fun _ => ih
        · cases h
          rw [Failure.isFatal, Value.blameHere, Failure.kind_withOrigin]
          rfl
      · exact not_fatal_of_map h fun _ => ih

theorem not_fatal_of_bindOptions {f : Function} {function : String} {named : List NamedValue}
    {e : Failure} (h : bindOptions f function named = .error e) : e.isFatal = false := by
  induction named generalizing e with
  | nil => cases h
  | cons a rest ih =>
    unfold bindOptions at h
    split at h
    · exact not_fatal_of_map h fun _ => ih
    · cases h
      rfl

/-- Arguments that do not fit are no reason to panic. -/
theorem not_fatal_of_bind {f : Function} {function : String} {args : Arguments} {e : Failure}
    (h : f.bind function args = .error e) : e.isFatal = false := by
  unfold Function.bind at h
  split at h
  · cases h
    rfl
  · cases hp : bindParameters function f.params args.positional with
    | error e' =>
      rw [hp] at h
      cases h
      exact not_fatal_of_bindParameters hp
    | ok params =>
      rw [hp] at h
      cases ho : bindOptions f function args.named with
      | error e' =>
        rw [ho] at h
        cases h
        exact not_fatal_of_bindOptions ho
      | ok options =>
        rw [ho] at h
        cases h

end Function

/-- A call of a function of the program is refused for its depth if and only if as many functions
are running as may be. -/
theorem tooDeep_iff (around : Surroundings) (n : Nat) {callee : Value} {f : Function}
    (hd : callee.data = .func f) (args : Arguments) {stack : CallStack} {names : List String}
    (h : stack.Mirrors around names) (m : Machine) :
    (Eval.call around (evaluate around n) callee args stack m).1 =
        .error (.failed ((Fault.tooDeep around.settings.maxDepth).failAt args.span)) ↔
      stack.calls = around.settings.maxDepth := by
  have bound := h.bound
  have depth := h.depth
  unfold Eval.call
  rw [hd]
  dsimp only
  unfold Eval.callFunction
  dsimp only
  split
  · refine iff_of_true rfl (by omega)
  · refine iff_of_false (fun hf => ?_) (by omega)
    refine (Eval.Stops.bind (q := (· ≠ .failed ((Fault.tooDeep
      around.settings.maxDepth).failAt args.span))) ?_ fun bs => ?_) m _ hf rfl
    · exact .ofExcept fun e he => Fault.ne_tooDeep (Function.not_fatal_of_bind he)
    · refine .bind (fun _ _ hs => by cases hs) fun scope => ?_
      refine .bind (fun _ _ hs => by cases hs) fun _ => ?_
      refine .bind (.runBody fun c => stops_evaluate_ne around n rfl c _ false) fun result => ?_
      split
      · split
        · refine .bind (.fail (Fault.ne_tooDeep ?_)) fun _ => .pure _
          rw [Failure.isFatal, Value.blame, Failure.kind_withOrigin]
          rfl
        · exact .pure _
      · exact .pure _

/-- Wherever a run of a program has got to, the modules that are being included are those whose
frames are on the call stack, outermost first and each only once, and the depth of calls is the
number of function frames there, which is never more than allowed. So an include fails as circular
if and only if the module is on the stack already, and a call is refused for its depth if and only
if the stack has all the function frames that it may have. However a run ends, no module is being
included any more. -/
theorem stack_mirrors_calls {m : Machine} (hm : m.Reached) (around : Surroundings) (n : Nat)
    (name text : String) :
    (∀ u, m.Visits around n name text u →
      u.machine.including = u.stack.modules ∧ u.stack.modules.Nodup ∧
      u.stack.top.depth = u.stack.calls ∧ u.stack.calls ≤ around.settings.maxDepth ∧
      (∀ asked, u.Asks around asked →
        (u.FailsWith around (.circularInclude asked) ↔ asked ∈ u.stack.modules)) ∧
      ∀ callee f args k m', callee.data = .func f →
        ((Eval.call around (evaluate around k) callee args u.stack m').1 =
            .error (.failed ((Fault.tooDeep around.settings.maxDepth).failAt args.span)) ↔
          u.stack.calls = around.settings.maxDepth)) ∧
    (m.run around n name text).2.including = [] := by
  refine ⟨fun u hu => ?_, (m.including_run around n name text).trans hm.including⟩
  have mirrors : u.stack.Mirrors around u.machine.including :=
    hu.law (.mirroring around) hm.including
  refine ⟨mirrors.modules, mirrors.nodup, mirrors.depth, mirrors.bound, fun asked h => ?_, ?_⟩
  · rw [← mirrors.modules]
    exact Visit.failsWith_circularInclude_iff h
  · intro callee f args k m' hd
    exact tooDeep_iff around k hd args mirrors m'

/-- The text includes the module and does nothing else. -/
def Source.onlyIncludes (s : Source) (asked : String) : Bool :=
  match s.program with
  | .ok [⟨.include ⟨.str name, _⟩, _⟩] => name = asked
  | _ => false

/-- The text calls a function that includes the module, and does nothing else. -/
def Source.onlyCallsInclude (s : Source) (asked : String) : Bool :=
  match s.program with
  | .ok [⟨.call ⟨.function ⟨[], [], none, [⟨.include ⟨.str name, _⟩, _⟩]⟩, _⟩ [⟨[], [], _⟩], _⟩] =>
    name = asked
  | _ => false

def circularProgram : String := "include(\"notes\")"

/-- The script of the module, which calls a function that includes the module again. -/
def circularScript : String := "(func() \x7b\ninclude(\"notes\")\n\x7d)()"

/-- In the function, the include is refused, and so is a further call, where only one function may
run. -/
theorem include_refused_in_module :
    let around : Surroundings := ⟨⟨["."], 1⟩,
      ⟨["home"], [(["home", "notes.peri"], .file circularScript.toUTF8)]⟩, none⟩
    ∃ u, Machine.initial.Visits around 9 "main" circularProgram u ∧
      u.stack.modules = ["notes"] ∧ u.machine.including = ["notes"] ∧ u.stack.calls = 1 ∧
      u.FailsWith around (.circularInclude "notes") ∧
      (∀ k m', (Eval.call around (evaluate around k) (.ofData (.func ⟨0, [], [], none, [], 1⟩))
        ⟨[], [], default⟩ u.stack m').1 = .error (.failed ((Fault.tooDeep 1).failAt default))) ∧
      (Machine.initial.run around 9 "main" circularProgram).2.including = [] := by
  intro around
  have program : (Source.mk "main" (Text.normalize circularProgram)).onlyIncludes "notes" =
      true := by decide +kernel
  have script : (Source.mk "./notes.peri" (Text.normalize circularScript)).onlyCallsInclude
      "notes" = true := by decide +kernel
  have found : Module.findScript around.files around.settings.directories "notes" =
      some ("./notes.peri", circularScript) := by decide +kernel
  unfold Source.onlyIncludes at program
  split at program
  · rename_i asked place span hp
    obtain rfl : asked = "notes" := of_decide_eq_true program
    unfold Source.onlyCallsInclude at script
    split at script
    · rename_i again place' span' literal list call hs
      obtain rfl : again = "notes" := of_decide_eq_true script
      have outer := Machine.initial.visits_first around 9 hp
      have inScript := outer.inside (Visit.makes_in_script rfl rfl rfl (by decide +kernel) found hs)
      have inBody := inScript.inside
        (Visit.makes_in_body rfl rfl rfl rfl Nat.zero_lt_one rfl rfl)
      obtain ⟨all, after⟩ := stack_mirrors_calls .initial around 9 "main" circularProgram
      obtain ⟨modules, -, -, -, circular, calls⟩ := all _ inBody
      have names := modules.symm
      refine ⟨_, inBody, names, rfl, rfl, (circular "notes" ⟨_, _, _, _, rfl, rfl, rfl, rfl⟩).mpr ?_,
        fun k m' => (calls _ _ _ k m' rfl).mpr rfl, after⟩
      rw [names]
      exact List.mem_singleton_self "notes"
    · cases script
  · cases program

end TracedScript
