import TracedScript.Proofs.Control.Failures
import TracedScript.Proofs.Run.Prelude

/-!
# The visits of a program

`m.Visits around n name text u`: a run of the text from the state `m` comes to evaluate `u`, as one
of its statements or inside another visit. A law of call stacks and of the modules that are being
included is followed along all visits at once: it only has to pass from a frame to the calls and
modules that are made from it, see `Visits.law`.
-/

namespace TracedScript

namespace Machine

/-- A run of the text makes the visit, as one of its statements or inside another one. -/
inductive Visits (m : Machine) (around : Surroundings) (allowance : Nat) (name text : String) :
    Visit → Prop where
  | statement {statements : List Node} {u : Visit} :
    (Source.mk name (Text.normalize text)).program = .ok statements → u.allowance = allowance →
    Needs (fun eval => Eval.program eval statements m) (evaluate around allowance) u →
    Visits m around allowance name text u
  | inside {v u : Visit} :
    Visits m around allowance name text v → v.Makes around u →
    Visits m around allowance name text u

end Machine

/-- Stopping dead in one of its statements, or inside, stops a program. -/
theorem Needs.halts_program {around : Surroundings} {statements : List Node} {m : Machine}
    {w : Visit}
    (h : Needs (fun eval => Eval.program eval statements m) (evaluate around w.allowance) w)
    (m₁ : Machine) :
    ∃ names, Eval.program (w.halting m₁ (evaluate around w.allowance)) statements m =
      (.error .exhausted, { m₁ with including := names }) := by
  refine h.halts fun other ho => ?_
  have alike : AlikeBut w (w.halting m₁ (evaluate around w.allowance))
      (evaluate around w.allowance) := fun _ _ _ _ hv => if_neg hv
  have agree := Contract.stopping_agree Stop.final_exhausted alike ho (if_pos rfl)
  have whole : ((Contract.stopping Stop.final_exhausted m₁).terms m.including).Agree _ _
      (Eval.program (w.halting m₁ (evaluate around w.allowance)) statements)
      (Eval.program other statements) :=
    Contract.agree_program trivial (fun _ _ c _ => agree _ c _ false) w.stack w.inLoop
  obtain ⟨heq, -⟩ | ⟨s, hs, rfl, names, hm⟩ := whole m (Contract.lenient_state m)
  · exact .inl heq.symm
  · exact .inr ⟨names, Prod.ext hs hm⟩

/-- Stopping dead in a statement stops a top level whose statements before it give values. -/
theorem Visit.halts_topLevel {around : Surroundings} {n : Nat} {stack : CallStack} {c : Node}
    {before : List Node} {m m' m₁ : Machine} {vs : List Value} (hc : c ∉ before)
    (h : (before.mapM fun b => evaluate around n b stack false) m = (.ok vs, m'))
    (rest : List Node) :
    Eval.topLevel ((⟨c, stack, false, m', n⟩ : Visit).halting m₁ (evaluate around n)) stack
      (before ++ c :: rest) m = (.error .exhausted, m₁) := by
  induction before generalizing m vs with
  | nil =>
    cases h
    have first : (⟨c, stack, false, m', n⟩ : Visit).halting m₁ (evaluate around n) c stack false
        m' = (.error .exhausted, m₁) := if_pos rfl
    rw [List.nil_append, Eval.topLevel, List.mapM_cons, Eval.bind_apply, Eval.adapt_apply, first]
    rfl
  | cons b before ih =>
    obtain ⟨hb, hc⟩ := not_or.mp (mt List.mem_cons.mpr hc)
    have same : (⟨c, stack, false, m', n⟩ : Visit).halting m₁ (evaluate around n) b stack false m =
        evaluate around n b stack false m := if_neg fun hv => hb (congrArg Visit.node hv).symm
    rw [List.mapM_cons, Eval.bind_apply] at h
    rcases hr : evaluate around n b stack false m with ⟨r, m₂⟩
    rw [hr] at h
    cases r with
    | error stop => cases h
    | ok v =>
      have first : (ExceptT.adapt Stop.escaped ((⟨c, stack, false, m', n⟩ : Visit).halting m₁
          (evaluate around n) b stack false) : Eval Value) m = (.ok v, m₂) := by
        rw [Eval.adapt_apply, same, hr]
        rfl
      rw [Ending.next, Eval.bind_apply] at h
      rw [List.cons_append, Eval.topLevel, List.mapM_cons, Eval.bind_of_ok first, Eval.bind_apply]
      rcases hrest : (before.mapM fun b => evaluate around n b stack false) m₂ with ⟨r, m₃⟩
      rw [hrest] at h
      cases r with
      | error stop => cases h
      | ok vs' =>
        cases h
        have later := ih hc hrest
        rw [Eval.topLevel] at later
        rw [later]
        rfl

/-- A program makes a visit for each of its statements, in a fresh scope, if those before it give
values. -/
theorem Machine.visits_statement (m : Machine) (around : Surroundings) (n : Nat)
    {name text : String} {before rest : List Node} {c : Node} {vs : List Value} {m' : Machine}
    (h : (Source.mk name (Text.normalize text)).program = .ok (before ++ c :: rest))
    (hc : c ∉ before)
    (hb : (before.mapM fun b => evaluate around n b (.root "<program>" m.store.next .program) false)
      { m with store := m.store.add (some preludeScope) } = (.ok vs, m')) :
    m.Visits around n name text ⟨c, .root "<program>" m.store.next .program, false, m', n⟩ :=
  .statement h rfl (.of_halts fun m₁ => ⟨m₁.including, Visit.halts_topLevel hc hb rest⟩)

/-- A program makes a visit for its first statement, in a fresh scope. -/
theorem Machine.visits_first (m : Machine) (around : Surroundings) (n : Nat) {name text : String}
    {c : Node} {rest : List Node}
    (h : (Source.mk name (Text.normalize text)).program = .ok (c :: rest)) :
    m.Visits around n name text
      ⟨c, .root "<program>" m.store.next .program, false,
        { m with store := m.store.add (some preludeScope) }, n⟩ := by
  have split : (Source.mk name (Text.normalize text)).program = .ok ([] ++ c :: rest) := h
  exact m.visits_statement around n split List.not_mem_nil rfl

/-- The text can be read and is not empty. -/
def Source.hasStatements (s : Source) : Bool :=
  match s.program with
  | .ok (_ :: _) => true
  | _ => false

theorem exists_of_hasStatements {s : Source} (h : s.hasStatements = true) :
    ∃ c rest, s.program = .ok (c :: rest) := by
  unfold Source.hasStatements at h
  split at h
  · rename_i c rest hp
    exact ⟨c, rest, hp⟩
  · cases h

/-! ## What the parts of a construct do -/

namespace Eval

variable (around : Surroundings) {m m' : Machine}

/-- A script that can be read runs in a scope opened for it. -/
theorem runScript_apply (eval : Evaluator) (name : String) (script : Source) (stack : CallStack)
    (span : Span) :
    runScript eval name script stack span m =
      match script.program with
      | .error e =>
        (.error (.failed (((Fault.unparsableModule name e).failAt span).withOrigin
          [⟨e.span, s!"<module {name}>"⟩])),
          { m with store := m.store.add (some Machine.preludeScope) })
      | .ok statements =>
        Ending.next
          (whileIncluding name
            (topLevel eval (stack.call s!"<module {name}>" m.store.next span .module) statements)
            { m with store := m.store.add (some Machine.preludeScope) })
          fun _ => pure m.store.next := by
  have opened : openScope (some Machine.preludeScope) m =
      (.ok m.store.next, { m with store := m.store.add (some Machine.preludeScope) }) := rfl
  unfold runScript
  rw [bind_apply, opened, Ending.next]
  cases script.program with
  | error e => rfl
  | ok statements =>
    dsimp only
    rw [bind_apply]

section Includes

variable {eval : Evaluator} {module : Node} {stack : CallStack} {span : Span} {inLoop : Bool}
  {v : Value} {asked : String}

/-- What an include does once it knows the name of the module. -/
theorem includeModule_of_named (he : eval module stack inLoop m = (.ok v, m'))
    (hname : moduleName v module.span = .ok asked) :
    includeModule around eval module stack span inLoop m =
      if asked ∈ m'.including then
        (.error (.failed ((Fault.circularInclude asked).failAt span)), m')
      else
        (moduleScope around eval asked stack span >>= fun scope =>
          declare (Module.bindingName asked)
            ((Value.ofData (.namespace asked scope)).place span stack.display) stack span) m' := by
  unfold includeModule
  rw [bind_of_ok he, hname]
  change (if asked ∈ m'.including then _ else _ : Eval Value) m' = _
  split <;> rfl

/-- What an include does once it knows the text that is to name the module. -/
theorem includeModule_apply (he : eval module stack inLoop m = (.ok v, m'))
    (hd : v.data = .str asked) :
    includeModule around eval module stack span inLoop m =
      if Module.isValidName asked then
        if asked ∈ m'.including then
          (.error (.failed ((Fault.circularInclude asked).failAt span)), m')
        else
          (moduleScope around eval asked stack span >>= fun scope =>
            declare (Module.bindingName asked)
              ((Value.ofData (.namespace asked scope)).place span stack.display) stack span) m'
      else (.error (.failed (v.blame (.invalidModuleName v.repr) module.span)), m') := by
  have named : moduleName v module.span =
      if Module.isValidName asked then .ok asked
      else .error (v.blame (.invalidModuleName v.repr) module.span) := by
    unfold moduleName
    rw [hd]
  by_cases valid : Module.isValidName asked
  · rw [if_pos valid] at named ⊢
    exact includeModule_of_named around he named
  · rw [if_neg valid] at named ⊢
    unfold includeModule
    rw [bind_of_ok he, named]
    rfl

end Includes

theorem runBody_of_stop {eval : Node → Eval Value} {body : List Node} {s : Stop}
    (h : block eval body m = (.error s, m')) (hs : ∀ v span, s ≠ .returned v span) :
    runBody eval body m = (.error s, m') := by
  unfold runBody
  rw [tryCatch_apply, bind_apply, h]
  cases s with
  | returned v span => exact absurd rfl (hs v span)
  | _ => rfl

end Eval

/-! ## Visits in other frames -/

theorem CallStack.call_ne (s : CallStack) (display : String) (scope : ScopeId) (span : Span)
    (kind : FrameKind) : s ≠ s.call display scope span kind := by
  intro h
  have deeper := congrArg (fun s : CallStack => s.frames.length) h
  exact Nat.succ_ne_self _ deeper.symm

namespace Visit

variable {around : Surroundings} {node c : Node} {rest : List Node} {stack : CallStack}
  {inLoop : Bool} {n : Nat} {m m' : Machine} {v : Value}

/-- Stopping dead in a visit in another frame does not change what is evaluated in this one. -/
theorem halting_of_ne {w : Visit} (h : stack ≠ w.stack) (m₁ : Machine) (eval : Evaluator)
    (node : Node) : w.halting m₁ eval node stack inLoop = eval node stack inLoop :=
  funext fun _ => if_neg fun same => h (congrArg Visit.stack same)

/-- An include of a module that is not being included visits the first statement of its script. -/
theorem makes_in_script {module : Node} {asked path text : String}
    (hk : node.kind = .include module)
    (hv : evaluate around n module stack inLoop m = (.ok v, m'))
    (hname : Eval.moduleName v module.span = .ok asked) (fresh : asked ∉ m'.including)
    (hfind : Module.findScript around.files around.settings.directories asked = some (path, text))
    (hp : (Source.mk path (Text.normalize text)).program = .ok (c :: rest)) :
    let w : Visit := ⟨c, stack.call s!"<module {asked}>" m'.store.next node.span .module, false,
      { m' with
        store := m'.store.add (some Machine.preludeScope)
        including := m'.including ++ [asked] }, n⟩
    Makes around ⟨node, stack, inLoop, m, n + 1⟩ w := by
  intro w
  rw [makes_iff]
  refine ⟨rfl, fun m₁ => ⟨m₁.including.dropLast, ?_⟩⟩
  have named : w.halting m₁ (evaluate around n) module stack inLoop m = (.ok v, m') := by
    rw [halting_of_ne (stack.call_ne _ _ _ _), hv]
  have start : c ∉ ([] : List Node) := List.not_mem_nil
  have body : Eval.topLevel (w.halting m₁ (evaluate around n)) w.stack (c :: rest) w.machine =
      (.error .exhausted, m₁) := halts_topLevel start rfl rest
  have script : Eval.whileIncluding asked
      (Eval.topLevel (w.halting m₁ (evaluate around n)) w.stack (c :: rest))
      { m' with store := m'.store.add (some Machine.preludeScope) } =
        (.error .exhausted, { m₁ with including := m₁.including.dropLast }) := by
    unfold Eval.whileIncluding
    rw [body]
  have scope : Eval.moduleScope around (w.halting m₁ (evaluate around n)) asked stack node.span m' =
      (.error .exhausted, { m₁ with including := m₁.including.dropLast }) := by
    unfold Eval.moduleScope
    rw [hfind]
    dsimp only
    rw [Eval.runScript_apply, hp]
    exact congrArg (Ending.next · _) script
  unfold construct Eval.construct
  rw [hk]
  dsimp only
  rw [Eval.includeModule_of_named around named hname, if_neg fresh, Eval.bind_apply, scope]
  rfl

/-- A call that is not refused visits the first statement of the function's body. -/
theorem makes_in_body {callee : Node} {list : ArgumentList} {lists : List ArgumentList}
    {args : Arguments} {f : Function} {bs : Bindings} {m'' : Machine}
    (hk : node.kind = .call callee (list :: lists))
    (hv : evaluate around n callee stack inLoop m = (.ok v, m'))
    (hargs : Eval.arguments (fun node => evaluate around n node stack inLoop) list callee.span m' =
      (.ok args, m'')) (hd : v.data = .func f)
    (hroom : stack.top.depth < around.settings.maxDepth)
    (hbind : f.bind (v.name.getD "<anonymous>") args = .ok bs) (hbody : f.body = c :: rest) :
    let w : Visit := ⟨c,
      stack.call (v.name.getD "<anonymous>") m''.store.next args.span .function, false,
      { m'' with store := (m''.store.add (some f.closure)).defineAll m''.store.next bs }, n⟩
    Makes around ⟨node, stack, inLoop, m, n + 1⟩ w := by
  intro w
  rw [makes_iff]
  refine ⟨rfl, fun m₁ => ⟨m₁.including, ?_⟩⟩
  change construct around n _ (w.halting m₁ (evaluate around n)) = _
  have here : ∀ node, w.halting m₁ (evaluate around n) node stack inLoop =
      evaluate around n node stack inLoop := halting_of_ne (stack.call_ne _ _ _ _) m₁ _
  have first : w.halting m₁ (evaluate around n) c w.stack false w.machine =
      (.error .exhausted, m₁) := if_pos rfl
  have body : Eval.runBody (fun node => w.halting m₁ (evaluate around n) node w.stack false)
      (c :: rest) w.machine = (.error .exhausted, m₁) :=
    Eval.runBody_of_stop (block_of_first first rest) nofun
  have called : Eval.call around (w.halting m₁ (evaluate around n)) v args stack m'' =
      (.error .exhausted, m₁) := by
    have bound : (Eval.ofExcept (.ok bs) : Eval Bindings) m'' = (.ok bs, m'') := rfl
    have opened : Eval.openScope (some f.closure) m'' =
        (.ok m''.store.next, { m'' with store := m''.store.add (some f.closure) }) := rfl
    have filled : Eval.defineAll m''.store.next bs
        { m'' with store := m''.store.add (some f.closure) } = (.ok (), w.machine) := rfl
    unfold Eval.call
    rw [hd]
    dsimp only
    unfold Eval.callFunction
    rw [if_neg (Nat.not_le_of_lt hroom), hbind]
    dsimp only
    rw [Eval.bind_of_ok bound, Eval.bind_of_ok opened, Eval.bind_of_ok filled, hbody,
      Eval.bind_apply, body]
    rfl
  unfold construct Eval.construct
  rw [hk]
  dsimp only
  rw [here, Eval.bind_of_ok hv]
  unfold Eval.callAll
  simp only [here]
  rw [Eval.bind_of_ok hargs, Eval.bind_apply, called]
  rfl

end Visit

/-! ## Laws of call stacks -/

/-- What holds of a call stack and the modules that are being included, and passes to the calls and
modules that are made from there. -/
structure FrameLaw (around : Surroundings) where
  holds : CallStack → List String → Prop
  program : ∀ scope, holds (.root "<program>" scope .program) []
  call : ∀ {stack names} name scope span, holds stack names →
    stack.top.depth < around.settings.maxDepth → holds (stack.call name scope span .function) names
  module : ∀ {stack names} name scope span, holds stack names → Module.isValidName name = true →
    name ∉ names → holds (stack.call s!"<module {name}>" scope span .module) (names ++ [name])

namespace FrameLaw

variable {around : Surroundings} {F : FrameLaw around} {w : Visit} {other : Evaluator}

/-- An evaluator that differs only in a visit against the law differs nowhere where the law
holds. -/
theorem agree (hw : ¬ F.holds w.stack w.machine.including)
    (ho : AlikeBut w other (evaluate around w.allowance)) {names : List String} {stack : CallStack}
    (h : F.holds stack names) (node : Node) (inLoop : Bool) :
    (Contract.free.terms names).Agree Contract.free.value (Contract.free.stop stack inLoop)
      (other node stack inLoop) (evaluate around w.allowance node stack inLoop) := by
  intro m hm
  have differs : (⟨node, stack, inLoop, m, w.allowance⟩ : Visit) ≠ w := by
    intro hv
    rw [← hv] at hw
    have kept : F.holds stack m.including := hm.2 ▸ h
    exact hw kept
  unfold Terms.AgreeFrom
  rw [ho node stack inLoop m differs]
  exact Contract.free_evaluate around w.allowance node stack inLoop m hm

/-- The law passes from a visit to those that it makes. -/
theorem makes (F : FrameLaw around) {v : Visit} (h : v.Makes around w)
    (hv : F.holds v.stack v.machine.including) : F.holds w.stack w.machine.including := by
  refine Classical.byContradiction fun hw => ?_
  obtain ⟨-, other, ho, hne⟩ := h
  have whole : (Contract.free.terms v.machine.including).Agree Contract.free.value
      (Contract.free.stop v.stack v.inLoop)
      (Eval.construct around w.allowance other v.node v.stack v.inLoop)
      (Eval.construct around w.allowance (evaluate around w.allowance) v.node v.stack
        v.inLoop) := by
    apply Contract.agree_construct
    · trivial
    · trivial
    · exact fun b c _ => agree hw ho hv c b
    · exact fun name scope span _ hd c _ => agree hw ho (F.call name scope span hv hd) c false
    · refine fun _ => ⟨trivial, fun name hvalid hname _ _ _ scope span _ _ _ c _ => ?_⟩
      exact agree hw ho (F.module name scope span hv hvalid hname) c false
    · exact fun _ _ _ => False.elim
    · exact fun _ => ⟨trivial, Nat.le_refl _, .inl rfl⟩
  obtain ⟨heq, -⟩ | ⟨s, -, hs⟩ := whole v.machine (Contract.lenient_state _)
  · exact hne heq
  · exact hs.elim

/-- It holds of the statements of a program. -/
theorem statement (F : FrameLaw around) {statements : List Node} {m : Machine}
    (hm : m.including = [])
    (h : Needs (fun eval => Eval.program eval statements m) (evaluate around w.allowance) w) :
    F.holds w.stack w.machine.including := by
  refine Classical.byContradiction fun hw => ?_
  obtain ⟨other, ho, hne⟩ := h
  have whole : (Contract.free.terms m.including).Agree _ _ (Eval.program other statements)
      (Eval.program (evaluate around w.allowance) statements) :=
    Contract.agree_program trivial
      (fun scope _ c _ => agree hw ho (hm ▸ F.program scope) c false) w.stack w.inLoop
  obtain ⟨heq, -⟩ | ⟨s, -, hs⟩ := whole m (Contract.lenient_state m)
  · exact hne heq
  · exact hs.elim

end FrameLaw

/-- A law of call stacks holds of all visits of a program. -/
theorem Machine.Visits.law {around : Surroundings} (F : FrameLaw around) {m : Machine} {n : Nat}
    {name text : String} {u : Visit} (hm : m.including = [])
    (h : m.Visits around n name text u) : F.holds u.stack u.machine.including := by
  induction h with
  | statement _ hn h =>
    subst hn
    exact F.statement hm h
  | inside _ h ih => exact F.makes h ih

/-! ## Modules that are being included -/

/-- A program leaves no module half included. -/
theorem Machine.including_run (m : Machine) (around : Surroundings) (n : Nat) (name text : String) :
    (m.run around n name text).2.including = m.including := by
  cases hp : (Source.mk name (Text.normalize text)).program with
  | error e => rw [run, hp]
  | ok statements =>
    have fair := Contract.free_fair (m := m)
      (Contract.free_program around n statements (.root "<program>" preludeScope .program) false)
    rw [run_of_program m around n hp, attempt_snd]
    exact fair.state.2

theorem Machine.Reached.including {m : Machine} (h : m.Reached) : m.including = [] := by
  induction h with
  | initial => rfl
  | run around allowance name text _ ih =>
    exact (including_run _ around allowance name text).trans ih

end TracedScript
