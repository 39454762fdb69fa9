import TracedScript.Proofs.Run.Contract

/-!
# Constructs keep a contract

Each construct agrees with itself under two evaluators that agree on the nodes that it evaluates:
its children in its own frame, the bodies of functions it calls, and the statements of modules it
includes. Constructs are made of few combinators, so each combinator has its lemma and a construct
is read off its definition.
-/

namespace TracedScript.Contract

variable {Γ : Contract} {names : List String} {stack outer : CallStack} {inLoop : Bool}
  {eval eval' : Node → Eval Value}

/-- Two evaluators agree on the given nodes. -/
def AgreeOn (Γ : Contract) (names : List String) (stack : CallStack) (inLoop : Bool)
    (nodes : List Node) (eval eval' : Node → Eval Value) : Prop :=
  ∀ c ∈ nodes, (Γ.terms names).Agree Γ.value (Γ.stop stack inLoop) (eval c) (eval' c)

theorem AgreeOn.subset {nodes few : List Node} (h : Γ.AgreeOn names stack inLoop nodes eval eval')
    (hs : ∀ c ∈ few, c ∈ nodes) : Γ.AgreeOn names stack inLoop few eval eval' :=
  fun c hc => h c (hs c hc)

theorem AgreeOn.singleton {nodes : List Node} {c : Node}
    (h : Γ.AgreeOn names stack inLoop nodes eval eval') (hc : c ∈ nodes) :
    Γ.AgreeOn names stack inLoop [c] eval eval' :=
  h.subset (by simpa using hc)

/-- Where nothing can be broken off, nothing is. -/
theorem stop_of_outside {s : Stop} (h : Γ.stop stack false s) : Γ.stop stack inLoop s := by
  cases s with
  | broke | continued => cases h
  | returned | failed | exhausted => exact h

theorem stop_complete {s : Stop} (h : Γ.stop stack inLoop s) (other : CallStack) (span : Span) :
    Γ.stop stack inLoop (s.complete other span) := by
  cases s <;> exact h

theorem agree_completed {α : Type} {value : α → Prop} {x y : Eval α}
    (h : (Γ.terms names).Agree value (Γ.stop outer inLoop) x y) (span : Span) :
    (Γ.terms names).Agree value (Γ.stop outer inLoop) (Eval.completed stack span x)
      (Eval.completed stack span y) :=
  h.adapt (fun _ hs => stop_complete hs stack span) fun _ _ => Γ.stuck_complete stack span

/-! ## Blocks and branches -/

theorem agree_block {body : List Node} (h : Γ.AgreeOn names stack inLoop body eval eval') :
    (Γ.terms names).Agree (fun _ => True) (Γ.stop stack inLoop) (Eval.block eval body)
      (Eval.block eval' body) :=
  Terms.Agree.forM fun c hc => (h c hc).discard

theorem agree_condition {test : Node} (h : Γ.AgreeOn names stack inLoop [test] eval eval') :
    (Γ.terms names).Agree (fun _ => True) (Γ.stop stack inLoop) (Eval.condition eval stack test)
      (Eval.condition eval' stack test) :=
  (h test (List.mem_singleton_self test)).bind fun _ _ =>
    agree_completed (Terms.Agree.ofExcept (fun _ _ => trivial) fun _ _ => trivial) test.span

theorem agree_branches {cases : List Branch} {otherwise : Option (List Node)}
    (h : Γ.AgreeOn names stack inLoop (cases.flatMap Branch.children ++ otherwise.getD [])
      eval eval') :
    (Γ.terms names).Agree (fun _ => True) (Γ.stop stack inLoop)
      (Eval.branches eval stack otherwise cases) (Eval.branches eval' stack otherwise cases) := by
  induction cases with
  | nil => exact agree_block h
  | cons b bs ih =>
    unfold Eval.branches
    refine (agree_condition (h.subset ?_)).bind fun holds _ => ?_
    · simp [Branch.children]
    · cases holds with
      | true => exact agree_block (h.subset (by simp +contextual [Branch.children]))
      | false => exact ih (h.subset (by simp +contextual))

/-! ## Loops and handlers -/

/-- A loop has room for the `break` and `continue` of its body, whatever is around it. -/
theorem agree_pass {body : List Node} (h : Γ.AgreeOn names stack true body eval eval') :
    (Γ.terms names).Agree (fun _ => True) (Γ.stop stack inLoop) (Eval.pass eval body)
      (Eval.pass eval' body) := by
  unfold Eval.pass
  refine Terms.Agree.tryCatch ((agree_block h).bind fun _ _ => .pure trivial)
    (fun s hs => ?_) fun s m hs => ?_
  · cases s with
    | continued => exact .pure trivial
    | broke => exact .pure trivial
    | returned | failed | exhausted => exact .throw hs
  · have := Γ.stuck_no_jump hs
    cases s with
    | returned | broke | continued => exact absurd trivial this
    | failed | exhausted => rfl

theorem agree_passes {bind bind' : Value → Eval Unit} {pass pass' : Eval Bool}
    {values : List Value}
    (hb : ∀ v ∈ values, (Γ.terms names).Agree (fun _ => True) (Γ.stop stack inLoop) (bind v)
      (bind' v))
    (hp : (Γ.terms names).Agree (fun _ => True) (Γ.stop stack inLoop) pass pass') :
    (Γ.terms names).Agree (fun _ => True) (Γ.stop stack inLoop) (Eval.passes bind pass values)
      (Eval.passes bind' pass' values) := by
  induction values with
  | nil => exact .pure trivial
  | cons v vs ih =>
    obtain ⟨hv, hvs⟩ := List.forall_mem_cons.mp hb
    unfold Eval.passes
    refine hv.bind fun _ _ => hp.bind fun again _ => ?_
    cases again with
    | true => exact ih hvs
    | false => exact .pure trivial

theorem agree_forEach {evaluator evaluator' : Evaluator} {n iterable : Node} {target : Target}
    {body : List Node} (hn : Γ.code n) (hs : Γ.frame stack.top.scope)
    (hd : target.declares = true → n.kind.Declares target.name)
    (hi : Γ.AgreeOn names stack false [iterable] (fun c => evaluator c stack false)
      (fun c => evaluator' c stack false))
    (hb : Γ.AgreeOn names stack true body (fun c => evaluator c stack true)
      (fun c => evaluator' c stack true)) :
    (Γ.terms names).Agree (fun _ => True) (Γ.stop stack inLoop)
      (Eval.forEach evaluator target iterable body stack)
      (Eval.forEach evaluator' target iterable body stack) := by
  unfold Eval.forEach
  refine ((hi iterable (List.mem_singleton_self iterable)).weaken (fun _ h => h)
    (fun s h => stop_of_outside h)).bind fun v hv => ?_
  split
  · exact .fail trivial
  · rename_i elements he
    refine agree_passes (fun u hu => ?_) (agree_pass hb)
    have := Value.Confined.relocate (Value.modest_allowed.elements? hv he u hu) iterable.span
      stack.display
    exact (agree_bindTarget hs this hn hd).bind fun _ _ => .pure trivial

/-- Two `while` loops that may make different numbers of passes differ only in running out. -/
theorem agree_repeatWhile {test test' pass pass' : Eval Bool} {n n' : Nat} (hle : n ≤ n')
    (hn : n = n' ∨ ∀ m, Γ.stuck .exhausted m) (he : Γ.exhaustion)
    (ht : (Γ.terms names).Agree (fun _ => True) (Γ.stop stack inLoop) test test')
    (hp : (Γ.terms names).Agree (fun _ => True) (Γ.stop stack inLoop) pass pass') :
    (Γ.terms names).Agree (fun _ => True) (Γ.stop stack inLoop) (Eval.repeatWhile test pass n)
      (Eval.repeatWhile test' pass' n') := by
  induction n generalizing n' with
  | zero =>
    obtain rfl | hstuck := hn
    · exact .throw he
    · exact fun m _ => .inr ⟨.exhausted, rfl, hstuck m⟩
  | succ n ih =>
    cases n' with
    | zero => omega
    | succ n' =>
      unfold Eval.repeatWhile
      refine ht.bind fun holds _ => ?_
      cases holds with
      | false => exact .pure trivial
      | true =>
        refine hp.bind fun again _ => ?_
        cases again with
        | false => exact .pure trivial
        | true => exact ih (by omega) (hn.imp_left fun h => by omega)

theorem agree_handled {body : List Node} (h : Γ.AgreeOn names stack inLoop body eval eval')
    (hs : ∀ e m, Γ.stuck (.failed e) m → e.isFatal = true) :
    (Γ.terms names).Agree Γ.value (Γ.stop stack inLoop) (Eval.handled eval body)
      (Eval.handled eval' body) := by
  unfold Eval.handled
  refine Terms.Agree.tryCatch
    ((agree_block h).bind fun _ _ => .pure Value.made_null.confined)
    (fun s hs => ?_) fun s m hm => ?_
  · cases s with
    | failed e =>
      dsimp only
      split
      · exact .throw trivial
      · exact agree_freshId.bind fun id _ => .pure (Value.made_exception id e).confined
    | returned | broke | continued | exhausted => exact .throw hs
  · cases s with
    | failed e =>
      dsimp only
      rw [if_pos (hs e m hm)]
      rfl
    | returned | broke | continued | exhausted => rfl

/-! ## Literals -/

theorem agree_array {items : List Node} (h : Γ.AgreeOn names stack inLoop items eval eval') :
    (Γ.terms names).Agree Γ.value (Γ.stop stack inLoop) (Eval.array eval items)
      (Eval.array eval' items) :=
  (Terms.Agree.mapM h).bind fun _ hvs =>
    .ofExcept (fun _ hv => Value.modest_allowed.array hv hvs) fun _ _ => trivial

theorem agree_tuple {items : List Node} (h : Γ.AgreeOn names stack inLoop items eval eval') :
    (Γ.terms names).Agree Γ.value (Γ.stop stack inLoop) (Eval.tuple eval items)
      (Eval.tuple eval' items) :=
  (Terms.Agree.mapM h).bind fun _ hvs =>
    .ofExcept (fun _ hv => Value.modest_allowed.tuple hv hvs) fun _ _ => trivial

theorem agree_dict {entries : List (Node × Node)}
    (h : Γ.AgreeOn names stack inLoop (entries.flatMap fun e => [e.1, e.2]) eval eval') :
    (Γ.terms names).Agree Γ.value (Γ.stop stack inLoop) (Eval.dict eval entries)
      (Eval.dict eval' entries) := by
  unfold Eval.dict
  refine (Terms.Agree.mapM (p := fun p : Value × Value => Γ.value p.1 ∧ Γ.value p.2) ?_).bind
    fun _ hps => .ofExcept (fun _ hv => Value.modest_allowed.dict hv hps) fun _ _ => trivial
  rintro ⟨key, value⟩ he
  have hkey := h key (List.mem_flatMap.mpr ⟨(key, value), he, by simp⟩)
  have hvalue := h value (List.mem_flatMap.mpr ⟨(key, value), he, by simp⟩)
  exact hkey.bind fun _ hk => hvalue.bind fun _ hv => .pure ⟨hk, hv⟩

theorem agree_typeTag {node : Node} (h : Γ.AgreeOn names stack inLoop [node] eval eval') :
    (Γ.terms names).Agree (fun _ => True) (Γ.stop stack inLoop) (Eval.typeTag eval node)
      (Eval.typeTag eval' node) := by
  unfold Eval.typeTag
  refine (h node (List.mem_singleton_self node)).bind fun v _ => ?_
  split
  · split
    · exact .pure trivial
    · exact .fail trivial
  · exact .fail trivial

/-- A function is made of code of the node it stands in, and closes over a scope that code runs
in. -/
theorem agree_function {literal : FunctionLiteral} {scope : ScopeId}
    (h : Γ.AgreeOn names stack inLoop literal.children eval eval')
    (hc : ∀ c ∈ literal.body, Γ.code c) (hs : Γ.scope scope) :
    (Γ.terms names).Agree Γ.value (Γ.stop stack inLoop) (Eval.function eval literal scope)
      (Eval.function eval' literal scope) := by
  have tag {node : Node} (hm : node ∈ literal.children) :=
    agree_typeTag (h.singleton hm)
  unfold Eval.function
  refine (Terms.Agree.mapM (p := fun _ => True) fun p hp => ?_).bind fun params _ => ?_
  · refine (Terms.Agree.optionMapM fun node hn => tag ?_).bind fun _ _ => .pure trivial
    simp only [FunctionLiteral.children, List.mem_append, List.mem_flatMap]
    exact .inl (.inl (.inl ⟨p, hp, Option.mem_toList.mpr hn⟩))
  refine (Terms.Agree.mapM (p := fun o : OptionValue => Γ.value o.default) fun o ho => ?_).bind
    fun options ho => ?_
  · refine (h o.default ?_).bind fun _ hv => .pure hv
    simp only [FunctionLiteral.children, List.mem_append]
    exact .inl (.inl (.inr (List.mem_map_of_mem ho)))
  refine (Terms.Agree.optionMapM fun node hn => tag ?_).bind fun returns _ => ?_
  · simp only [FunctionLiteral.children, List.mem_append]
    exact .inl (.inr (Option.mem_toList.mpr hn))
  refine agree_freshId.bind fun id _ => .pure (Value.confined_iff.mpr ⟨⟨hc, hs⟩, fun u hu => ?_⟩)
  obtain ⟨o, hm, rfl⟩ := List.mem_map.mp hu
  exact ho o hm

/-! ## Calls -/

/-- All values of an argument list are ones that may turn up. -/
structure Given (Γ : Contract) (args : Arguments) : Prop where
  positional : ∀ v ∈ args.positional, Γ.value v
  named : ∀ a ∈ args.named, Γ.value a.value

theorem agree_arguments {list : ArgumentList} {callee : Span}
    (h : Γ.AgreeOn names stack inLoop list.children eval eval') :
    (Γ.terms names).Agree Γ.Given (Γ.stop stack inLoop) (Eval.arguments eval list callee)
      (Eval.arguments eval' list callee) := by
  unfold Eval.arguments
  refine (Terms.Agree.mapM fun c hc => h c (List.mem_append_left _ hc)).bind fun _ hp => ?_
  refine (Terms.Agree.mapM (p := fun a : NamedValue => Γ.value a.value) fun a ha => ?_).bind
    fun _ hn => .pure ⟨hp, hn⟩
  exact (h a.value (List.mem_append_right _ (List.mem_map_of_mem ha))).bind fun _ hv => .pure hv

theorem agree_callBuiltin (around : Surroundings) (f : Builtin) {args : Arguments}
    (ha : Γ.Given args) :
    (Γ.terms names).Agree Γ.value (Γ.stop outer inLoop) (Eval.callBuiltin around f args stack)
      (Eval.callBuiltin around f args stack) := by
  unfold Eval.callBuiltin
  split
  · exact .fail trivial
  · split
    · exact .fail trivial
    · have result : (Γ.terms names).Agree Γ.value (Γ.stop outer inLoop)
          (do
            let result ← Eval.ofExcept (f.result args.positional args.span)
            return result.relocate args.span stack.display)
          (do
            let result ← Eval.ofExcept (f.result args.positional args.span)
            return result.relocate args.span stack.display) :=
        (Terms.Agree.ofExcept (fun _ hv => Value.modest_allowed.result hv ha.positional)
          fun _ _ => trivial).bind fun _ hv => .pure (Value.Confined.relocate hv _ _)
      apply agree_completed
      dsimp only
      split
      · exact (agree_printLine around _).bind fun _ _ => result
      · exact result

/-- A call ends the `return` of its body; a `break` or `continue` there has nowhere to go. So no
jump leaves a call, and the frame and the loops around it do not matter. -/
theorem agree_runBody {body : List Node} (callee : CallStack)
    (h : Γ.AgreeOn names callee false body eval eval') :
    (Γ.terms names).Agree Γ.value (Γ.stop outer inLoop) (Eval.runBody eval body)
      (Eval.runBody eval' body) := by
  unfold Eval.runBody
  refine Terms.Agree.tryCatch
    ((agree_block h).bind fun _ _ => .pure Value.made_null.confined)
    (fun s hs => ?_) fun s m hm => ?_
  · cases s with
    | returned v => exact .pure hs.2
    | broke | continued => cases hs
    | failed | exhausted => exact .throw hs
  · have := Γ.stuck_no_jump hm
    cases s with
    | returned | broke | continued => exact absurd trivial this
    | failed | exhausted => rfl

section Frames

variable {around : Surroundings} {evaluator evaluator' : Evaluator}

/-- Two evaluators agree on code of functions called from a frame. -/
def AgreeInCalls (Γ : Contract) (names : List String) (stack : CallStack) (around : Surroundings)
    (evaluator evaluator' : Evaluator) : Prop :=
  ∀ name scope span, Γ.frame scope → stack.top.depth < around.settings.maxDepth →
    ∀ c, Γ.code c → (Γ.terms names).Agree Γ.value
      (Γ.stop (stack.call name scope span .function) false)
      (evaluator c (stack.call name scope span .function) false)
      (evaluator' c (stack.call name scope span .function) false)

theorem agree_callFunction (hc : Γ.AgreeInCalls names stack around evaluator evaluator')
    {callee : Value} {f : Function} (hv : Γ.value callee) (hd : callee.data = .func f)
    {args : Arguments} (ha : Γ.Given args) (name : String) :
    (Γ.terms names).Agree Γ.value (Γ.stop outer inLoop)
      (Eval.callFunction around evaluator f name args stack)
      (Eval.callFunction around evaluator' f name args stack) := by
  obtain ⟨hbody, hclosure⟩ := hv.body hd
  unfold Eval.callFunction
  dsimp only
  split
  · exact .fail_bind trivial
  · rename_i hdepth
    refine (Terms.Agree.ofExcept (p := fun bs => Bindings.Confined Γ.code Γ.scope bs)
      (fun bs hb => ?_) fun _ _ => trivial).bind fun bs hb => ?_
    · exact Value.modest_allowed.bind hb (fun o ho => hv.default hd ho) ha.positional ha.named
    refine agree_open (by simpa using hclosure) hb fun scope hscope => ?_
    refine (agree_runBody (stack.call name scope args.span .function) fun c hm => ?_).bind
      fun result hr => ?_
    · exact hc name scope args.span hscope (Nat.lt_of_not_le hdepth) c (hbody c hm)
    have done := Terms.Agree.pure (T := Γ.terms names) (q := Γ.stop outer inLoop)
      (hr.relocate args.span stack.display)
    split
    · split
      · exact .fail_bind trivial
      · exact done
    · exact done

theorem agree_call (hc : Γ.AgreeInCalls names stack around evaluator evaluator')
    {callee : Value} (hv : Γ.value callee) {args : Arguments} (ha : Γ.Given args) :
    (Γ.terms names).Agree Γ.value (Γ.stop outer inLoop)
      (Eval.call around evaluator callee args stack)
      (Eval.call around evaluator' callee args stack) := by
  unfold Eval.call
  split
  · exact agree_callBuiltin around _ ha
  · rename_i f hd
    exact agree_callFunction hc hv hd ha _
  · exact .fail trivial

theorem agree_callAll (hc : Γ.AgreeInCalls names stack around evaluator evaluator')
    {lists : List ArgumentList}
    (h : Γ.AgreeOn names stack inLoop (lists.flatMap ArgumentList.children)
      (fun c => evaluator c stack inLoop) (fun c => evaluator' c stack inLoop))
    (span : Span) {v : Value} (hv : Γ.value v) :
    (Γ.terms names).Agree Γ.value (Γ.stop stack inLoop)
      (Eval.callAll around evaluator span stack inLoop v lists)
      (Eval.callAll around evaluator' span stack inLoop v lists) := by
  induction lists generalizing v with
  | nil => exact .pure hv
  | cons list lists ih =>
    unfold Eval.callAll
    refine (agree_arguments (h.subset (by simp +contextual))).bind fun args ha => ?_
    refine (agree_call hc hv ha).bind fun result hr => ?_
    exact ih (h.subset (by simp +contextual)) hr

/-! ## Modules -/

/-- Two evaluators agree on the statements of the module of a name, included from a frame. -/
def AgreeInModule (Γ : Contract) (names : List String) (stack : CallStack)
    (around : Surroundings) (name : String) (evaluator evaluator' : Evaluator) : Prop :=
  ∀ path text statements scope span,
    Module.findScript around.files around.settings.directories name = some (path, text) →
    (Source.mk path (Text.normalize text)).program = .ok statements → Γ.frame scope →
    ∀ c ∈ statements, (Γ.terms (names ++ [name])).Agree Γ.value
      (Γ.stop (stack.call s!"<module {name}>" scope span .module) false)
      (evaluator c (stack.call s!"<module {name}>" scope span .module) false)
      (evaluator' c (stack.call s!"<module {name}>" scope span .module) false)

/-- At the top level no jump is left, so nothing is turned into an error. -/
theorem agree_topLevel {frame : CallStack} (hf : frame.inFunction = false)
    {statements : List Node}
    (h : Γ.AgreeOn names frame false statements (fun c => evaluator c frame false)
      (fun c => evaluator' c frame false)) :
    (Γ.terms names).Agree (fun vs => ∀ v ∈ vs, Γ.value v) (Γ.stop outer inLoop)
      (Eval.topLevel evaluator frame statements) (Eval.topLevel evaluator' frame statements) := by
  refine Terms.Agree.mapM fun c hc => (h c hc).adapt (fun s hs => ?_) fun s m hs => ?_
  · cases s with
    | returned => exact absurd hs.1 (by simp [hf])
    | broke | continued => cases hs
    | failed | exhausted => exact hs
  · have := Γ.stuck_no_jump hs
    cases s with
    | returned | broke | continued => exact absurd trivial this
    | failed | exhausted => exact hs

/-- Each run leaves the list of modules being included as it finds it, so the name that is popped is
the one that has been pushed. -/
theorem agree_whileIncluding {α : Type} {p : α → Prop} {q : Stop → Prop} {name : String}
    {x y : Eval α} (h : (Γ.terms (names ++ [name])).Agree p q x y) :
    (Γ.terms names).Agree p q (Eval.whileIncluding name x) (Eval.whileIncluding name y) := by
  intro m hm
  let inner : Machine := { m with including := m.including ++ [name] }
  have run (z : Eval α) : Eval.whileIncluding name z m =
      ((z inner).1, { (z inner).2 with including := (z inner).2.including.dropLast }) := rfl
  unfold Terms.AgreeFrom
  rw [run, run]
  obtain ⟨heq, hfair⟩ | ⟨s, hs, hstuck⟩ := h inner ⟨hm.1, by rw [← hm.2]⟩
  · rw [← heq]
    have popped : (x inner).2.including.dropLast = names := by
      rw [hfair.state.2, List.dropLast_concat]
    exact .inl ⟨rfl, ⟨hfair.state.1, popped⟩, hfair.value, hfair.stop⟩
  · exact .inr ⟨s, hs, Γ.stuck_including _ hstuck⟩

theorem agree_runScript {name path text : String}
    (hm : Γ.AgreeInModule names stack around name evaluator evaluator')
    (hp : Γ.scope Machine.preludeScope)
    (hf : Module.findScript around.files around.settings.directories name = some (path, text))
    {span : Span} :
    (Γ.terms names).Agree Γ.scope (Γ.stop outer inLoop)
      (Eval.runScript evaluator name ⟨path, Text.normalize text⟩ stack span)
      (Eval.runScript evaluator' name ⟨path, Text.normalize text⟩ stack span) := by
  unfold Eval.runScript
  refine (agree_openScope (by simpa using hp)).bind fun scope hscope => ?_
  dsimp only
  split
  · exact .fail trivial
  · rename_i statements hstatements
    refine (agree_whileIncluding (agree_topLevel ?_ fun c hc => ?_)).bind
      fun _ _ => .pure (Γ.scope_frame hscope)
    · simp [CallStack.inFunction, CallStack.call]
    · exact hm path text statements scope span hf hstatements hscope c hc

theorem agree_moduleScope {name : String}
    (hm : Γ.AgreeInModule names stack around name evaluator evaluator')
    (hp : Γ.scope Machine.preludeScope) {span : Span} :
    (Γ.terms names).Agree Γ.scope (Γ.stop outer inLoop)
      (Eval.moduleScope around evaluator name stack span)
      (Eval.moduleScope around evaluator' name stack span) := by
  unfold Eval.moduleScope
  dsimp only
  split
  · rename_i path text hf
    exact agree_runScript hm hp hf
  · split
    · rename_i bs hb
      exact agree_open (by simp) (Value.modest_allowed.native hb) fun id hid =>
        .pure (Γ.scope_frame hid)
    · exact .fail trivial

theorem isValidName_of_moduleName {v : Value} {span : Span} {name : String}
    (h : Eval.moduleName v span = .ok name) : Module.isValidName name = true := by
  unfold Eval.moduleName at h
  split at h
  · split at h
    · rename_i hvalid
      cases h
      exact hvalid
    · cases h
  · cases h

/-- Two evaluators agree on the modules that may be included while others are being included. -/
def AgreeInModules (Γ : Contract) (names : List String) (stack : CallStack)
    (around : Surroundings) (evaluator evaluator' : Evaluator) : Prop :=
  ∀ name, Module.isValidName name = true → name ∉ names →
    Γ.AgreeInModule names stack around name evaluator evaluator'

theorem agree_includeModule
    (hm : Γ.AgreeInModules names stack around evaluator evaluator')
    (hp : Γ.scope Machine.preludeScope) (hs : Γ.frame stack.top.scope) {n module : Node}
    (hn : Γ.code n) (hk : n.kind.IsInclude)
    (h : Γ.AgreeOn names stack inLoop [module] (fun c => evaluator c stack inLoop)
      (fun c => evaluator' c stack inLoop)) {span : Span} :
    (Γ.terms names).Agree Γ.value (Γ.stop stack inLoop)
      (Eval.includeModule around evaluator module stack span inLoop)
      (Eval.includeModule around evaluator' module stack span inLoop) := by
  unfold Eval.includeModule
  refine (h module (List.mem_singleton_self module)).bind fun v _ => ?_
  refine (Terms.Agree.ofExcept (fun _ => isValidName_of_moduleName) fun _ _ => trivial).bind
    fun name hvalid => ?_
  apply Terms.Agree.get
  intro m hstate
  dsimp only
  split
  · exact Terms.Agree.fail_bind trivial m hstate
  · rename_i hnot
    have hname : name ∉ names := hstate.2 ▸ hnot
    refine ((agree_moduleScope (hm name hvalid hname) hp).bind fun id hid => ?_) m hstate
    have hv : Γ.value (.ofData (.namespace name id)) :=
      Value.confined_iff.mpr ⟨hid, List.forall_mem_nil _⟩
    exact agree_declare hs (hv.place _ _) hn (.inr hk)

/-! ## All constructs -/

theorem agree_construct {node : Node} {n n' : Nat} (hn : Γ.code node)
    (hs : Γ.frame stack.top.scope)
    (hc : ∀ b, Γ.AgreeOn names stack b node.children (fun c => evaluator c stack b)
      (fun c => evaluator' c stack b))
    (hcalls : Γ.AgreeInCalls names stack around evaluator evaluator')
    (hmodules : node.kind.IsInclude → Γ.scope Machine.preludeScope ∧
      Γ.AgreeInModules names stack around evaluator evaluator')
    (hhandler : node.kind.IsHandler → ∀ e m, Γ.stuck (.failed e) m → e.isFatal = true)
    (hwhile : node.kind.IsWhile →
      Γ.exhaustion ∧ n ≤ n' ∧ (n = n' ∨ ∀ m, Γ.stuck .exhausted m)) :
    (Γ.terms names).Agree Γ.value (Γ.stop stack inLoop)
      (Eval.construct around n evaluator node stack inLoop)
      (Eval.construct around n' evaluator' node stack inLoop) := by
  obtain ⟨kind, span⟩ := node
  have inner {c : Node} (h : c ∈ kind.children) := hc inLoop c h
  have null : Γ.value (Value.null.place span stack.display) :=
    (Value.made_null.confined).place _ _
  cases kind with
  | int i => exact .pure ((Value.made_int i).confined.place _ _)
  | float x => exact .pure ((Value.made_float x).confined.place _ _)
  | str s => exact .pure ((Value.made_str s).confined.place _ _)
  | array items => exact (agree_array (hc inLoop)).bind fun _ hv => .pure (hv.place _ _)
  | tuple items => exact (agree_tuple (hc inLoop)).bind fun _ hv => .pure (hv.place _ _)
  | dict entries => exact (agree_dict (hc inLoop)).bind fun _ hv => .pure (hv.place _ _)
  | function literal =>
    refine (agree_function (hc inLoop) (fun c hm => ?_) (Γ.scope_frame hs)).bind
      fun _ hv => .pure (hv.place _ _)
    exact Γ.code_child hn (List.mem_append_right _ hm)
  | read name => exact agree_read hs
  | assign name value =>
    exact (inner (List.mem_singleton_self value)).bind fun _ hv => agree_assign hs hv
  | declare name value =>
    exact (inner (List.mem_singleton_self value)).bind fun _ hv =>
      agree_declare hs hv hn (.inl rfl)
  | declareNull name => exact agree_declare hs null hn (.inl rfl)
  | unary op operand =>
    exact (inner (List.mem_singleton_self operand)).bind fun _ hv =>
      (Terms.Agree.ofExcept (fun _ hw => Value.modest_allowed.applyUnary hv hw)
        fun _ _ => trivial).bind fun _ hw => .pure (Value.Confined.place hw _ _)
  | binary left op right =>
    refine (inner (List.mem_cons_self ..)).bind fun _ _ => ?_
    refine (inner (List.mem_cons_of_mem _ (List.mem_singleton_self right))).bind fun _ _ => ?_
    exact (Terms.Agree.ofExcept (fun _ hw => (Value.made_applyBinary hw).confined)
      fun _ _ => trivial).bind fun _ hw => .pure (Value.Confined.place hw _ _)
  | member target name =>
    refine (inner (List.mem_singleton_self target)).bind fun v hv => ?_
    apply Terms.Agree.get
    intro m hm
    exact ((Terms.Agree.ofExcept (fun _ hw => hm.1.member hv hw) fun _ _ => trivial).bind
      fun _ hw => .pure (hw.relocate _ _)) m hm
  | index target slot =>
    refine (inner (List.mem_cons_self ..)).bind fun v hv => ?_
    refine (inner (List.mem_cons_of_mem _ (List.mem_singleton_self slot))).bind fun i _ => ?_
    exact (Terms.Agree.ofExcept (fun _ hw => Value.modest_allowed.index hv hw)
      fun _ _ => trivial).bind fun _ hw => .pure (Value.Confined.relocate hw _ _)
  | call callee lists =>
    refine (inner (List.mem_cons_self ..)).bind fun v hv => ?_
    exact agree_callAll hcalls ((hc inLoop).subset fun c hm => List.mem_cons_of_mem _ hm) _ hv
  | «return» value =>
    unfold Eval.construct
    dsimp only
    split
    · rename_i hin
      cases value with
      | none => exact (Terms.Agree.pure null).bind fun _ hv => .throw ⟨hin, hv⟩
      | some value =>
        exact (inner (List.mem_singleton_self value)).bind fun _ hv => .throw ⟨hin, hv⟩
    · exact .fail trivial
  | «break» | «continue» =>
    unfold Eval.construct
    dsimp only
    split
    · rename_i hin
      exact .throw hin
    · exact .fail trivial
  | «if» cases otherwise =>
    exact (agree_branches (hc inLoop)).bind fun _ _ => .pure null
  | switch target subject cases otherwise =>
    refine (inner (List.mem_cons_self ..)).bind fun v hv => ?_
    refine (agree_bindTarget hs hv hn fun h => ⟨h, rfl⟩).bind fun _ _ => ?_
    exact (agree_branches ((hc inLoop).subset fun c hm => List.mem_cons_of_mem _ hm)).bind
      fun _ _ => .pure null
  | «for» target iterable body =>
    refine (agree_forEach hn hs (fun h => ⟨h, rfl⟩) ((hc false).singleton ?_)
      ((hc true).subset fun c hm => ?_)).bind fun _ _ => .pure null
    · exact List.mem_cons_self ..
    · exact List.mem_cons_of_mem _ hm
  | «while» test body =>
    obtain ⟨he, hle, heq⟩ := hwhile trivial
    have htest := agree_condition ((hc false).singleton (List.mem_cons_self ..))
    have hbody := (hc true).subset fun c (hm : c ∈ body) => List.mem_cons_of_mem test hm
    exact (agree_repeatWhile hle heq he (htest.weaken (fun _ h => h) fun _ => stop_of_outside)
      (agree_pass hbody)).bind fun _ _ => .pure null
  | handler body =>
    exact (agree_handled (hc inLoop) (hhandler trivial)).bind fun _ hv => .pure (hv.place _ _)
  | «include» module =>
    obtain ⟨hp, hm⟩ := hmodules trivial
    exact agree_includeModule hm hp hs hn trivial (hc inLoop)

end Frames

end TracedScript.Contract
