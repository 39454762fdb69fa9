import TracedScript.Proofs.Run.Beside

/-!
# Evaluations that are alike

Code that corresponds, run in frames that correspond, runs alike: `beside_evaluate`. Evaluations look
at a frame only for its name, its depth, its scope, and whether `return` may be used there, so no
more than this has to correspond. Programs are treated in `beside_program`.
-/

namespace TracedScript

/-! ## Arguments -/

section

variable (K : Likeness)

structure NamedValue.Like (a a' : NamedValue) : Prop where
  name : a.name = a'.name
  value : a.value.Like K a'.value
  span : K.span a.span a'.span

structure Arguments.Like (args args' : Arguments) : Prop where
  positional : List.Forall₂ (Value.Like K) args.positional args'.positional
  named : List.Forall₂ (NamedValue.Like K) args.named args'.named
  span : K.span args.span args'.span

end

theorem Likeness.Reflexive.arguments {K : Likeness} (h : K.Reflexive) (args : Arguments) :
    args.Like K args := by
  constructor
  · exact List.forall₂_same.mpr fun v _ => h.value v
  · exact List.forall₂_same.mpr fun a _ => ⟨rfl, h.value a.value, K.span_refl a.span⟩
  · exact K.span_refl args.span

namespace Function

variable {K : Likeness}

theorem like_bindParameters (function : String) (params : List Parameter) {vs vs' : List Value}
    (h : List.Forall₂ (Value.Like K) vs vs') :
    K.Results (Bindings.Like K) (bindParameters function params vs)
      (bindParameters function params vs') := by
  induction params generalizing vs vs' with
  | nil => exact .ok .nil
  | cons p ps ih =>
    cases h with
    | nil => exact .ok .nil
    | @cons v v' vs vs' hv hvs =>
      have rest : K.Results (Bindings.Like K)
          ((bindParameters function ps vs).map ((p.name, v.named p.name) :: ·))
          ((bindParameters function ps vs').map ((p.name, v'.named p.name) :: ·)) :=
        (ih hvs).map fun bs bs' hbs => .cons ⟨rfl, hv.named p.name⟩ hbs
      unfold bindParameters
      rw [← hv.kind]
      split
      · split
        · exact rest
        · rw [hv.kind]
          exact .error (hv.blameHere _)
      · exact rest

theorem like_bindOptions {f f' : Function}
    (hf : List.Forall₂ (OptionValue.Alike (Value.Like K)) f.options f'.options) (function : String)
    {as as' : List NamedValue} (h : List.Forall₂ (NamedValue.Like K) as as') :
    K.Results (Bindings.Like K) (f.bindOptions function as) (f'.bindOptions function as') := by
  have known {os os' : List OptionValue}
      (hos : List.Forall₂ (OptionValue.Alike (Value.Like K)) os os') (name : String) :
      (os.any fun o => o.name = name) = os'.any fun o => o.name = name := by
    induction hos with
    | nil => rfl
    | cons ho _ ih =>
      obtain ⟨-⟩ := ho
      rw [List.any_cons, List.any_cons, ih]
  induction h with
  | nil => exact .ok .nil
  | cons ha _ ih =>
    unfold bindOptions
    rw [← ha.name, known hf]
    split
    · exact ih.map fun bs bs' hbs => .cons ⟨rfl, ha.value.named _⟩ hbs
    · exact .error (.failAt _ ha.span)

theorem like_bind {f f' : Function} (hf : f.Alike K (Value.Like K) f') (function : String)
    {args args' : Arguments} (h : args.Like K args') :
    K.Results (Bindings.Like K) (f.bind function args) (f'.bind function args') := by
  obtain ⟨-, hos, -, -⟩ := hf
  rename_i params options options' _ _ _ _ _
  have defaults : Bindings.Like K (options.map fun o => (o.name, o.default.named o.name))
      (options'.map fun o => (o.name, o.default.named o.name)) := by
    refine List.rel_map ?_ hos
    rintro _ _ ⟨hv⟩
    exact ⟨rfl, hv.named _⟩
  unfold Function.bind
  rw [← h.positional.length_eq]
  split
  · exact .error (.failAt _ h.span)
  · refine (like_bindParameters function params h.positional).bind fun bs bs' hbs => ?_
    refine (like_bindOptions hos function h.named).bind fun os os' hos => .ok ?_
    exact List.rel_append (List.rel_append hbs defaults) hos

end Function

namespace Comparison

variable {C : Comparison} {c c' : CallStack} {t t' : Span}

/-- Nodes that correspond are evaluated alike. -/
def Nodes (C : Comparison) (eval eval' : Node → Eval Value) : Prop :=
  ∀ n n', C.code n n' → C.Beside (Value.Like C.toLikeness) (eval n) (eval' n')

/-- Nodes that correspond are evaluated alike in frames that correspond. -/
def Evaluators (C : Comparison) (evaluator evaluator' : Evaluator) : Prop :=
  ∀ c c' inLoop, C.Frames c c' →
    C.Nodes (fun n => evaluator n c inLoop) (fun n => evaluator' n c' inLoop)

/-- What both runs are given is the same, but for how much can be printed. -/
structure Around (C : Comparison) (around around' : Surroundings) : Prop where
  settings : around.settings = around'.settings
  files : around.files = around'.files
  print : ∀ line {t t' : Span}, C.span t t' → C.Beside (fun _ _ => True)
    (Eval.printLine around line t) (Eval.printLine around' line t')

section Nodes

variable {eval eval' : Node → Eval Value}

/-! ## Conditions and types -/

theorem beside_condition (h : C.Nodes eval eval') (hc : C.stack c c') {test test' : Node}
    (ht : C.code test test') :
    C.Beside Eq (Eval.condition eval c test) (Eval.condition eval' c' test') :=
  (h test test' ht).bind fun _ _ hv => (Beside.ofExcept hv.truth).completed hc (C.code_span ht)

theorem beside_typeTag (h : C.Nodes eval eval') {node node' : Node} (hn : C.code node node') :
    C.Beside Eq (Eval.typeTag eval node) (Eval.typeTag eval' node') := by
  unfold Eval.typeTag
  refine (h node node' hn).bind_keeping (fun v' => ?_) fun v v' hv => ?_
  · split
    · split <;> infer_instance
    · infer_instance
  have other : C.Beside (Eq (α := Kind)) (Eval.fail (v.blame (.notAType v.repr) node.span))
      (Eval.fail (v'.blame (.notAType v'.repr) node'.span)) := by
    rw [hv.repr]
    exact .fail (hv.blame _ (C.code_span hn))
  obtain ⟨hd, ht⟩ := hv
  cases hd with
  | builtin f =>
    dsimp only
    cases f.produces? with
    | none => exact other
    | some kind => exact .pure rfl
  | _ => exact other

variable [∀ n, Eval.KeepsOutput (eval' n)]

/-! ## Blocks and branches -/

theorem beside_block (h : C.Nodes eval eval') {body body' : List Node}
    (hb : List.Forall₂ C.code body body') :
    C.Beside (fun _ _ => True) (Eval.block eval body) (Eval.block eval' body') :=
  Beside.forM (fun n n' hn => (h n n' hn).discard) hb

theorem beside_branches (h : C.Nodes eval eval') (hc : C.stack c c')
    {otherwise otherwise' : Option (List Node)}
    (ho : Option.Rel (List.Forall₂ C.code) otherwise otherwise') {bs bs' : List Branch}
    (hb : List.Forall₂ (Branch.Alike C.code) bs bs') :
    C.Beside (fun _ _ => True) (Eval.branches eval c otherwise bs)
      (Eval.branches eval' c' otherwise' bs') := by
  induction hb with
  | nil =>
    apply beside_block h
    cases ho with
    | none => exact .nil
    | some ho => exact ho
  | cons hb _ ih =>
    unfold Eval.branches
    refine (beside_condition h hc hb.condition).bind fun holds holds' heq => ?_
    subst heq
    cases holds with
    | true => exact beside_block h hb.body
    | false => exact ih

/-! ## Loops and handlers -/

theorem beside_pass (h : C.Nodes eval eval') {body body' : List Node}
    (hb : List.Forall₂ C.code body body') :
    C.Beside Eq (Eval.pass eval body) (Eval.pass eval' body') := by
  have passed : C.Beside Eq (do Eval.block eval body; return true)
      (do Eval.block eval' body'; return true) :=
    (beside_block h hb).bind fun _ _ _ => .pure rfl
  apply passed.tryCatch
  · intro s
    cases s <;> dsimp only <;> infer_instance
  · intro s s' hs
    have other : C.Beside (Eq (α := Bool)) (throw s) (throw s') := .throw hs
    cases hs with
    | continued => exact .pure rfl
    | broke => exact .pure rfl
    | _ => exact other
  · exact fun _ _ => rfl

/-- A body that ends gives `null`. -/
theorem beside_block_null (h : C.Nodes eval eval') {body body' : List Node}
    (hb : List.Forall₂ C.code body body') :
    C.Beside (Value.Like C.toLikeness) (do Eval.block eval body; return .null)
      (do Eval.block eval' body'; return .null) :=
  (beside_block h hb).bind fun _ _ _ => .pure .null

theorem beside_handled (h : C.Nodes eval eval') {body body' : List Node}
    (hb : List.Forall₂ C.code body body') :
    C.Beside (Value.Like C.toLikeness) (Eval.handled eval body) (Eval.handled eval' body') := by
  apply (beside_block_null h hb).tryCatch
  · intro s
    cases s <;> dsimp only <;> infer_instance
  · intro s s' hs
    have other : C.Beside (Value.Like C.toLikeness) (throw s) (throw s') := .throw hs
    cases hs with
    | failed he =>
      dsimp only
      rw [← he.isFatal]
      split
      · exact other
      · exact beside_freshId.bind fun _ _ hid => .pure (.ofData (.exception hid he))
    | _ => exact other
  · intro e he
    dsimp only
    rw [if_pos he]

/-- A call ends the `return` of its body. -/
theorem beside_runBody (h : C.Nodes eval eval') {body body' : List Node}
    (hb : List.Forall₂ C.code body body') :
    C.Beside (Value.Like C.toLikeness) (Eval.runBody eval body) (Eval.runBody eval' body') := by
  apply (beside_block_null h hb).tryCatch
  · intro s
    cases s <;> dsimp only <;> infer_instance
  · intro s s' hs
    have other : C.Beside (Value.Like C.toLikeness) (throw s) (throw s') := .throw hs
    cases hs with
    | returned hv => exact .pure hv
    | _ => exact other
  · exact fun _ _ => rfl

/-! ## Literals -/

theorem beside_array (h : C.Nodes eval eval') {items items' : List Node}
    (hi : List.Forall₂ C.code items items') :
    C.Beside (Value.Like C.toLikeness) (Eval.array eval items) (Eval.array eval' items') :=
  (Beside.mapM h hi).bind fun _ _ hvs => .ofExcept (Value.Like.array hvs)

theorem beside_tuple (h : C.Nodes eval eval') {items items' : List Node}
    (hi : List.Forall₂ C.code items items') :
    C.Beside (Value.Like C.toLikeness) (Eval.tuple eval items) (Eval.tuple eval' items') :=
  (Beside.mapM h hi).bind fun _ _ hvs => .ofExcept (Value.Like.tuple hvs)

theorem beside_dict (h : C.Nodes eval eval') {entries entries' : List (Node × Node)}
    (he : List.Forall₂ (fun e e' => C.code e.1 e'.1 ∧ C.code e.2 e'.2) entries entries') :
    C.Beside (Value.Like C.toLikeness) (Eval.dict eval entries) (Eval.dict eval' entries') := by
  refine (Beside.mapM (fun e e' hn => ?_) he).bind fun _ _ hps =>
    .ofExcept (Value.Like.dict hps)
  exact (h _ _ hn.1).bind fun _ _ hk => (h _ _ hn.2).bind fun _ _ hv => .pure ⟨hk, hv⟩

/-- Functions made from literals that correspond go on using scopes that do. -/
theorem beside_function (h : C.Nodes eval eval') {literal literal' : FunctionLiteral}
    (hl : literal.Alike C.code literal') {a a' : ScopeId} (ha : C.scope a a') :
    C.Beside (Value.Like C.toLikeness) (Eval.function eval literal a)
      (Eval.function eval' literal' a') := by
  have tag (n n' : Node) (hn : C.code n n') := beside_typeTag h hn
  have same {o o' : Option Kind} (ho : Option.Rel Eq o o') : o = o' :=
    Likeness.eq_of_rel (fun _ _ => id) ho
  unfold Eval.function
  refine (Beside.mapM (p := Eq) (fun q q' hq => ?_) hl.params).bind fun params params' hp => ?_
  · refine (Beside.optionMapM tag hq.type).bind fun k k' hk => .pure ?_
    rw [hq.name, same hk]
  refine (Beside.mapM (p := OptionValue.Alike (Value.Like C.toLikeness)) (fun o o' ho => ?_)
    hl.options).bind fun options options' hos => ?_
  · refine (h _ _ ho.default).bind fun v v' hv => .pure ?_
    rw [ho.name]
    exact .mk hv
  refine (Beside.optionMapM tag hl.returns).bind fun returns returns' hr => ?_
  refine beside_freshId.bind fun id id' hid => .pure (.ofData (.func ?_))
  rw [List.forall₂_eq_eq_eq] at hp
  obtain rfl := hp
  obtain rfl := same hr
  exact .mk hid hos hl.body ha

/-! ## Calls -/

theorem beside_arguments (h : C.Nodes eval eval') {list list' : ArgumentList}
    (hl : list.Alike C.code C.span list') {callee callee' : Span} (hc : C.span callee callee') :
    C.Beside (Arguments.Like C.toLikeness) (Eval.arguments eval list callee)
      (Eval.arguments eval' list' callee') := by
  unfold Eval.arguments
  refine (Beside.mapM h hl.positional).bind fun vs vs' hvs => ?_
  refine (Beside.mapM (p := NamedValue.Like C.toLikeness) (fun a a' ha => ?_) hl.named).bind
    fun as as' has => .pure ⟨hvs, has, C.span_through hc hl.span⟩
  exact (h _ _ ha.value).bind fun v v' hv => .pure ⟨ha.name, hv, ha.span⟩

end Nodes

/-- What comes after a failure does not matter. -/
theorem Beside.fail_bind {α β γ δ : Type} {q : γ → δ → Prop} {e e' : Failure}
    (h : e.Like C.toLikeness e') {f : α → Eval γ} {g : β → Eval δ} :
    C.Beside q (Eval.fail e >>= f) (Eval.fail e' >>= g) :=
  fun _ _ hm => .inl (.error (.failed h) hm)

variable {around around' : Surroundings}

theorem beside_callBuiltin (ho : C.Around around around') (f : Builtin) {args args' : Arguments}
    (ha : args.Like C.toLikeness args') (hc : C.stack c c') :
    C.Beside (Value.Like C.toLikeness) (Eval.callBuiltin around f args c)
      (Eval.callBuiltin around' f args' c') := by
  have result : C.Beside (Value.Like C.toLikeness)
      (do
        let result ← Eval.ofExcept (f.result args.positional args.span)
        return result.relocate args.span c.display)
      (do
        let result ← Eval.ofExcept (f.result args'.positional args'.span)
        return result.relocate args'.span c'.display) := by
    refine (Beside.ofExcept (Builtin.like_result f ha.positional ha.span)).bind
      fun v v' hv => .pure ?_
    rw [C.stack_display hc]
    exact hv.relocate ha.span _
  have line := Builtin.like_printedLine? f ha.positional
  have named := ha.named
  unfold Eval.callBuiltin
  generalize args.named = as at named ⊢
  generalize args'.named = as' at named ⊢
  cases named with
  | cons h =>
    dsimp only
    rw [h.name]
    exact .fail (.failAt _ h.span)
  | nil =>
    dsimp only
    rw [line, ha.positional.length_eq]
    split
    · exact .fail (.failAt _ ha.span)
    · refine Beside.completed ?_ hc ha.span
      cases f.printedLine? args'.positional with
      | none => exact result
      | some text => exact (ho.print text ha.span).bind fun _ _ _ => result

section Frames

variable {evaluator evaluator' : Evaluator}
  [∀ n c inLoop, Eval.KeepsOutput (evaluator' n c inLoop)]

/-- Of the frame that calls a function, the function sees the name and the depth only. -/
theorem beside_callFunction (ho : C.Around around around') (he : C.Evaluators evaluator evaluator')
    {f f' : Function} (hf : f.Alike C.toLikeness (Value.Like C.toLikeness) f') (name : String)
    {args args' : Arguments} (ha : args.Like C.toLikeness args') (hc : C.stack c c') :
    C.Beside (Value.Like C.toLikeness) (Eval.callFunction around evaluator f name args c)
      (Eval.callFunction around' evaluator' f' name args' c') := by
  have bound := Function.like_bind hf name ha
  obtain ⟨-, -, hbody, hclosure⟩ := hf
  rename_i returns body body' closure closure'
  -- what is done with the result depends on whether its type was declared, the way to it does not
  have run {o o' : Except Failure Bindings}
      (hbound : C.Results (Bindings.Like C.toLikeness) o o') {finish finish' : Value → Eval Value}
      [∀ v, Eval.KeepsOutput (finish' v)]
      (hfinish : ∀ v v', v.Like C.toLikeness v' →
        C.Beside (Value.Like C.toLikeness) (finish v) (finish' v')) :
      C.Beside (Value.Like C.toLikeness)
        (do
          let bindings ← Eval.ofExcept o
          let scope ← Eval.openScope (some closure)
          Eval.defineAll scope bindings
          let result ← Eval.runBody
            (fun node => evaluator node (c.call name scope args.span .function) false) body
          finish result)
        (do
          let bindings ← Eval.ofExcept o'
          let scope ← Eval.openScope (some closure')
          Eval.defineAll scope bindings
          let result ← Eval.runBody
            (fun node => evaluator' node (c'.call name scope args'.span .function) false) body'
          finish' result) := by
    refine (Beside.ofExcept hbound).bind fun bs bs' hbs => ?_
    refine (beside_openScope (.some hclosure)).bind fun a a' hscope => ?_
    refine (beside_defineAll hscope hbs).bind fun _ _ _ => ?_
    have frames := Likeness.Frames.call hc name .function hscope ha.span
    exact (beside_runBody (he _ _ false frames) hbody).bind hfinish
  have relocated (v v' : Value) (hv : v.Like C.toLikeness v') :
      C.Beside (Value.Like C.toLikeness) (pure (v.relocate args.span c.display))
        (pure (v'.relocate args'.span c.display)) :=
    .pure (hv.relocate ha.span _)
  unfold Eval.callFunction
  dsimp only
  rw [← ho.settings, ← C.stack_depth hc, ← C.stack_display hc]
  split
  · exact .fail_bind (.failAt _ ha.span)
  · cases returns with
    | none => exact run bound relocated
    | some kind =>
      apply run bound
      intro v v' hv
      dsimp only
      rw [← hv.kind]
      split
      · exact .fail_bind (hv.blame _ ha.span)
      · exact relocated v v' hv

theorem beside_call (ho : C.Around around around') (he : C.Evaluators evaluator evaluator')
    {v v' : Value} (hv : v.Like C.toLikeness v') {args args' : Arguments}
    (ha : args.Like C.toLikeness args') (hc : C.stack c c') :
    C.Beside (Value.Like C.toLikeness) (Eval.call around evaluator v args c)
      (Eval.call around' evaluator' v' args' c') := by
  have name := hv.name
  have other : C.Beside (Value.Like C.toLikeness)
      (Eval.fail (v.blameHere (.notCallable v.kind)))
      (Eval.fail (v'.blameHere (.notCallable v'.kind))) :=
    .fail (hv.blameHere_kind .notCallable)
  unfold Eval.call
  rw [← name]
  obtain ⟨hd, ht⟩ := hv
  cases hd with
  | builtin f => exact beside_callBuiltin ho f ha hc
  | func hf => exact beside_callFunction ho he hf _ ha hc
  | _ => exact other

theorem beside_callAll (ho : C.Around around around') (he : C.Evaluators evaluator evaluator')
    {lists lists' : List ArgumentList}
    (hl : List.Forall₂ (ArgumentList.Alike C.code C.span) lists lists') (ht : C.span t t')
    (inLoop : Bool) (hc : C.Frames c c') {v v' : Value} (hv : v.Like C.toLikeness v') :
    C.Beside (Value.Like C.toLikeness) (Eval.callAll around evaluator t c inLoop v lists)
      (Eval.callAll around' evaluator' t' c' inLoop v' lists') := by
  induction hl generalizing v v' with
  | nil => exact .pure hv
  | cons hl _ ih =>
    unfold Eval.callAll
    refine (beside_arguments (he c c' inLoop hc) hl ht).bind fun args args' ha => ?_
    exact (beside_call ho he hv ha hc.stack).bind fun v v' hv => ih hv

/-! ## Loops -/

theorem beside_passes {step step' : Value → Eval Unit} {pass pass' : Eval Bool}
    [∀ v, Eval.KeepsOutput (step' v)] [Eval.KeepsOutput pass']
    (hb : ∀ v v', v.Like C.toLikeness v' → C.Beside (fun _ _ => True) (step v) (step' v'))
    (hp : C.Beside Eq pass pass') {vs vs' : List Value}
    (hv : List.Forall₂ (Value.Like C.toLikeness) vs vs') :
    C.Beside (fun _ _ => True) (Eval.passes step pass vs) (Eval.passes step' pass' vs') := by
  induction hv with
  | nil => exact .pure trivial
  | cons hv _ ih =>
    unfold Eval.passes
    refine (hb _ _ hv).bind fun _ _ _ => hp.bind fun again again' heq => ?_
    subst heq
    cases again with
    | true => exact ih
    | false => exact .pure trivial

theorem beside_repeatWhile {test test' pass pass' : Eval Bool} [Eval.KeepsOutput test']
    [Eval.KeepsOutput pass'] (ht : C.Beside Eq test test') (hp : C.Beside Eq pass pass') (n : Nat) :
    C.Beside (fun _ _ => True) (Eval.repeatWhile test pass n)
      (Eval.repeatWhile test' pass' n) := by
  induction n with
  | zero => exact .throw .exhausted
  | succ n ih =>
    unfold Eval.repeatWhile
    refine ht.bind fun holds holds' heq => ?_
    subst heq
    cases holds with
    | false => exact .pure trivial
    | true =>
      refine hp.bind fun again again' heq => ?_
      subst heq
      cases again with
      | false => exact .pure trivial
      | true => exact ih

theorem beside_forEach (he : C.Evaluators evaluator evaluator') (target : Target)
    {iterable iterable' : Node} (hi : C.code iterable iterable') {body body' : List Node}
    (hb : List.Forall₂ C.code body body') (hc : C.Frames c c') :
    C.Beside (fun _ _ => True) (Eval.forEach evaluator target iterable body c)
      (Eval.forEach evaluator' target iterable' body' c') := by
  have span := C.code_span hi
  unfold Eval.forEach
  refine (he c c' false hc iterable iterable' hi).bind_keeping (fun v' => ?_) fun v v' hv => ?_
  · split <;> infer_instance
  have elements := hv.elements?
  generalize v.elements? = o at elements ⊢
  generalize v'.elements? = o' at elements ⊢
  cases elements with
  | none => exact .fail (hv.blame_kind .notIterable span)
  | some hvs =>
    refine beside_passes (fun u u' hu => ?_) (beside_pass (he c c' true hc) hb) hvs
    rw [C.stack_display hc.stack]
    exact (beside_bindTarget target (hu.relocate span _) hc span).bind fun _ _ _ => .pure trivial

/-! ## Modules -/

theorem beside_topLevel (he : C.Evaluators evaluator evaluator') (hc : C.Frames c c')
    {statements statements' : List Node} (hs : List.Forall₂ C.code statements statements') :
    C.Beside (List.Forall₂ (Value.Like C.toLikeness)) (Eval.topLevel evaluator c statements)
      (Eval.topLevel evaluator' c' statements') := by
  refine Beside.mapM (fun n n' hn => ?_) hs
  refine (he c c' false hc n n' hn).adapt (fun _ _ hs => hs.escaped) fun s m out hp => ?_
  obtain ⟨e, rfl, -⟩ := C.parted_fatal hp
  exact hp

theorem beside_runScript (he : C.Evaluators evaluator evaluator') (name : String)
    (script : Source) (hc : C.stack c c') (ht : C.span t t') :
    C.Beside C.scope (Eval.runScript evaluator name script c t)
      (Eval.runScript evaluator' name script c' t') := by
  unfold Eval.runScript
  dsimp only
  cases script.program with
  | error e =>
    refine (beside_openScope (.some C.scope_prelude)).bind fun a a' ha => .fail ?_
    exact (Failure.Like.failAt _ ht).withOrigin (.cons ⟨C.span_refl e.span, rfl⟩ .nil)
  | ok statements =>
    refine (beside_openScope (.some C.scope_prelude)).bind fun a a' ha => ?_
    have frames := Likeness.Frames.call hc s!"<module {name}>" .module ha ht
    have code : List.Forall₂ C.code statements statements :=
      List.forall₂_same.mpr fun n _ => C.code_refl n
    exact ((beside_topLevel he frames code).whileIncluding name).bind fun _ _ _ => .pure ha

theorem beside_moduleScope (ho : C.Around around around') (he : C.Evaluators evaluator evaluator')
    (name : String) (hc : C.stack c c') (ht : C.span t t') :
    C.Beside C.scope (Eval.moduleScope around evaluator name c t)
      (Eval.moduleScope around' evaluator' name c' t') := by
  unfold Eval.moduleScope
  rw [← ho.settings, ← ho.files]
  dsimp only
  split
  · exact beside_runScript he name _ hc ht
  · split
    · rename_i bs hb
      refine (beside_openScope .none).bind fun a a' ha => ?_
      exact (beside_defineAll ha (Bindings.Like.native hb)).bind fun _ _ _ => .pure ha
    · exact .fail (.failAt _ ht)

theorem like_moduleName {v v' : Value} (hv : v.Like C.toLikeness v') (ht : C.span t t') :
    C.Results Eq (Eval.moduleName v t) (Eval.moduleName v' t') := by
  have other := Likeness.Results.error (p := Eq (α := String)) (hv.blame_kind .moduleNameNotStr ht)
  have invalid : C.Results (Eq (α := String)) (.error (v.blame (.invalidModuleName v.repr) t))
      (.error (v'.blame (.invalidModuleName v'.repr) t')) := by
    rw [hv.repr]
    exact .error (hv.blame _ ht)
  obtain ⟨hd, -⟩ := hv
  cases hd with
  | str name =>
    dsimp only [Eval.moduleName]
    split
    · exact .ok rfl
    · exact invalid
  | _ => exact other

theorem beside_includeModule (ho : C.Around around around')
    (he : C.Evaluators evaluator evaluator') {module module' : Node} (hn : C.code module module')
    (inLoop : Bool) (hc : C.Frames c c') (ht : C.span t t') :
    C.Beside (Value.Like C.toLikeness)
      (Eval.includeModule around evaluator module c t inLoop)
      (Eval.includeModule around' evaluator' module' c' t' inLoop) := by
  unfold Eval.includeModule
  refine (he c c' inLoop hc module module' hn).bind fun v v' hv => ?_
  refine (Beside.ofExcept (like_moduleName hv (C.code_span hn))).bind fun name name' heq => ?_
  subst heq
  apply Beside.get
  intro m m' hm
  dsimp only
  rw [← hm.including]
  split
  · exact Beside.fail_bind (.failAt _ ht) m m' hm
  · refine ((beside_moduleScope ho he name hc.stack ht).bind fun a a' ha => ?_) m m' hm
    rw [← C.stack_display hc.stack]
    exact beside_declare _ ((Value.Like.ofData (.namespace name ha)).place ht _) hc ht

/-! ## All constructs -/

theorem beside_construct (ho : C.Around around around') (he : C.Evaluators evaluator evaluator')
    (n : Nat) {node node' : Node} (hn : C.code node node') (inLoop : Bool) (hc : C.Frames c c') :
    C.Beside (Value.Like C.toLikeness) (Eval.construct around n evaluator node c inLoop)
      (Eval.construct around' n evaluator' node' c' inLoop) := by
  have form := C.code_kind hn
  have span := C.code_span hn
  have inside := he c c' inLoop hc
  have null := Value.Like.null.place span c.display
  obtain ⟨kind, t⟩ := node
  obtain ⟨kind', t'⟩ := node'
  unfold Eval.construct
  rw [← C.stack_display hc.stack]
  cases form with
  | int i => exact .pure ((Value.Like.int i).place span _)
  | float x => exact .pure ((Value.Like.float x).place span _)
  | str s => exact .pure ((Value.Like.str s).place span _)
  | array hi => exact (beside_array inside hi).bind fun _ _ hv => .pure (hv.place span _)
  | tuple hi => exact (beside_tuple inside hi).bind fun _ _ hv => .pure (hv.place span _)
  | dict hi => exact (beside_dict inside hi).bind fun _ _ hv => .pure (hv.place span _)
  | function hl =>
    exact (beside_function inside hl hc.scope).bind fun _ _ hv => .pure (hv.place span _)
  | read name => exact beside_read name hc span
  | assign name hvalue =>
    exact (inside _ _ hvalue).bind fun _ _ hv => beside_assign name hv hc span
  | declare name hvalue =>
    exact (inside _ _ hvalue).bind fun _ _ hv => beside_declare name hv hc span
  | declareNull name => exact beside_declare name null hc span
  | unary op hoperand =>
    exact (inside _ _ hoperand).bind fun _ _ hv =>
      (Beside.ofExcept (hv.applyUnary op)).bind fun _ _ hw => .pure (hw.place span _)
  | binary op hleft hright =>
    exact (inside _ _ hleft).bind fun _ _ hv => (inside _ _ hright).bind fun _ _ hw =>
      (Beside.ofExcept (hv.applyBinary hw op)).bind fun _ _ hu => .pure (hu.place span _)
  | member name htarget =>
    refine (inside _ _ htarget).bind fun v v' hv => ?_
    apply Beside.get
    intro m m' hm
    exact ((Beside.ofExcept (hv.member hm.store name span)).bind
      fun _ _ hw => .pure (hw.relocate span _)) m m' hm
  | index htarget hslot =>
    exact (inside _ _ htarget).bind fun _ _ hv => (inside _ _ hslot).bind fun _ _ hi =>
      (Beside.ofExcept (hv.index hi span)).bind fun _ _ hw => .pure (hw.relocate span _)
  | call hcallee hlists =>
    exact (inside _ _ hcallee).bind fun _ _ hv =>
      beside_callAll ho he hlists (C.code_span hcallee) inLoop hc hv
  | «return» hvalue =>
    dsimp only
    rw [← hc.inFunction]
    split
    · cases hvalue with
      | none => exact (Beside.pure null).bind fun _ _ hv => .throw (.returned hv span)
      | some hvalue => exact (inside _ _ hvalue).bind fun _ _ hv => .throw (.returned hv span)
    · exact .fail (.failAt _ span)
  | «break» =>
    dsimp only
    split
    · exact .throw (.broke span)
    · exact .fail (.failAt _ span)
  | «continue» =>
    dsimp only
    split
    · exact .throw (.continued span)
    · exact .fail (.failAt _ span)
  | «if» hcases hrest =>
    exact (beside_branches inside hc.stack hrest hcases).bind fun _ _ _ => .pure null
  | switch target hsubject hcases hrest =>
    refine (inside _ _ hsubject).bind fun v v' hv => ?_
    refine (beside_bindTarget target hv hc (C.code_span hsubject)).bind fun _ _ _ => ?_
    exact (beside_branches inside hc.stack hrest hcases).bind fun _ _ _ => .pure null
  | «for» target hi hb => exact (beside_forEach he target hi hb hc).bind fun _ _ _ => .pure null
  | «while» ht hb =>
    have test := beside_condition (he c c' false hc) hc.stack ht
    have pass := beside_pass (he c c' true hc) hb
    exact (beside_repeatWhile test pass n).bind fun _ _ _ => .pure null
  | handler hb => exact (beside_handled inside hb).bind fun _ _ hv => .pure (hv.place span _)
  | «include» hmodule => exact beside_includeModule ho he hmodule inLoop hc span

end Frames

/-- Evaluations of nodes that correspond, in frames that correspond, are alike. The induction is on
the allowance, which is the same for both. -/
theorem beside_evaluate {around around' : Surroundings} (ho : C.Around around around') (n : Nat) :
    C.Evaluators (evaluate around n) (evaluate around' n) := by
  induction n with
  | zero => exact fun _ _ _ _ _ _ _ => .throw .exhausted
  | succ n ih =>
    intro c c' inLoop hc node node' hn
    unfold evaluate
    exact (beside_construct ho ih n hn inLoop hc).completed hc.stack (C.code_span hn)

/-- Programs that correspond run alike. -/
theorem beside_program {around around' : Surroundings} (ho : C.Around around around') (n : Nat)
    {statements statements' : List Node} (hs : List.Forall₂ C.code statements statements') :
    C.Beside (List.Forall₂ (Value.Like C.toLikeness))
      (Eval.program (evaluate around n) statements)
      (Eval.program (evaluate around' n) statements') := by
  unfold Eval.program
  refine (beside_openScope (.some C.scope_prelude)).bind fun a a' ha => ?_
  exact beside_topLevel (beside_evaluate ho n) (.root "<program>" .program ha) hs

end Comparison

end TracedScript
