import TracedScript.Proofs.Control.Visits
import TracedScript.Proofs.Run.Discipline

/-!
# Evaluations keep a discipline

Each construct keeps a discipline under an evaluator that does so for the nodes inside it, the
bodies of functions and the statements of modules; so evaluations do, and programs. And all visits
that a program makes are made where the discipline holds: `Machine.Visits.meets`.
-/

namespace TracedScript

namespace Discipline

variable {D : Discipline} {s t : Store} {stack : CallStack} {eval : Node → Eval Value}

/-- The given nodes are evaluated as the discipline asks. -/
def KeepsOn (D : Discipline) (s : Store) (nodes : List Node) (eval : Node → Eval Value) : Prop :=
  ∀ c ∈ nodes, D.Keeps s D.value (eval c)

namespace KeepsOn

variable {nodes : List Node}

theorem grows (h : D.KeepsOn s nodes eval) (hst : s.Grows t) : D.KeepsOn t nodes eval :=
  fun c hc => (h c hc).grows hst

theorem subset {few : List Node} (h : D.KeepsOn s nodes eval) (hs : ∀ c ∈ few, c ∈ nodes) :
    D.KeepsOn s few eval := fun c hc => h c (hs c hc)

end KeepsOn

/-- What is of no interest lasts. -/
theorem keeps_unit {α : Type} {a : α} : D.Keeps s (fun _ _ => True) (pure a) :=
  .pure fun _ _ => trivial

theorem keeps_made {v : Value} (h : v.Made) : D.Keeps s D.value (pure v) :=
  .pure fun t _ => (D.modest t).made h

theorem keeps_placed {v : Value} (h : D.value s v) (span : Span) (owner : String) :
    D.Keeps s D.value (pure (v.place span owner)) :=
  keeps_value ((D.modest s).place h span owner)

theorem keeps_relocated {v : Value} (h : D.value s v) (span : Span) (owner : String) :
    D.Keeps s D.value (pure (v.relocate span owner)) :=
  keeps_value ((D.modest s).relocate h span owner)

/-! ## Blocks and branches -/

theorem keeps_block {body : List Node} (h : D.KeepsOn s body eval) :
    D.Keeps s (fun _ _ => True) (Eval.block eval body) :=
  .forM fun c hc => (h c hc).discard

theorem keeps_condition {test : Node} (h : D.Keeps s D.value (eval test)) :
    D.Keeps s (fun _ _ => True) (Eval.condition eval stack test) :=
  h.bind fun _ _ _ _ => (Keeps.ofExcept fun _ _ _ _ => trivial).completed stack test.span

theorem keeps_branches {cases : List Branch} {otherwise : Option (List Node)}
    (h : D.KeepsOn s (cases.flatMap Branch.children ++ otherwise.getD []) eval) :
    D.Keeps s (fun _ _ => True) (Eval.branches eval stack otherwise cases) := by
  induction cases generalizing s with
  | nil => exact keeps_block h
  | cons b bs ih =>
    unfold Eval.branches
    refine (keeps_condition (h b.condition (by simp [Branch.children]))).bind
      fun t holds hst _ => ?_
    cases holds with
    | true => exact keeps_block ((h.subset (by simp +contextual [Branch.children])).grows hst)
    | false => exact ih ((h.subset (by simp +contextual)).grows hst)

/-! ## Loops and handlers -/

theorem keeps_pass {body : List Node} (h : D.KeepsOn s body eval) :
    D.Keeps s (fun _ _ => True) (Eval.pass eval body) := by
  unfold Eval.pass
  refine ((keeps_block h).bind fun _ _ _ _ => keeps_unit).tryCatch fun t stop _ hstop => ?_
  cases stop with
  | continued | broke => exact keeps_unit
  | returned | failed | exhausted =>
    exact .throw fun u htu v span h => value_grows htu (hstop v span h)

theorem keeps_passes {bind : Value → Eval Unit} {pass : Eval Bool} {values : List Value}
    (hb : ∀ v ∈ values, D.Keeps s (fun _ _ => True) (bind v))
    (hp : D.Keeps s (fun _ _ => True) pass) :
    D.Keeps s (fun _ _ => True) (Eval.passes bind pass values) := by
  induction values generalizing s with
  | nil => exact keeps_unit
  | cons v vs ih =>
    obtain ⟨hv, hvs⟩ := List.forall_mem_cons.mp hb
    unfold Eval.passes
    refine hv.bind fun t _ hst _ => (hp.grows hst).bind fun u again htu _ => ?_
    have hsu := hst.trans htu
    cases again with
    | true => exact ih (fun w hw => (hvs w hw).grows hsu) (hp.grows hsu)
    | false => exact keeps_unit

theorem keeps_forEach {evaluator : Evaluator} {iterable : Node} {target : Target}
    {body : List Node} (hs : D.frame s stack.top.scope)
    (hi : D.Keeps s D.value (evaluator iterable stack false))
    (hb : D.KeepsOn s body fun c => evaluator c stack true) :
    D.Keeps s (fun _ _ => True) (Eval.forEach evaluator target iterable body stack) := by
  unfold Eval.forEach
  refine hi.bind fun t v hst hv => ?_
  split
  · exact .fail
  · rename_i elements he
    refine keeps_passes (fun u hu => ?_) (keeps_pass (hb.grows hst))
    have element := (D.modest t).elements? hv he u hu
    have moved := (D.modest t).relocate element iterable.span stack.display
    exact (keeps_bindTarget (D.frame_grows hst hs) moved).bind fun _ _ _ _ => keeps_unit

theorem keeps_repeatWhile {test pass : Eval Bool} (n : Nat)
    (ht : D.Keeps s (fun _ _ => True) test) (hp : D.Keeps s (fun _ _ => True) pass) :
    D.Keeps s (fun _ _ => True) (Eval.repeatWhile test pass n) := by
  induction n generalizing s with
  | zero => exact .throw fun _ _ _ _ h => by cases h
  | succ n ih =>
    unfold Eval.repeatWhile
    refine ht.bind fun t holds hst _ => ?_
    cases holds with
    | false => exact keeps_unit
    | true =>
      refine (hp.grows hst).bind fun u again htu _ => ?_
      cases again with
      | false => exact keeps_unit
      | true => exact ih (ht.grows (hst.trans htu)) (hp.grows (hst.trans htu))

theorem keeps_handled {body : List Node} (h : D.KeepsOn s body eval) :
    D.Keeps s D.value (Eval.handled eval body) := by
  unfold Eval.handled
  refine ((keeps_block h).bind fun _ _ _ _ => keeps_made Value.made_null).tryCatch
    fun t stop _ hstop => ?_
  cases stop with
  | failed e =>
    dsimp only
    split
    · exact .fail
    · exact keeps_freshId.bind fun _ id _ _ => keeps_made (Value.made_exception id e)
  | returned | broke | continued | exhausted =>
    exact .throw fun u htu v span h => value_grows htu (hstop v span h)

/-! ## Literals -/

theorem keeps_values {items : List Node} (h : D.KeepsOn s items eval) :
    D.Keeps s (fun t vs => ∀ v ∈ vs, D.value t v) (items.mapM eval) :=
  .mapM h fun hst hv => value_grows hst hv

theorem keeps_array {items : List Node} (h : D.KeepsOn s items eval) :
    D.Keeps s D.value (Eval.array eval items) :=
  (keeps_values h).bind fun _ _ _ hvs => .ofExcept fun u _ htu hv =>
    (D.modest u).array hv fun w hw => value_grows htu (hvs w hw)

theorem keeps_tuple {items : List Node} (h : D.KeepsOn s items eval) :
    D.Keeps s D.value (Eval.tuple eval items) :=
  (keeps_values h).bind fun _ _ _ hvs => .ofExcept fun u _ htu hv =>
    (D.modest u).tuple hv fun w hw => value_grows htu (hvs w hw)

theorem keeps_dict {entries : List (Node × Node)}
    (h : D.KeepsOn s (entries.flatMap fun e => [e.1, e.2]) eval) :
    D.Keeps s D.value (Eval.dict eval entries) := by
  unfold Eval.dict
  have pairs : D.Keeps s (fun t ps => ∀ p ∈ ps, D.value t p.1 ∧ D.value t p.2)
      (entries.mapM fun e => do return (← eval e.1, ← eval e.2)) := by
    refine Keeps.mapM (p := fun t (p : Value × Value) => D.value t p.1 ∧ D.value t p.2)
      (fun e he => ?_) fun htu hp => ⟨value_grows htu hp.1, value_grows htu hp.2⟩
    have key := h e.1 (List.mem_flatMap.mpr ⟨e, he, by simp⟩)
    have value := h e.2 (List.mem_flatMap.mpr ⟨e, he, by simp⟩)
    exact key.bind fun t _ hst hk => (value.grows hst).bind fun u _ htu hv =>
      .pure fun w huw => ⟨value_grows (htu.trans huw) hk, value_grows huw hv⟩
  exact pairs.bind fun _ _ _ hps => .ofExcept fun u _ htu hv =>
    (D.modest u).dict hv fun p hp => ⟨value_grows htu (hps p hp).1, value_grows htu (hps p hp).2⟩

theorem keeps_typeTag {node : Node} (h : D.Keeps s D.value (eval node)) :
    D.Keeps s (fun _ _ => True) (Eval.typeTag eval node) := by
  unfold Eval.typeTag
  refine h.bind fun t v _ _ => ?_
  split
  · split
    · exact keeps_unit
    · exact .fail
  · exact .fail

/-- A function takes over the names and the body of its literal. -/
theorem keeps_function {n : Node} {literal : FunctionLiteral} {scope : ScopeId} (hn : D.code n)
    (hk : n.kind = .function literal) (hs : D.frame s scope)
    (h : D.KeepsOn s literal.children eval) :
    D.Keeps s D.value (Eval.function eval literal scope) := by
  have tag {node : Node} (hm : node ∈ literal.children) := keeps_typeTag (h node hm)
  unfold Eval.function
  refine (Keeps.mapM_map (g := (·.name)) (k := (·.name)) (p := fun _ _ => True)
    (fun p hp => ?_) fun _ _ => trivial).bind ?_
  · refine (Keeps.optionMapM fun node hm => tag ?_).bind fun _ _ _ _ =>
      .pure fun _ _ => ⟨rfl, trivial⟩
    simp only [FunctionLiteral.children, List.mem_append, List.mem_flatMap]
    exact .inl (.inl (.inl ⟨p, hp, Option.mem_toList.mpr hm⟩))
  rintro t params hst ⟨hparams, -⟩
  refine (Keeps.mapM_map (g := (·.name)) (k := (·.name))
    (p := fun t (o : OptionValue) => D.value t o.default)
    (fun o ho => ?_) fun hst hv => value_grows hst hv).bind ?_
  · refine ((h o.default ?_).grows hst).bind fun _ _ _ hv => .pure fun _ hgrows =>
      ⟨rfl, value_grows hgrows hv⟩
    simp only [FunctionLiteral.children, List.mem_append]
    exact .inl (.inl (.inr (List.mem_map_of_mem ho)))
  rintro u options htu ⟨hoptions, hv⟩
  have hsu := hst.trans htu
  refine ((Keeps.optionMapM fun node hm => tag ?_).grows hsu).bind fun w returns huw _ => ?_
  · simp only [FunctionLiteral.children, List.mem_append]
    exact .inl (.inr (Option.mem_toList.mpr hm))
  refine keeps_freshId.bind fun x id hwx _ => keeps_value ?_
  have hsx := hsu.trans (huw.trans hwx)
  refine Value.throughout_iff.mpr ⟨?_, fun v hm => ?_⟩
  · exact D.allows_function hn hk hparams hoptions rfl (D.frame_grows hsx hs)
  · obtain ⟨o, ho, rfl⟩ := List.mem_map.mp hm
    exact value_grows (huw.trans hwx) (hv o ho)

/-! ## Calls -/

/-- All values of an argument list are ones that may turn up. -/
structure Given (D : Discipline) (s : Store) (args : Arguments) : Prop where
  positional : ∀ v ∈ args.positional, D.value s v
  named : ∀ a ∈ args.named, D.value s a.value

theorem Given.grows {args : Arguments} (h : D.Given s args) (hst : s.Grows t) : D.Given t args :=
  ⟨fun v hv => value_grows hst (h.positional v hv), fun a ha => value_grows hst (h.named a ha)⟩

theorem keeps_arguments {list : ArgumentList} {callee : Span}
    (h : D.KeepsOn s list.children eval) :
    D.Keeps s D.Given (Eval.arguments eval list callee) := by
  unfold Eval.arguments
  refine (keeps_values (h.subset fun c hc => List.mem_append_left _ hc)).bind
    fun t positional hst hp => ?_
  refine (Keeps.mapM (p := fun t (a : NamedValue) => D.value t a.value) (fun a ha => ?_)
    fun hst hv => value_grows hst hv).bind fun u named htu hn => .pure fun w huw => ?_
  · have value := h a.value (List.mem_append_right _ (List.mem_map_of_mem ha))
    exact (value.grows hst).bind fun _ _ _ hv => .pure fun _ hgrows => value_grows hgrows hv
  · exact ⟨fun v hv => value_grows (htu.trans huw) (hp v hv), fun a ha => value_grows huw (hn a ha)⟩

theorem keeps_callBuiltin (around : Surroundings) (f : Builtin) {args : Arguments}
    (ha : D.Given s args) : D.Keeps s D.value (Eval.callBuiltin around f args stack) := by
  unfold Eval.callBuiltin
  split
  · exact .fail
  · split
    · exact .fail
    · have result {t : Store} (hst : s.Grows t) : D.Keeps t D.value (do
          let result ← Eval.ofExcept (f.result args.positional args.span)
          return result.relocate args.span stack.display) :=
        (Keeps.ofExcept (p := D.value) fun u _ htu hv =>
          (D.modest u).result hv (ha.grows (hst.trans htu)).positional).bind
            fun _ _ _ hv => keeps_relocated hv _ _
      apply Keeps.completed
      dsimp only
      split
      · exact (keeps_printLine around _).bind fun _ _ hst _ => result hst
      · exact result (.refl s)

theorem keeps_runBody {body : List Node} (h : D.KeepsOn s body eval) :
    D.Keeps s D.value (Eval.runBody eval body) := by
  unfold Eval.runBody
  refine ((keeps_block h).bind fun _ _ _ _ => keeps_made Value.made_null).tryCatch
    fun t stop _ hstop => ?_
  cases stop with
  | returned v span => exact keeps_value (hstop v span rfl)
  | broke | continued | failed | exhausted =>
    exact .throw fun u htu v span h => value_grows htu (hstop v span h)

/-- The evaluator keeps the discipline in all stores that `s` may grow into. -/
def Obeys (D : Discipline) (s : Store) (evaluator : Evaluator) : Prop :=
  ∀ t node stack inLoop, s.Grows t → D.code node → D.Standing t stack →
    D.Keeps t D.value (evaluator node stack inLoop)

theorem Obeys.grows {evaluator : Evaluator} (h : D.Obeys s evaluator) (hst : s.Grows t) :
    D.Obeys t evaluator := fun u node stack inLoop htu => h u node stack inLoop (hst.trans htu)

section Frames

variable {around : Surroundings} {evaluator : Evaluator}

theorem keeps_callFunction (h : D.Obeys s evaluator) (hs : D.Standing s stack) {callee : Value}
    {f : Function} (hv : D.value s callee) (hd : callee.data = .func f) {args : Arguments}
    (ha : D.Given s args) (name : String) :
    D.Keeps s D.value (Eval.callFunction around evaluator f name args stack) := by
  unfold Eval.callFunction
  dsimp only
  split
  · exact .fail_bind
  · refine (Keeps.ofExcept (p := fun _ bs => f.bind name args = .ok bs) fun _ _ _ => id).bind
      fun t bs hst hb => ?_
    have held := value_grows hst hv
    have given := ha.grows hst
    have bound : ∀ b ∈ bs, D.value t b.2 :=
      (D.modest t).bind hb (fun o ho => held.default hd ho) given.positional given.named
    refine keeps_openCall held hd hb bound fun u scope htu hscope => ?_
    have hsu := hst.trans htu
    have code := (D.body hv.self hd).1
    have callee := (hs.grows hsu).call hscope name args.span .function
    refine (keeps_runBody fun c hm => h u c _ false hsu (code c hm) callee).bind
      fun w result huw hr => ?_
    have done := keeps_relocated hr args.span stack.display
    split
    · split
      · exact .fail_bind
      · exact done
    · exact done

theorem keeps_call (h : D.Obeys s evaluator) (hs : D.Standing s stack) {callee : Value}
    (hv : D.value s callee) {args : Arguments} (ha : D.Given s args) :
    D.Keeps s D.value (Eval.call around evaluator callee args stack) := by
  unfold Eval.call
  split
  · exact keeps_callBuiltin around _ ha
  · rename_i f hd
    exact keeps_callFunction h hs hv hd ha _
  · exact .fail

theorem keeps_callAll (h : D.Obeys s evaluator) (hs : D.Standing s stack) {inLoop : Bool}
    {lists : List ArgumentList}
    (hl : D.KeepsOn s (lists.flatMap ArgumentList.children) fun c => evaluator c stack inLoop)
    (span : Span) {v : Value} (hv : D.value s v) :
    D.Keeps s D.value (Eval.callAll around evaluator span stack inLoop v lists) := by
  induction lists generalizing s v with
  | nil => exact keeps_value hv
  | cons list lists ih =>
    unfold Eval.callAll
    refine (keeps_arguments (hl.subset (by simp +contextual))).bind fun t args hst ha => ?_
    refine (keeps_call (h.grows hst) (hs.grows hst) (value_grows hst hv) ha).bind
      fun u result htu hr => ?_
    have hsu := hst.trans htu
    exact ih (h.grows hsu) (hs.grows hsu) ((hl.subset (by simp +contextual)).grows hsu) hr

/-! ## Modules -/

theorem keeps_topLevel (h : D.Obeys s evaluator) (hs : D.Standing s stack)
    {statements : List Node} (hc : ∀ c ∈ statements, D.code c) :
    D.Keeps s (fun t vs => ∀ v ∈ vs, D.value t v) (Eval.topLevel evaluator stack statements) := by
  refine Keeps.mapM (fun c hm => ?_) fun hst hv => value_grows hst hv
  refine (h s c stack false (.refl s) (hc c hm) hs).adapt fun stop v span hstop => ?_
  cases stop <;> cases hstop

theorem keeps_whileIncluding {α : Type} {p : Store → α → Prop} {name : String} {x : Eval α}
    (h : D.Keeps s p x) : D.Keeps s p (Eval.whileIncluding name x) := by
  intro m hs hm
  have inner := h { m with including := m.including ++ [name] } hs hm
  exact ⟨inner.grows, inner.sound, inner.value, inner.returned⟩

/-- The code of all scripts that can be found is allowed. -/
def Covers (D : Discipline) (around : Surroundings) : Prop :=
  ∀ name path text statements,
    Module.findScript around.files around.settings.directories name = some (path, text) →
    (Source.mk path (Text.normalize text)).program = .ok statements → ∀ c ∈ statements, D.code c

theorem keeps_moduleScope (h : D.Obeys s evaluator) (hs : D.Standing s stack)
    (hcover : D.Covers around) {name : String} {span : Span} :
    D.Keeps s (fun t id => D.allows t (.ofData (.namespace name id)))
      (Eval.moduleScope around evaluator name stack span) := by
  unfold Eval.moduleScope
  dsimp only
  split
  · rename_i path text hf
    unfold Eval.runScript
    refine keeps_openTop.bind fun t scope hst hscope => ?_
    dsimp only
    split
    · exact .fail
    · rename_i statements hp
      have frame := (hs.grows hst).call hscope s!"<module {name}>" span .module
      refine (keeps_whileIncluding (keeps_topLevel (h.grows hst) frame
        (hcover name path text statements hf hp))).bind fun u _ htu _ => .pure fun w huw => ?_
      exact D.allows_namespace (D.frame_grows (htu.trans huw) hscope)
  · split
    · rename_i bs hb
      exact keeps_nativeScope hb
    · exact .fail

theorem keeps_includeModule (h : D.Obeys s evaluator) (hs : D.Standing s stack)
    (hcover : D.Covers around) {module : Node} {inLoop : Bool}
    (hm : D.Keeps s D.value (evaluator module stack inLoop)) {span : Span} :
    D.Keeps s D.value (Eval.includeModule around evaluator module stack span inLoop) := by
  unfold Eval.includeModule
  refine hm.bind fun t v hst _ => ?_
  refine (Keeps.ofExcept (p := fun _ _ => True) fun _ _ _ _ => trivial).bind fun u name htu _ => ?_
  have hsu := hst.trans htu
  apply Keeps.get
  intro m hum sound
  dsimp only
  split
  · exact Keeps.fail_bind m hum sound
  · refine Keeps.bind (keeps_moduleScope (h.grows hsu) (hs.grows hsu) hcover)
      (fun w id huw hid => ?_) m hum sound
    have bound : D.value w (.ofData (.namespace name id)) :=
      Value.throughout_iff.mpr ⟨hid, List.forall_mem_nil _⟩
    exact keeps_declare (D.frame_grows (hsu.trans huw) hs.top) ((D.modest w).place bound _ _)

/-! ## All constructs -/

theorem keeps_construct (n : Nat) (h : D.Obeys s evaluator) (hcover : D.Covers around)
    {node : Node} (hn : D.code node) (hs : D.Standing s stack) (inLoop : Bool) :
    D.Keeps s D.value (Eval.construct around n evaluator node stack inLoop) := by
  obtain ⟨kind, span⟩ := node
  have child (b : Bool) {c : Node} (hc : c ∈ kind.children) :
      D.Keeps s D.value (evaluator c stack b) := h s c stack b (.refl s) (D.code_child hn hc) hs
  have inner {c : Node} (hc : c ∈ kind.children) := child inLoop hc
  have null {t : Store} : D.Keeps t D.value (pure (Value.null.place span stack.display)) :=
    keeps_placed ((D.modest t).made Value.made_null) span stack.display
  cases kind with
  | int i => exact keeps_placed ((D.modest s).made (Value.made_int i)) _ _
  | float x => exact keeps_placed ((D.modest s).made (Value.made_float x)) _ _
  | str x => exact keeps_placed ((D.modest s).made (Value.made_str x)) _ _
  | array items =>
    exact (keeps_array fun c hc => inner hc).bind fun _ _ _ hv => keeps_placed hv _ _
  | tuple items =>
    exact (keeps_tuple fun c hc => inner hc).bind fun _ _ _ hv => keeps_placed hv _ _
  | dict entries =>
    exact (keeps_dict fun c hc => inner hc).bind fun _ _ _ hv => keeps_placed hv _ _
  | function literal =>
    exact (keeps_function hn rfl hs.top fun c hc => inner hc).bind
      fun _ _ _ hv => keeps_placed hv _ _
  | read name => exact keeps_read hs.top
  | assign name value =>
    exact (inner (List.mem_singleton_self value)).bind fun _ _ hst hv =>
      keeps_assign (D.frame_grows hst hs.top) hv
  | declare name value =>
    exact (inner (List.mem_singleton_self value)).bind fun _ _ hst hv =>
      keeps_declare (D.frame_grows hst hs.top) hv
  | declareNull name =>
    exact keeps_declare hs.top ((D.modest s).place ((D.modest s).made Value.made_null) _ _)
  | unary op operand =>
    refine (inner (List.mem_singleton_self operand)).bind fun t v _ hv => ?_
    exact (Keeps.ofExcept (p := D.value) fun u _ htu hw =>
      (D.modest u).applyUnary (value_grows htu hv) hw).bind fun _ _ _ hw => keeps_placed hw _ _
  | binary left op right =>
    refine (inner (List.mem_cons_self ..)).bind fun t v hst _ => ?_
    have second := inner (List.mem_cons_of_mem left (List.mem_singleton_self right))
    refine (second.grows hst).bind fun u w _ _ => ?_
    exact (Keeps.ofExcept (p := D.value) fun x _ _ hw =>
      (D.modest x).made (Value.made_applyBinary hw)).bind fun _ _ _ hw => keeps_placed hw _ _
  | member target name =>
    refine (inner (List.mem_singleton_self target)).bind fun t v hst hv => ?_
    apply Keeps.get
    intro m htm sound
    have held := value_grows htm hv
    refine (Keeps.ofExcept (p := D.bound) fun u found hmu hfound => ?_).bind
      (fun u found _ hb => keeps_value (hb span stack.display)) m (.refl _) sound
    obtain made | ⟨module, id, hd, hl⟩ := Value.made_or_local_of_member hfound
    · exact bound_of_value ((D.modest u).made made)
    · exact bound_grows hmu (sound.local? (D.scope_namespace held.self hd) hl)
  | index target slot =>
    refine (inner (List.mem_cons_self ..)).bind fun t v hst hv => ?_
    have second := inner (List.mem_cons_of_mem target (List.mem_singleton_self slot))
    refine (second.grows hst).bind fun u i htu _ => ?_
    exact (Keeps.ofExcept (p := D.value) fun x _ hux hw =>
      (D.modest x).index (value_grows (htu.trans hux) hv) hw).bind
        fun _ _ _ hw => keeps_relocated hw _ _
  | call callee lists =>
    refine (inner (List.mem_cons_self ..)).bind fun t v hst hv => ?_
    refine keeps_callAll (h.grows hst) (hs.grows hst) (fun c hc => ?_) _ hv
    exact (inner (List.mem_cons_of_mem callee hc)).grows hst
  | «return» value =>
    unfold Eval.construct
    dsimp only
    have throw {t : Store} {v : Value} (hv : D.value t v) :
        D.Keeps t D.value (throw (.returned v span)) := by
      refine .throw fun u htu w place hw => ?_
      cases hw
      exact value_grows htu hv
    split
    · cases value with
      | none => exact null.bind fun _ _ _ hv => throw hv
      | some value => exact (inner (List.mem_singleton_self value)).bind fun _ _ _ hv => throw hv
    · exact .fail
  | «break» | «continue» =>
    unfold Eval.construct
    dsimp only
    split
    · exact .throw fun _ _ _ _ hv => by cases hv
    · exact .fail
  | «if» cases otherwise =>
    exact (keeps_branches fun c hc => inner hc).bind fun _ _ _ _ => null
  | switch target subject cases otherwise =>
    refine (inner (List.mem_cons_self ..)).bind fun t v hst hv => ?_
    refine (keeps_bindTarget (D.frame_grows hst hs.top) hv).bind fun u _ htu _ => ?_
    refine (keeps_branches fun c hc => ?_).bind fun _ _ _ _ => null
    exact (inner (List.mem_cons_of_mem subject hc)).grows (hst.trans htu)
  | «for» target iterable body =>
    have each : D.Keeps s (fun _ _ => True) (Eval.forEach evaluator target iterable body stack) :=
      keeps_forEach hs.top (child false (List.mem_cons_self ..))
        fun c hc => child true (List.mem_cons_of_mem iterable hc)
    exact each.bind fun _ _ _ _ => null
  | «while» test body =>
    have holds : D.Keeps s (fun _ _ => True)
        (Eval.condition (fun c => evaluator c stack false) stack test) :=
      keeps_condition (child false (List.mem_cons_self ..))
    have again : D.Keeps s (fun _ _ => True) (Eval.pass (fun c => evaluator c stack true) body) :=
      keeps_pass fun c hc => child true (List.mem_cons_of_mem test hc)
    exact (keeps_repeatWhile n holds again).bind fun _ _ _ _ => null
  | handler body =>
    exact (keeps_handled fun c hc => inner hc).bind fun _ _ _ hv => keeps_placed hv _ _
  | «include» module =>
    exact keeps_includeModule h hs hcover (inner (List.mem_singleton_self module))

end Frames

/-! ## Evaluations and programs -/

/-- Evaluations keep a discipline that covers the scripts they may run. -/
theorem obeys_evaluate {around : Surroundings} (hcover : D.Covers around) (n : Nat) :
    D.Obeys s (evaluate around n) := by
  induction n with
  | zero => exact fun _ _ _ _ _ _ _ => .throw fun _ _ _ _ hv => by cases hv
  | succ n ih =>
    intro t node stack inLoop hst hc hs
    unfold evaluate
    exact (keeps_construct n (ih.grows hst) hcover hc hs inLoop).completed stack node.span

theorem keeps_program {evaluator : Evaluator} (h : D.Obeys s evaluator) {statements : List Node}
    (hc : ∀ c ∈ statements, D.code c) :
    D.Keeps s (fun t vs => ∀ v ∈ vs, D.value t v) (Eval.program evaluator statements) := by
  unfold Eval.program
  refine keeps_openTop.bind fun t scope hst hscope => ?_
  exact keeps_topLevel (h.grows hst) (.root hscope "<program>" .program) hc

/-- The statements of a text are allowed, if it can be read. -/
def Reads (D : Discipline) (name text : String) : Prop :=
  ∀ statements, (Source.mk name (Text.normalize text)).program = .ok statements →
    ∀ c ∈ statements, D.code c

/-- What is known after a run of a text. -/
structure After (D : Discipline) (m : Machine) (r : Except ProgramError (List Value) × Machine) :
    Prop where
  grows : m.store.Grows r.2.store
  sound : D.Sound r.2.store
  values : ∀ vs, r.1 = .ok vs → ∀ v ∈ vs, D.value r.2.store v

theorem after_run {m : Machine} (hm : D.Sound m.store) {around : Surroundings}
    (hcover : D.Covers around) (n : Nat) {name text : String} (hc : D.Reads name text) :
    D.After m (m.run around n name text) := by
  cases hp : (Source.mk name (Text.normalize text)).program with
  | error e =>
    rw [Machine.run, hp]
    exact ⟨.refl _, hm, fun vs hvs => by cases hvs⟩
  | ok statements =>
    have outcome := keeps_program (obeys_evaluate hcover n) (hc statements hp) m (.refl _) hm
    rw [m.run_of_program around n hp, Machine.attempt]
    rcases hr : Eval.program (evaluate around n) statements m with ⟨r, m'⟩
    rw [KeepsFrom, hr] at outcome
    cases r with
    | ok vs =>
      refine ⟨outcome.grows, outcome.sound, fun ws hws => ?_⟩
      cases hws
      exact outcome.value vs rfl
    | error stop => exact ⟨outcome.grows, outcome.sound, fun vs hvs => by cases hvs⟩

/-- The discipline holds before all runs and covers every script and every program. -/
structure Universal (D : Discipline) : Prop where
  start : D.Sound Machine.initial.store
  covers : ∀ around, D.Covers around
  reads : ∀ name text, D.Reads name text

theorem Universal.reached (h : D.Universal) {m : Machine} (hm : m.Reached) : D.Sound m.store := by
  induction hm with
  | initial => exact h.start
  | run around allowance name text _ ih =>
    exact (after_run ih (h.covers around) allowance (h.reads name text)).sound

/-! ## Visits -/

/-- The visit is made where the discipline holds. -/
structure Meets (D : Discipline) (s : Store) (v : Visit) : Prop where
  grows : s.Grows v.machine.store
  sound : D.Sound v.machine.store
  code : D.code v.node
  standing : D.Standing v.machine.store v.stack

/-- So it ends as the discipline asks. -/
theorem Meets.ending {v : Visit} (h : D.Meets s v) {around : Surroundings}
    (hcover : D.Covers around) :
    D.Outcome v.machine.store D.value (v.ending around) :=
  obeys_evaluate hcover v.allowance v.machine.store v.node v.stack v.inLoop (.refl _) h.code
    h.standing v.machine (.refl _) h.sound

/-- An evaluator that stops dead in a visit that is made elsewhere keeps the discipline. -/
theorem obeys_halting {around : Surroundings} (hcover : D.Covers around) {w : Visit}
    (hw : ¬ D.Meets s w) (m₁ : Machine) :
    D.Obeys s (w.halting m₁ (evaluate around w.allowance)) := by
  intro t node stack inLoop hst hc hs m htm hm
  have differs : (⟨node, stack, inLoop, m, w.allowance⟩ : Visit) ≠ w := by
    intro heq
    refine hw (heq ▸ ⟨hst.trans htm, hm, hc, hs.grows htm⟩)
  have same : w.halting m₁ (evaluate around w.allowance) node stack inLoop m =
      evaluate around w.allowance node stack inLoop m := if_neg differs
  rw [KeepsFrom, same]
  exact obeys_evaluate hcover w.allowance t node stack inLoop hst hc hs m htm hm

/-- The state that is left in a stop that the discipline rules out. -/
def nowhere (m : Machine) : Machine := { m with store := .empty }

theorem not_sound_empty : ¬ D.Sound .empty := fun h => Nat.not_lt_zero _ h.prelude.next

/-- The discipline passes from a visit to those that it makes. -/
theorem Meets.makes {around : Surroundings} (hcover : D.Covers around) {v w : Visit}
    (hv : D.Meets s v) (h : v.Makes around w) : D.Meets s w := by
  refine Classical.byContradiction fun hw => ?_
  let m₁ := nowhere v.machine
  obtain ⟨names, hstop⟩ := ((Visit.makes_iff around v w).mp h).2 m₁
  have keeps := keeps_construct w.allowance ((obeys_halting hcover hw m₁).grows hv.grows) hcover
    hv.code hv.standing v.inLoop v.machine (.refl _) hv.sound
  rw [KeepsFrom] at keeps
  rw [Visit.construct] at hstop
  rw [hstop] at keeps
  exact not_sound_empty keeps.sound

/-- It holds of the statements of a program. -/
theorem meets_statement {around : Surroundings} (hcover : D.Covers around) {m : Machine}
    (hm : D.Sound m.store) {statements : List Node} (hc : ∀ c ∈ statements, D.code c) {w : Visit}
    (h : Needs (fun eval => Eval.program eval statements m) (evaluate around w.allowance) w) :
    D.Meets m.store w := by
  refine Classical.byContradiction fun hw => ?_
  obtain ⟨names, hstop⟩ := h.halts_program (nowhere m)
  have keeps := keeps_program (obeys_halting hcover hw (nowhere m)) hc m (.refl _) hm
  rw [KeepsFrom, hstop] at keeps
  exact not_sound_empty keeps.sound

end Discipline

/-- All visits of a program are made where a discipline holds that holds at its start. -/
theorem Machine.Visits.meets {D : Discipline} {around : Surroundings} (hcover : D.Covers around)
    {m : Machine} (hm : D.Sound m.store) {n : Nat} {name text : String} (hc : D.Reads name text)
    {u : Visit} (h : m.Visits around n name text u) : D.Meets m.store u := by
  induction h with
  | statement hp hn h =>
    subst hn
    exact Discipline.meets_statement hcover hm (hc _ hp) h
  | inside _ h ih => exact ih.makes hcover h

end TracedScript
