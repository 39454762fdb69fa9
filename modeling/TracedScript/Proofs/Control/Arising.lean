import TracedScript.Proofs.Control.Differences
import TracedScript.Proofs.Control.Jumps
import TracedScript.Proofs.Syntax.Rows
import TracedScript.Proofs.Value.Blame

/-!
# Where failures arise

A construct fails with what comes from a node that it evaluates, in its own frame or in one that it
makes, or else right here: then the failure gets the frame of the construct and points at one of its
own spans. `ends_construct` says this for every evaluator and every state, so that what is known of
the evaluations inside is all that a law of failures has to say.
-/

namespace TracedScript

/-- The spans of the calls and includes that a node makes frames for, with the kinds of these. -/
def Node.sites (n : Node) : List (Span × FrameKind) :=
  match n.kind with
  | .call callee lists => lists.map fun list => (callee.span.through list.span, .function)
  | .include _ => [(n.span, .module)]
  | _ => []

namespace NodeKind

/-- The children whose values are used as keys of dictionaries. -/
def keys : NodeKind → List Node
  | .dict entries => entries.map (·.1)
  | .index _ slot => [slot]
  | _ => []

end NodeKind

/-- Spans among which are all that a construct points at by itself. -/
structure Node.Owns (n : Node) (own : Span → Prop) : Prop where
  self : own n.span
  child : ∀ c ∈ n.children, own c.span
  list : ∀ list ∈ n.kind.lists, own list.span
  argument : ∀ list ∈ n.kind.lists, ∀ a ∈ list.named, own a.span
  through : ∀ s t, own s → own t → own (s.through t)

/-- The failure has the given frame or none yet, and if it has a span, one of the given ones. -/
structure Failure.Local (stack : CallStack) (own : Span → Prop) (e : Failure) : Prop where
  stack : e.stack = none ∨ e.stack = some stack
  span : ∀ s, e.span = some s → own s

/-- If the stop is a failure, then one such that `q`. -/
def Stop.Fails (q : Failure → Prop) : Stop → Prop
  | .failed e => q e
  | _ => True

theorem Stop.Fails.imp {p q : Failure → Prop} {s : Stop} (h : s.Fails p)
    (hpq : ∀ e, p e → q e) : s.Fails q := by
  cases s with
  | failed e => exact hpq e h
  | returned | broke | continued | exhausted => trivial

/-- No state is ruled out and no stop. -/
def Terms.any : Terms := ⟨fun _ => True, fun _ _ => False⟩

/-- From whatever state, a result is such that `p` and a stop such that `q`. -/
abbrev Eval.Ends {α : Type} (p : α → Prop) (q : Stop → Prop) (x : Eval α) : Prop :=
  Terms.any.Agree p q x x

variable {stack : CallStack} {own : Span → Prop} {q : Failure → Prop}

namespace Failure

variable {e : Failure}

theorem Raw.locally (h : e.Raw own) (stack : CallStack) : e.Local stack own :=
  ⟨.inl h.stack, h.span⟩

/-- Completing a failure adds a span of the construct at most. -/
theorem Local.complete (h : e.Local stack own) {span : Span} (hs : own span) :
    ∀ s, (e.complete stack span).span = some s → own s := by
  intro s heq
  have known : (e.complete stack span).span = e.span.or (some span) := rfl
  rw [known] at heq
  cases hspan : e.span with
  | none =>
    rw [hspan] at heq
    exact Option.some.inj heq ▸ hs
  | some t =>
    rw [hspan] at heq
    exact h.span s (hspan.trans heq)

theorem Raw.complete (h : e.Raw own) (stack : CallStack) {span : Span} (hs : own span) :
    (e.complete stack span).Local stack own := by
  refine ⟨.inr ?_, (h.locally stack).complete hs⟩
  have recorded : (e.complete stack span).stack = e.stack.or (some stack) := rfl
  rw [recorded, h.stack]
  rfl

end Failure

/-! ## Failures of calls and of names -/

namespace Function

variable {e : Failure}

theorem raw_of_bindParameters {function : String} {params : List Parameter} {args : List Value}
    (h : bindParameters function params args = .error e) (ha : ∀ v ∈ args, v.Stands own) :
    e.Raw own := by
  induction params generalizing args with
  | nil => cases h
  | cons p ps ih =>
    cases args with
    | nil => cases h
    | cons v vs =>
      obtain ⟨hv, hvs⟩ := List.forall_mem_cons.mp ha
      have rest (h : (bindParameters function ps vs).map ((p.name, v.named p.name) :: ·) =
          .error e) : e.Raw own := by
        cases hp : bindParameters function ps vs with
        | ok bs =>
          rw [hp] at h
          cases h
        | error e' =>
          rw [hp] at h
          cases h
          exact ih hp hvs
      unfold bindParameters at h
      split at h
      · split at h
        · exact rest h
        · cases h
          exact Value.raw_blameHere hv _
      · exact rest h

theorem raw_of_bindOptions {f : Function} {function : String} {named : List NamedValue}
    (h : bindOptions f function named = .error e) (ha : ∀ a ∈ named, own a.span) : e.Raw own := by
  induction named with
  | nil => cases h
  | cons a rest ih =>
    obtain ⟨hhead, hrest⟩ := List.forall_mem_cons.mp ha
    unfold bindOptions at h
    split at h
    · cases ho : bindOptions f function rest with
      | ok bs =>
        rw [ho] at h
        cases h
      | error e' =>
        rw [ho] at h
        cases h
        exact ih ho hrest
    · cases h
      exact Fault.raw_failAt hhead _

end Function

/-- What a call is given points at spans of the construct that makes it. -/
structure Arguments.Given (own : Span → Prop) (args : Arguments) : Prop where
  positional : ∀ v ∈ args.positional, v.Given own
  named : ∀ a ∈ args.named, own a.span
  span : own args.span

theorem Function.raw_of_bind {f : Function} {function : String} {args : Arguments} {e : Failure}
    (h : f.bind function args = .error e) (ha : args.Given own) : e.Raw own := by
  unfold Function.bind at h
  split at h
  · cases h
    exact Fault.raw_failAt ha.span _
  obtain h | ⟨params, -, h⟩ := error_of_bind h
  · exact raw_of_bindParameters h fun v hv => (ha.positional v hv).stands
  obtain h | ⟨options, -, h⟩ := error_of_bind h
  · exact raw_of_bindOptions h ha.named
  · cases h

theorem Eval.raw_of_refusal {name : String} {current v : Value} {span : Span} {e : Failure}
    (h : refusal? name current v span = some e) (hs : own span) : e.Raw own := by
  unfold refusal? at h
  split at h
  · cases h
    exact Fault.raw_failAt hs _
  · split at h
    · cases h
      exact Value.raw_blame hs v _
    · cases h

theorem Eval.raw_of_moduleName {v : Value} {span : Span} {e : Failure}
    (h : moduleName v span = .error e) (hs : own span) : e.Raw own := by
  unfold moduleName at h
  split at h
  · split at h <;> cases h
    exact Value.raw_blame hs v _
  · cases h
    exact Value.raw_blame hs v _

namespace Eval

variable {α : Type} {p : α → Prop}

theorem Ends.trivially {q : Stop → Prop} {x : Eval α} (h : ∀ m, ∃ a, (x m).1 = .ok a) :
    x.Ends (fun _ => True) q := by
  refine Terms.Agree.of_fair fun m _ => ⟨trivial, fun _ _ => trivial, fun s hs => ?_⟩
  obtain ⟨a, ha⟩ := h m
  rw [ha] at hs
  cases hs

theorem Ends.fair {q : Stop → Prop} {x : Eval α} (h : x.Ends p q) (m : Machine) :
    Terms.any.Fair p q (x m) := by
  obtain ⟨-, fair⟩ | ⟨s, -, hs⟩ := h m trivial
  · exact fair
  · exact hs.elim

section Here

variable (hq : ∀ e : Failure, e.Local stack own → q e)
include hq

theorem ends_raw {e : Failure} (h : e.Raw own) : (fail e : Eval α).Ends p (Stop.Fails q) :=
  .fail (hq e (h.locally stack))

theorem ends_ofExcept {o : Except Failure α} (hv : ∀ a, o = .ok a → p a)
    (he : ∀ e, o = .error e → e.Raw own) : (ofExcept o).Ends p (Stop.Fails q) :=
  .ofExcept hv fun e h => hq e ((he e h).locally stack)

/-- What has been raised without a frame gets the frame of the construct. -/
theorem ends_completed {x : Eval α} (h : x.Ends p (Stop.Fails fun e => e.Raw own)) {span : Span}
    (hs : own span) : (completed stack span x).Ends p (Stop.Fails q) := by
  refine h.adapt (fun s hstop => ?_) fun _ _ => id
  cases s with
  | failed e => exact hq _ (hstop.complete stack hs)
  | returned | broke | continued | exhausted => trivial

/-! ### Names -/

theorem ends_read {name : String} {span : Span} (hs : own span) :
    (read name stack span).Ends (Value.Stands own) (Stop.Fails q) := by
  unfold read
  refine .get fun m hm => ?_
  split
  · exact Terms.Agree.pure (Value.stands_relocate hs _ _) m hm
  · exact ends_raw hq (Fault.raw_failAt hs _) m hm

theorem ends_assign {name : String} {v : Value} {span : Span} (hs : own span)
    (hv : v.Stands own) : (assign name v stack span).Ends (Value.Stands own) (Stop.Fails q) := by
  unfold assign
  refine .get fun m hm => ?_
  dsimp only
  split
  · split
    · rename_i e he
      exact ends_raw hq (raw_of_refusal he hs) m hm
    · exact ((Ends.trivially fun m => ⟨_, rfl⟩).bind fun _ _ => .pure hv) m hm
  · exact ends_raw hq (Fault.raw_failAt hs _) m hm

theorem ends_declare {name : String} {v : Value} {span : Span} (hs : own span)
    (hv : v.Stands own) : (declare name v stack span).Ends (Value.Stands own) (Stop.Fails q) := by
  unfold declare
  refine .get fun m hm => ?_
  dsimp only
  split
  · exact ends_raw hq (Fault.raw_failAt hs _) m hm
  · exact ((Ends.trivially fun m => ⟨_, rfl⟩).bind fun _ _ => .pure hv) m hm

theorem ends_bindTarget {target : Target} {v : Value} {span : Span} (hs : own span)
    (hv : v.Stands own) :
    (bindTarget target v stack span).Ends (Value.Stands own) (Stop.Fails q) := by
  unfold bindTarget
  split
  · exact ends_declare hq hs hv
  · exact ends_assign hq hs hv

end Here

/-! ### Nodes inside -/

/-- What comes of evaluating the given nodes: values of each such that `V`, failures such that
`q`. -/
def GivesOn (V : Node → Value → Prop) (q : Failure → Prop) (nodes : List Node)
    (eval : Node → Eval Value) : Prop := ∀ c ∈ nodes, (eval c).Ends (V c) (Stop.Fails q)

variable {V : Node → Value → Prop} {eval : Node → Eval Value} {nodes : List Node}

namespace GivesOn

theorem subset {few : List Node} (h : GivesOn V q nodes eval) (hs : ∀ c ∈ few, c ∈ nodes) :
    GivesOn V q few eval := fun c hc => h c (hs c hc)

/-- The values of several nodes, each with the node that it comes from. -/
theorem mapM (h : GivesOn V q nodes eval) :
    (nodes.mapM eval).Ends (fun vs => ∀ v ∈ vs, ∃ c ∈ nodes, V c v) (Stop.Fails q) :=
  Terms.Agree.mapM fun c hc => (h c hc).weaken (fun _ hv => ⟨c, hc, hv⟩) fun _ h => h

theorem block (h : GivesOn V q nodes eval) :
    (Eval.block eval nodes).Ends (fun _ => True) (Stop.Fails q) :=
  Terms.Agree.forM fun c hc => (h c hc).discard

end GivesOn

/-- A loop ends its jumps, and passes everything else on. -/
theorem ends_pass {body : List Node} (h : GivesOn V q body eval) :
    (pass eval body).Ends (fun _ => True) (Stop.Fails q) := by
  unfold pass
  refine Terms.Agree.tryCatch (h.block.bind fun _ _ => .pure trivial) (fun s hs => ?_)
    fun _ _ => False.elim
  cases s with
  | continued | broke => exact .pure trivial
  | returned | failed | exhausted => exact .throw hs

theorem ends_passes {bind : Value → Eval Unit} {pass : Eval Bool} {values : List Value}
    (hb : ∀ v, (bind v).Ends (fun _ => True) (Stop.Fails q))
    (hp : pass.Ends (fun _ => True) (Stop.Fails q)) :
    (passes bind pass values).Ends (fun _ => True) (Stop.Fails q) := by
  induction values with
  | nil => exact .pure trivial
  | cons v vs ih =>
    unfold passes
    refine (hb v).bind fun _ _ => hp.bind fun again _ => ?_
    cases again with
    | true => exact ih
    | false => exact .pure trivial

theorem ends_repeatWhile {test pass : Eval Bool} {n : Nat}
    (ht : test.Ends (fun _ => True) (Stop.Fails q))
    (hp : pass.Ends (fun _ => True) (Stop.Fails q)) :
    (repeatWhile test pass n).Ends (fun _ => True) (Stop.Fails q) := by
  induction n with
  | zero => exact .throw trivial
  | succ n ih =>
    unfold repeatWhile
    refine ht.bind fun holds _ => ?_
    cases holds with
    | false => exact .pure trivial
    | true =>
      refine hp.bind fun again _ => ?_
      cases again with
      | false => exact .pure trivial
      | true => exact ih

theorem ends_handled {body : List Node} (h : GivesOn V q body eval) :
    (handled eval body).Ends (fun _ => True) (Stop.Fails q) := by
  unfold handled
  refine Terms.Agree.tryCatch (h.block.bind fun _ _ => .pure trivial) (fun s hs => ?_)
    fun _ _ => False.elim
  cases s with
  | failed e =>
    dsimp only
    split
    · exact .throw hs
    · exact (Ends.trivially fun m => ⟨_, rfl⟩).bind fun _ _ => .pure trivial
  | returned | broke | continued | exhausted => exact .throw hs

/-- The body of a function can give anything, but it fails only as its statements do. -/
theorem ends_runBody {body : List Node} (h : GivesOn V q body eval) :
    (runBody eval body).Ends (fun _ => True) (Stop.Fails q) := by
  unfold runBody
  refine Terms.Agree.tryCatch (h.block.bind fun _ _ => .pure trivial) (fun s hs => ?_)
    fun _ _ => False.elim
  cases s with
  | returned => exact .pure trivial
  | broke | continued | failed | exhausted => exact .throw hs

section Constructs

variable (hV : ∀ c v, V c v → v.Given own) (hq : ∀ e : Failure, e.Local stack own → q e)
include hV hq

theorem ends_condition {test : Node} (ht : own test.span)
    (h : (eval test).Ends (V test) (Stop.Fails q)) :
    (condition eval stack test).Ends (fun _ => True) (Stop.Fails q) := by
  refine h.bind fun v hv => ends_completed hq ?_ ht
  exact .ofExcept (fun _ _ => trivial) fun e he => Value.raw_of_truth he (hV _ _ hv).stands

theorem ends_branches {cases : List Branch} {otherwise : Option (List Node)}
    (hn : ∀ c ∈ cases.flatMap Branch.children ++ otherwise.getD [], own c.span)
    (h : GivesOn V q (cases.flatMap Branch.children ++ otherwise.getD []) eval) :
    (branches eval stack otherwise cases).Ends (fun _ => True) (Stop.Fails q) := by
  induction cases with
  | nil => exact h.block
  | cons b bs ih =>
    have first : b.condition ∈ (b :: bs).flatMap Branch.children ++ otherwise.getD [] := by
      simp [Branch.children]
    have later {c : Node} (hc : c ∈ bs.flatMap Branch.children ++ otherwise.getD []) :
        c ∈ (b :: bs).flatMap Branch.children ++ otherwise.getD [] := by
      rw [List.flatMap_cons, List.append_assoc]
      exact List.mem_append_right _ hc
    unfold branches
    refine (ends_condition hV hq (hn _ first) (h _ first)).bind fun holds _ => ?_
    cases holds with
    | true => exact (h.subset (by simp +contextual [Branch.children])).block
    | false => exact ih (fun c hc => hn c (later hc)) (h.subset fun c => later)

omit hV in
theorem ends_forEach {evaluator : Evaluator} {target : Target} {iterable : Node}
    {body : List Node} (hi : own iterable.span)
    (h : (evaluator iterable stack false).Ends (V iterable) (Stop.Fails q))
    (hb : GivesOn V q body fun c => evaluator c stack true) :
    (forEach evaluator target iterable body stack).Ends (fun _ => True) (Stop.Fails q) := by
  unfold forEach
  refine h.bind fun v _ => ?_
  split
  · exact ends_raw hq (Value.raw_blame hi v _)
  · refine ends_passes (fun u => ?_) (ends_pass hb)
    exact (ends_bindTarget hq hi (Value.stands_relocate hi u _)).bind fun _ _ => .pure trivial

/-! ### Literals -/

theorem ends_array {items : List Node} (h : GivesOn V q items eval) :
    (array eval items).Ends (fun _ => True) (Stop.Fails q) := by
  refine h.mapM.bind fun vs hvs => ends_ofExcept hq (fun _ _ => trivial) fun e he => ?_
  refine Value.raw_of_array he fun v hv => ?_
  obtain ⟨c, -, hc⟩ := hvs v hv
  exact (hV c v hc).stands

theorem ends_tuple {items : List Node} (h : GivesOn V q items eval) :
    (tuple eval items).Ends (fun _ => True) (Stop.Fails q) := by
  refine h.mapM.bind fun vs hvs => ends_ofExcept hq (fun _ _ => trivial) fun e he => ?_
  refine Value.raw_of_tuple he fun v hv => ?_
  obtain ⟨c, -, hc⟩ := hvs v hv
  exact (hV c v hc).stands

/-- The failure of using the value of a node as a key: the value is to blame, or it is a tuple. -/
theorem fails_asKey {k : Node} {v : Value} {e : Failure} (hv : V k v)
    (hk : ∀ items, v.data = .tuple items → v.asKey = .error e → q e)
    (he : v.asKey = .error e) : q e := by
  by_cases ht : ∃ items, v.data = .tuple items
  · obtain ⟨items, hd⟩ := ht
    exact hk items hd he
  · have itself : v.unhashable = v := Value.unhashable_eq fun items hd => ht ⟨items, hd⟩
    have raw : e.Raw own := Value.raw_of_asKey he (itself.symm ▸ (hV k v hv).stands)
    exact hq e (raw.locally stack)

theorem ends_dict {entries : List (Node × Node)}
    (hk : ∀ k ∈ entries.map (·.1), ∀ v items e, V k v → v.data = .tuple items →
      v.asKey = .error e → q e)
    (h : GivesOn V q (entries.flatMap fun e => [e.1, e.2]) eval) :
    (dict eval entries).Ends (fun _ => True) (Stop.Fails q) := by
  unfold dict
  have pair : ∀ b ∈ entries, (do
      return (← eval b.1, ← eval b.2) : Eval (Value × Value)).Ends
      (fun p => ∃ b ∈ entries, V b.1 p.1 ∧ V b.2 p.2) (Stop.Fails q) := by
    intro b hb
    have label := h b.1 (List.mem_flatMap.mpr ⟨b, hb, by simp⟩)
    have value := h b.2 (List.mem_flatMap.mpr ⟨b, hb, by simp⟩)
    exact label.bind fun _ hl => value.bind fun _ hv => .pure ⟨b, hb, hl, hv⟩
  refine (Terms.Agree.mapM pair).bind fun ps hps => ?_
  refine .ofExcept (fun _ _ => trivial) fun e he => ?_
  have stands : ∀ p ∈ ps, p.1.Stands own ∧ p.2.Stands own := by
    intro p hp
    obtain ⟨b, -, hl, hv⟩ := hps p hp
    exact ⟨(hV _ _ hl).stands, (hV _ _ hv).stands⟩
  obtain raw | ⟨p, hp, he⟩ := Value.raw_or_asKey_of_dict he stands
  · exact hq e (raw.locally stack)
  · obtain ⟨b, hb, hl, -⟩ := hps p hp
    exact fails_asKey hV hq hl (fun items hd =>
      hk b.1 (List.mem_map_of_mem hb) p.1 items e hl hd) he

omit hV in
theorem ends_typeTag {node : Node} (hn : own node.span)
    (h : (eval node).Ends (V node) (Stop.Fails q)) :
    (typeTag eval node).Ends (fun _ => True) (Stop.Fails q) := by
  unfold typeTag
  refine h.bind fun v _ => ?_
  split
  · split
    · exact .pure trivial
    · exact ends_raw hq (Value.raw_blame hn v _)
  · exact ends_raw hq (Value.raw_blame hn v _)

omit hV in
theorem ends_function {literal : FunctionLiteral} {scope : ScopeId}
    (hn : ∀ c ∈ literal.children, own c.span) (h : GivesOn V q literal.children eval) :
    (function eval literal scope).Ends (fun _ => True) (Stop.Fails q) := by
  have tag {c : Node} (hc : c ∈ literal.children) := ends_typeTag hq (hn c hc) (h c hc)
  unfold function
  refine (Terms.Agree.mapM (p := fun _ => True) fun p hp => ?_).bind fun _ _ => ?_
  · refine (Terms.Agree.optionMapM fun c hc => tag ?_).bind fun _ _ => .pure trivial
    have ht : c ∈ p.type.toList := Option.mem_toList.mpr hc
    have hall : c ∈ literal.params.flatMap (·.type.toList) := List.mem_flatMap.mpr ⟨p, hp, ht⟩
    simp [FunctionLiteral.children, hall]
  refine (Terms.Agree.mapM (p := fun _ => True) fun o ho => ?_).bind fun _ _ => ?_
  · have hc : o.default ∈ literal.children := by
      have hall : o.default ∈ literal.options.map (·.default) := List.mem_map_of_mem ho
      simp [FunctionLiteral.children, hall]
    exact (h _ hc).bind fun _ _ => .pure trivial
  refine (Terms.Agree.optionMapM fun c hc => tag ?_).bind fun _ _ => ?_
  · have hr : c ∈ literal.returns.toList := Option.mem_toList.mpr hc
    simp [FunctionLiteral.children, hr]
  · exact (Ends.trivially fun m => ⟨_, rfl⟩).bind fun _ _ => .pure trivial

/-! ### Calls -/

omit hq in
theorem ends_arguments {list : ArgumentList} {callee : Span} (hc : own (callee.through list.span))
    (ha : ∀ a ∈ list.named, own a.span) (h : GivesOn V q list.children eval) :
    (arguments eval list callee).Ends
      (fun args => args.Given own ∧ args.span = callee.through list.span) (Stop.Fails q) := by
  have positional : GivesOn V q list.positional eval :=
    h.subset fun c hm => List.mem_append_left _ hm
  unfold arguments
  refine positional.mapM.bind fun vs hvs => ?_
  refine (Terms.Agree.mapM (p := fun a : NamedValue => own a.span) fun a hm => ?_).bind
    fun named hnamed => .pure ⟨⟨fun v hv => ?_, hnamed, hc⟩, rfl⟩
  · have hm' : a.value ∈ list.children :=
      List.mem_append_right _ (List.mem_map_of_mem hm)
    exact (h _ hm').bind fun _ _ => .pure (ha a hm)
  · obtain ⟨c, -, hv⟩ := hvs v hv
    exact hV c v hv

omit hV hq in
theorem ends_printLine (around : Surroundings) (line : String) {span : Span} (hs : own span) :
    (printLine around line span).Ends (fun _ => True) (Stop.Fails fun e => e.Raw own) := by
  unfold printLine
  refine .get fun m hm => ?_
  dsimp only
  split
  · exact Ends.trivially (fun m => ⟨_, rfl⟩) m hm
  · exact Terms.Agree.fail (Fault.raw_failAt hs _) m hm

omit hV in
theorem ends_callBuiltin (around : Surroundings) (f : Builtin) {args : Arguments}
    (ha : args.Given own) :
    (callBuiltin around f args stack).Ends (Value.Stands own) (Stop.Fails q) := by
  unfold callBuiltin
  split
  · rename_i option _ hn
    exact ends_raw hq (Fault.raw_failAt (ha.named option (by rw [hn]; exact .head _)) _)
  · split
    · exact ends_raw hq (Fault.raw_failAt ha.span _)
    · have result : (do
          let result ← ofExcept (f.result args.positional args.span)
          return result.relocate args.span stack.display : Eval Value).Ends (Value.Stands own)
          (Stop.Fails fun e => e.Raw own) :=
        (Terms.Agree.ofExcept (fun _ _ => trivial) fun e he =>
          Value.raw_of_result ha.span he ha.positional).bind
          fun v _ => .pure (Value.stands_relocate ha.span v _)
      refine ends_completed hq ?_ ha.span
      dsimp only
      split
      · exact (ends_printLine around _ ha.span).bind fun _ _ => result
      · exact result

end Constructs

/-! ### Frames -/

section Frames

variable {around : Surroundings} {evaluator : Evaluator}

/-- What comes of code that runs in frames of the given kind called from this frame: no failures but
such that `q`, and at the top level of a module no jump. -/
def FailsIn (q : Failure → Prop) (stack : CallStack) (site : Span) (kind : FrameKind)
    (evaluator : Evaluator) : Prop :=
  ∀ name scope c, (evaluator c (stack.call name scope site kind) false).Ends (fun _ => True)
    fun s => Stop.Fails q s ∧ (kind = .module → ¬ s.IsJump)

section Calls

variable (hq : ∀ e : Failure, e.Local stack own → q e)
include hq

theorem ends_callFunction {f : Function} {name : String} {args : Arguments} (ha : args.Given own)
    (hf : FailsIn q stack args.span .function evaluator) :
    (callFunction around evaluator f name args stack).Ends (Value.Stands own) (Stop.Fails q) := by
  unfold callFunction
  dsimp only
  split
  · exact (ends_raw (p := fun _ => False) hq (Fault.raw_failAt ha.span _)).bind
      fun _ h => h.elim
  refine (ends_ofExcept hq (p := fun _ => True) (fun _ _ => trivial) fun e he =>
    Function.raw_of_bind he ha).bind fun bs _ => ?_
  refine (Ends.trivially fun m => ⟨_, rfl⟩).bind fun scope _ => ?_
  refine (Ends.trivially fun m => ⟨_, rfl⟩).bind fun _ _ => ?_
  have body : GivesOn (fun _ _ => True) q f.body
      fun c => evaluator c (stack.call name scope args.span .function) false :=
    fun c _ => (hf name scope c).weaken (fun _ h => h) fun _ h => h.1
  refine (ends_runBody body).bind fun result _ => ?_
  have done : (pure (result.relocate args.span stack.display) : Eval Value).Ends
      (Value.Stands own) (Stop.Fails q) := .pure (Value.stands_relocate ha.span _ _)
  split
  · split
    · exact (ends_raw (p := fun _ => False) hq (Value.raw_blame ha.span _ _)).bind
        fun _ h => h.elim
    · exact done
  · exact done

theorem ends_call {callee : Value} {args : Arguments} (hc : callee.Stands own)
    (ha : args.Given own) (hf : FailsIn q stack args.span .function evaluator) :
    (call around evaluator callee args stack).Ends (Value.Stands own) (Stop.Fails q) := by
  unfold call
  split
  · exact ends_callBuiltin hq around _ ha
  · exact ends_callFunction hq ha hf
  · exact ends_raw hq (Value.raw_blameHere hc _)

theorem ends_callAll {V : Node → Value → Prop} (hV : ∀ c v, V c v → v.Given own)
    {callee : Span} {inLoop : Bool} {lists : List ArgumentList}
    (hs : ∀ list ∈ lists, own (callee.through list.span))
    (ha : ∀ list ∈ lists, ∀ a ∈ list.named, own a.span)
    (h : GivesOn V q (lists.flatMap ArgumentList.children) fun c => evaluator c stack inLoop)
    (hf : ∀ list ∈ lists, FailsIn q stack (callee.through list.span) .function evaluator)
    {v : Value} (hv : v.Stands own) :
    (callAll around evaluator callee stack inLoop v lists).Ends (Value.Stands own)
      (Stop.Fails q) := by
  induction lists generalizing v with
  | nil => exact .pure hv
  | cons list lists ih =>
    obtain ⟨hs, hss⟩ := List.forall_mem_cons.mp hs
    obtain ⟨ha, has⟩ := List.forall_mem_cons.mp ha
    obtain ⟨hf, hfs⟩ := List.forall_mem_cons.mp hf
    have inner : GivesOn V q list.children fun c => evaluator c stack inLoop :=
      h.subset (by simp +contextual)
    have later : GivesOn V q (lists.flatMap ArgumentList.children)
        fun c => evaluator c stack inLoop := h.subset (by simp +contextual)
    unfold callAll
    refine (ends_arguments hV hs ha inner).bind fun args hargs => ?_
    obtain ⟨given, hspan⟩ := hargs
    exact (ends_call hq hv given (hspan ▸ hf)).bind fun _ hr => ih hss has later hfs hr

end Calls

/-! ### Modules -/

theorem ends_topLevel {frame : CallStack} {statements : List Node}
    (h : ∀ c ∈ statements, (evaluator c frame false).Ends (fun _ => True)
      fun s => Stop.Fails q s ∧ ¬ s.IsJump) :
    (topLevel evaluator frame statements).Ends (fun _ => True) (Stop.Fails q) := by
  unfold topLevel
  refine (Terms.Agree.mapM (p := fun _ => True) fun c hc => (h c hc).adapt (fun s hs => ?_)
    fun _ _ => False.elim).weaken (fun _ _ => trivial) fun _ h => h
  obtain ⟨hs, hj⟩ := hs
  cases s with
  | returned | broke | continued => exact absurd trivial hj
  | failed | exhausted => exact hs

theorem ends_whileIncluding {α : Type} {p : α → Prop} {r : Stop → Prop} {name : String}
    {x : Eval α} (h : x.Ends p r) : (whileIncluding name x).Ends p r := by
  refine Terms.Agree.of_fair fun m _ => ?_
  have inner := h.fair { m with including := m.including ++ [name] }
  exact ⟨trivial, inner.value, inner.stop⟩

section Modules

variable (hq : ∀ e : Failure, e.Local stack own → q e)
include hq

theorem ends_moduleScope {name : String} {span : Span} (hs : own span)
    (hf : FailsIn q stack span .module evaluator) :
    (moduleScope around evaluator name stack span).Ends (fun _ => True) (Stop.Fails q) := by
  have opens {parent : Option ScopeId} : (openScope parent).Ends (fun _ => True) (Stop.Fails q) :=
    Ends.trivially fun m => ⟨_, rfl⟩
  unfold moduleScope
  dsimp only
  split
  · unfold runScript
    refine opens.bind fun scope _ => ?_
    dsimp only
    split
    · exact ends_raw hq (Value.raw_failAt_withOrigin hs _ _)
    · refine (ends_whileIncluding (ends_topLevel fun c _ => ?_)).bind fun _ _ => .pure trivial
      exact (hf _ scope c).weaken (fun _ h => h) fun _ h => ⟨h.1, h.2 rfl⟩
  · split
    · exact opens.bind fun _ _ => (Ends.trivially fun m => ⟨_, rfl⟩).bind fun _ _ => .pure trivial
    · exact ends_raw hq (Fault.raw_failAt hs _)

theorem ends_includeModule {module : Node} {inLoop : Bool} {span : Span} {p : Value → Prop}
    (hm : own module.span) (hs : own span)
    (h : (evaluator module stack inLoop).Ends p (Stop.Fails q))
    (hf : FailsIn q stack span .module evaluator) :
    (includeModule around evaluator module stack span inLoop).Ends (Value.Stands own)
      (Stop.Fails q) := by
  unfold includeModule
  refine h.bind fun v _ => ?_
  refine (ends_ofExcept hq (p := fun _ => True) (fun _ _ => trivial) fun e he =>
    raw_of_moduleName he hm).bind fun name _ => ?_
  refine .get fun m hstate => ?_
  dsimp only
  split
  · exact ((ends_raw (p := fun _ => False) hq (Fault.raw_failAt hs _)).bind
      fun _ h => h.elim) m hstate
  · refine ((ends_moduleScope hq hs hf).bind fun scope _ => ?_) m hstate
    exact ends_declare hq hs (Value.stands_place hs _ _)

end Modules

/-! ### All constructs -/

/-- Whatever evaluator a construct is evaluated with: it gives a value that stands at a span of its
own, and fails as what is evaluated inside does, with a failure of its own, or as a tuple does that
it uses as a key. -/
theorem ends_construct {node : Node} {V : Node → Value → Prop} (n : Nat) {inLoop : Bool}
    (owns : node.Owns own) (hV : ∀ c v, V c v → v.Given own)
    (hq : ∀ e : Failure, e.Local stack own → q e)
    (hk : ∀ k ∈ node.kind.keys, ∀ v items e, V k v → v.data = .tuple items →
      v.asKey = .error e → q e)
    (hc : ∀ b, GivesOn V q node.children fun c => evaluator c stack b)
    (hf : ∀ f ∈ node.sites, FailsIn q stack f.1 f.2 evaluator) :
    (construct around n evaluator node stack inLoop).Ends (Value.Stands own) (Stop.Fails q) := by
  obtain ⟨kind, span⟩ := node
  have hs : own span := owns.self
  have inner {c : Node} (h : c ∈ kind.children) := hc inLoop c h
  have spans {c : Node} (h : c ∈ kind.children) : own c.span := owns.child c h
  have placed (v : Value) : Value.Stands own (v.place span stack.display) :=
    Value.stands_place hs v _
  cases kind with
  | int | float | str => exact .pure (placed _)
  | array items => exact (ends_array hV hq (hc inLoop)).bind fun _ _ => .pure (placed _)
  | tuple items => exact (ends_tuple hV hq (hc inLoop)).bind fun _ _ => .pure (placed _)
  | dict entries => exact (ends_dict hV hq hk (hc inLoop)).bind fun _ _ => .pure (placed _)
  | function literal =>
    exact (ends_function hq (fun c => spans) (hc inLoop)).bind fun _ _ => .pure (placed _)
  | read name => exact ends_read hq hs
  | assign name value =>
    exact (inner (List.mem_singleton_self value)).bind fun _ hv =>
      ends_assign hq hs (hV _ _ hv).stands
  | declare name value =>
    exact (inner (List.mem_singleton_self value)).bind fun _ hv =>
      ends_declare hq hs (hV _ _ hv).stands
  | declareNull name => exact ends_declare hq hs (placed _)
  | unary op operand =>
    refine (inner (List.mem_singleton_self operand)).bind fun v hv => ?_
    exact (ends_ofExcept (p := fun _ => True) hq (fun _ _ => trivial) fun e he =>
      Value.raw_of_applyUnary he (hV _ _ hv).stands).bind fun _ _ => .pure (placed _)
  | binary left op right =>
    refine (inner (List.mem_cons_self ..)).bind fun v hv => ?_
    refine (inner (List.mem_cons_of_mem _ (List.mem_singleton_self right))).bind fun w hw => ?_
    exact (ends_ofExcept (p := fun _ => True) hq (fun _ _ => trivial) fun e he =>
      Value.raw_of_applyBinary owns.through (hV _ _ hv).stands (hV _ _ hw).stands he).bind
      fun _ _ => .pure (placed _)
  | member target name =>
    refine (inner (List.mem_singleton_self target)).bind fun v hv => ?_
    refine .get fun m hm => ?_
    exact ((ends_ofExcept (p := fun _ => True) hq (fun _ _ => trivial) fun e he =>
      Value.raw_of_member hs he).bind fun v _ => .pure (Value.stands_relocate hs v _)) m hm
  | index target slot =>
    refine (inner (List.mem_cons_self ..)).bind fun v hv => ?_
    refine (inner (List.mem_cons_of_mem _ (List.mem_singleton_self slot))).bind fun w hw => ?_
    refine Terms.Agree.bind (p := fun _ => True) (.ofExcept (fun _ _ => trivial) fun e he => ?_)
      fun v _ => .pure (Value.stands_relocate hs v _)
    obtain raw | he := Value.raw_or_asKey_of_index hs he
    · exact hq e (raw.locally stack)
    · exact fails_asKey hV hq hw (fun items hd =>
        hk slot (List.mem_singleton_self slot) w items e hw hd) he
  | call callee lists =>
    refine (inner (List.mem_cons_self ..)).bind fun v hv => ?_
    refine ends_callAll hq hV (fun list hl => ?_) owns.argument
      ((hc inLoop).subset fun c hm => List.mem_cons_of_mem _ hm) (fun list hl => ?_)
      (hV _ _ hv).stands
    · exact owns.through _ _ (spans (List.mem_cons_self ..)) (owns.list list hl)
    · exact hf _ (List.mem_map.mpr ⟨list, hl, rfl⟩)
  | «return» value =>
    unfold construct
    dsimp only
    split
    · cases value with
      | none => exact (Terms.Agree.pure (p := fun _ => True) trivial).bind fun _ _ => .throw trivial
      | some value => exact (inner (List.mem_singleton_self value)).bind fun _ _ => .throw trivial
    · exact ends_raw hq (Fault.raw_failAt hs _)
  | «break» | «continue» =>
    unfold construct
    dsimp only
    split
    · exact .throw trivial
    · exact ends_raw hq (Fault.raw_failAt hs _)
  | «if» cases otherwise =>
    exact (ends_branches hV hq (fun c => spans) (hc inLoop)).bind fun _ _ => .pure (placed _)
  | switch target subject cases otherwise =>
    refine (inner (List.mem_cons_self ..)).bind fun v hv => ?_
    refine (ends_bindTarget hq (spans (List.mem_cons_self ..)) (hV _ _ hv).stands).bind
      fun _ _ => ?_
    exact (ends_branches hV hq (fun c hm => spans (List.mem_cons_of_mem _ hm))
      ((hc inLoop).subset fun c hm => List.mem_cons_of_mem _ hm)).bind fun _ _ => .pure (placed _)
  | «for» target iterable body =>
    exact (ends_forEach hq (spans (List.mem_cons_self ..)) (hc false _ (List.mem_cons_self ..))
      ((hc true).subset fun c hm => List.mem_cons_of_mem _ hm)).bind fun _ _ => .pure (placed _)
  | «while» test body =>
    have tested : (condition (fun c => evaluator c stack false) stack test).Ends (fun _ => True)
        (Stop.Fails q) :=
      ends_condition hV hq (spans (List.mem_cons_self ..)) (hc false test (List.mem_cons_self ..))
    have passed := (hc true).subset fun c (hm : c ∈ body) => List.mem_cons_of_mem test hm
    exact (ends_repeatWhile tested (ends_pass passed)).bind fun _ _ => .pure (placed _)
  | handler body =>
    exact (ends_handled (hc inLoop)).bind fun _ _ => .pure (placed _)
  | «include» module =>
    exact ends_includeModule hq (spans (List.mem_singleton_self module)) hs
      (inner (List.mem_singleton_self module)) (hf _ (List.mem_singleton.mpr rfl))

end Frames

end Eval

/-! ## Visits -/

namespace Visit

section Marking

variable {around : Surroundings} {n : Nat} {bad : Visit → Prop}

/-- Marking does nothing to the other visits. -/
theorem under_marking {k : Nat} {w : Visit} (hn : w.allowance = n) (h : ¬ bad w) :
    w.under (marking bad k n (evaluate around n)) = w.ending around := by
  subst hn
  exact if_neg h

/-- A run that stops dead in the bad visits ends otherwise as the evaluation of a good one. -/
theorem ends_marking {k : Nat} {node : Node} {stack : CallStack} {inLoop : Bool}
    {p : Value → Prop} {q : Stop → Prop} (hq : q .exhausted)
    (h : ∀ m, ¬ bad ⟨node, stack, inLoop, m, n⟩ →
      Terms.any.Fair p q (ending around ⟨node, stack, inLoop, m, n⟩)) :
    (marking bad k n (evaluate around n) node stack inLoop).Ends p q := by
  refine Terms.Agree.of_fair fun m _ => ?_
  let w : Visit := ⟨node, stack, inLoop, m, n⟩
  by_cases hw : bad w
  · have ends : marking bad k n (evaluate around n) node stack inLoop m =
        (.error .exhausted, w.mark k) := if_pos hw
    rw [ends]
    refine ⟨trivial, fun v hv => (by cases hv), fun s hs => ?_⟩
    cases hs
    exact hq
  · have ends : marking bad k n (evaluate around n) node stack inLoop m = w.ending around :=
      if_neg hw
    rw [ends]
    exact h m hw

end Marking

/-- The construct of a visit ends as `ends_construct` says if the visits that it makes do, or else
it makes one of those that do not. -/
theorem makes_or_ends (around : Surroundings) (own : Span → Prop) {u : Visit} {n : Nat}
    {V : Node → Value → Prop} (hn : u.allowance = n + 1) (bad : Visit → Prop)
    (owns : u.node.Owns own)
    (hV : ∀ c v, V c v → v.Given own) (hq : ∀ e : Failure, e.Local u.stack own → q e)
    (hk : ∀ k ∈ u.node.kind.keys, ∀ v items e, V k v → v.data = .tuple items →
      v.asKey = .error e → q e)
    (hc : ∀ c ∈ u.node.children, ∀ b m, ¬ bad ⟨c, u.stack, b, m, n⟩ →
      Terms.any.Fair (V c) (Stop.Fails q) (ending around ⟨c, u.stack, b, m, n⟩))
    (hf : ∀ f ∈ u.node.sites, ∀ name scope c m,
      ¬ bad ⟨c, u.stack.call name scope f.1 f.2, false, m, n⟩ →
      Terms.any.Fair (fun _ => True) (Stop.Fails q)
        (ending around ⟨c, u.stack.call name scope f.1 f.2, false, m, n⟩)) :
    (∃ w, u.Makes around w ∧ bad w) ∨
      Terms.any.Fair (Value.Stands own) (Stop.Fails q)
        (u.construct around n (evaluate around n)) := by
  let other := marking bad 0 n (evaluate around n)
  have ends : (Eval.construct around n other u.node u.stack u.inLoop).Ends (Value.Stands own)
      (Stop.Fails q) := by
    refine Eval.ends_construct n owns hV hq hk (fun b c hm => ?_) fun f hm name scope c => ?_
    · exact ends_marking trivial (hc c hm b)
    · refine ends_marking ⟨trivial, fun _ => id⟩ fun m hgood => ?_
      obtain ⟨-, -, stop⟩ := hf f hm name scope c m hgood
      refine ⟨trivial, fun _ _ => trivial, fun s hs => ⟨stop s hs, fun hmodule => ?_⟩⟩
      have outside : (u.stack.call name scope f.1 f.2).inFunction = false := by
        rw [CallStack.inFunction, CallStack.call, hmodule]
        rfl
      exact Eval.stays_of_fits outside (stops_evaluate around n c _ false) m s hs
  by_cases heq : u.construct around n other = u.construct around n (evaluate around n)
  · refine .inr ?_
    rw [← heq]
    exact ends.fair u.machine
  · obtain ⟨w, hw, hne⟩ := exists_makes hn heq
    have hwn : w.allowance = n := by
      have := hw.1
      omega
    refine .inl ⟨w, hw, Classical.byContradiction fun hgood => ?_⟩
    exact hne (under_marking hwn hgood)

end Visit

end TracedScript
