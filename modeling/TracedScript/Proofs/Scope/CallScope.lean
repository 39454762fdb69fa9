import Mathlib.Data.List.Forall2
import TracedScript.Proofs.Scope.BuiltInNames
import TracedScript.Proofs.Scope.Definitions
import TracedScript.Proofs.Scope.Reach

/-!
# How calls start and end

A call of a function of the program is refused before it has changed anything, or its body starts in
a fresh scope, which holds the parameters and the options and nothing else. Main statement:
`calls_refused_or_started`.

The scope is filled in one go with the arguments, the defaults and what the call gives for options.
As all names are different, the arguments stay as they are, and of what is given for an option the
last one counts: `setAll_bind`.
-/

namespace TracedScript

/-! ## Arguments and parameters -/

/-- The value may be given for the parameter. -/
def Parameter.Admits (p : Parameter) (v : Value) : Prop :=
  ∀ kind, p.kind = some kind → v.kind = kind

/-- What the call gives last for an option. -/
def Arguments.last? (args : Arguments) (name : String) : Option Value :=
  (args.named.findRev? fun a => a.name = name).map (·.value)

namespace Function

variable {f : Function} {function : String} {args : Arguments} {limit depth : Nat} {e : Failure}
  {ps : List Parameter} {vs : List Value} {named : List NamedValue}

/-- All parameters and options have different names. -/
def DistinctNames (f : Function) : Prop := f.names.Nodup

/-- The failure of the first argument that is not of the kind of its parameter. -/
inductive Mismatch (function : String) : List Parameter → List Value → Failure → Prop where
  | here {p : Parameter} {v : Value} {kind : Kind} {ps : List Parameter} {vs : List Value} :
    p.kind = some kind → v.kind ≠ kind →
    Mismatch function (p :: ps) (v :: vs)
      (v.blameHere (.argumentKind p.name function kind v.kind))
  | later {p : Parameter} {v : Value} {ps : List Parameter} {vs : List Value} {e : Failure} :
    p.Admits v → Mismatch function ps vs e → Mismatch function (p :: ps) (v :: vs) e

/-- The failure of the first option that the function does not have. -/
inductive Unknown (f : Function) (function : String) : List NamedValue → Failure → Prop where
  | here {a : NamedValue} {rest : List NamedValue} : a.name ∉ f.options.map (·.name) →
    Unknown f function (a :: rest) ((Fault.noOption function a.name).failAt a.span)
  | later {a : NamedValue} {rest : List NamedValue} {e : Failure} :
    a.name ∈ f.options.map (·.name) → Unknown f function rest e → Unknown f function (a :: rest) e

/-- The failure for which a call is refused: it is too deep, or else has a wrong number of
arguments, or else an argument of a wrong kind, or else an unknown option. -/
inductive Refuses (f : Function) (function : String) (args : Arguments) (limit depth : Nat) :
    Failure → Prop where
  | depth : limit ≤ depth → Refuses f function args limit depth
    ((Fault.tooDeep limit).failAt args.span)
  | count : depth < limit → args.positional.length ≠ f.params.length →
    Refuses f function args limit depth
      ((Fault.wrongCount function (Fault.decimal f.params.length)
        args.positional.length).failAt args.span)
  | kind {e : Failure} : depth < limit → args.positional.length = f.params.length →
    Mismatch function f.params args.positional e → Refuses f function args limit depth e
  | option {e : Failure} : depth < limit → List.Forall₂ Parameter.Admits f.params args.positional →
    Unknown f function args.named e → Refuses f function args limit depth e

/-- Nothing is wrong with the call. -/
structure Accepts (f : Function) (args : Arguments) (limit depth : Nat) : Prop where
  depth : depth < limit
  kinds : List.Forall₂ Parameter.Admits f.params args.positional
  options : ∀ a ∈ args.named, a.name ∈ f.options.map (·.name)

/-- What the scope of a call is to hold: each parameter with its argument, and each option with what
is given for it last, or else with its default. -/
def locals (f : Function) (args : Arguments) : Bindings :=
  List.zipWith (fun p v => (p.name, v.named p.name)) f.params args.positional ++
    f.options.map fun o => (o.name, ((args.last? o.name).getD o.default).named o.name)

theorem admits_or_mismatch (function : String) (h : vs.length = ps.length) :
    List.Forall₂ Parameter.Admits ps vs ∨ ∃ e, Mismatch function ps vs e := by
  induction ps generalizing vs with
  | nil =>
    obtain rfl := List.length_eq_zero_iff.mp h
    exact .inl .nil
  | cons p ps ih =>
    cases vs with
    | nil => cases h
    | cons v vs =>
      by_cases wrong : ∃ kind, p.kind = some kind ∧ v.kind ≠ kind
      · obtain ⟨kind, hp, hv⟩ := wrong
        exact .inr ⟨_, .here hp hv⟩
      · have admits : p.Admits v := by simpa [Parameter.Admits] using wrong
        obtain all | ⟨e, mismatch⟩ := ih (Nat.succ.inj h)
        · exact .inl (.cons admits all)
        · exact .inr ⟨e, .later admits mismatch⟩

theorem known_or_unknown (f : Function) (function : String) (named : List NamedValue) :
    (∀ a ∈ named, a.name ∈ f.options.map (·.name)) ∨ ∃ e, Unknown f function named e := by
  induction named with
  | nil => exact .inl (List.forall_mem_nil _)
  | cons a rest ih =>
    by_cases known : a.name ∈ f.options.map (·.name)
    · obtain all | ⟨e, unknown⟩ := ih
      · exact .inl (List.forall_mem_cons.mpr ⟨known, all⟩)
      · exact .inr ⟨e, .later known unknown⟩
    · exact .inr ⟨_, .here known⟩

/-- A call is either refused or accepted. -/
theorem refuses_or_accepts (f : Function) (function : String) (args : Arguments)
    (limit depth : Nat) :
    (∃ e, f.Refuses function args limit depth e) ∨ f.Accepts args limit depth := by
  by_cases hd : depth < limit
  · by_cases hc : args.positional.length = f.params.length
    · obtain kinds | ⟨e, mismatch⟩ := admits_or_mismatch function hc
      · obtain options | ⟨e, unknown⟩ := known_or_unknown f function args.named
        · exact .inr ⟨hd, kinds, options⟩
        · exact .inl ⟨e, .option hd kinds unknown⟩
      · exact .inl ⟨e, .kind hd hc mismatch⟩
    · exact .inl ⟨_, .count hd hc⟩
  · exact .inl ⟨_, .depth (Nat.le_of_not_lt hd)⟩

/-! ## What the call binds -/

theorem bindParameters_of_admits (h : List.Forall₂ Parameter.Admits ps vs) :
    bindParameters function ps vs =
      .ok (List.zipWith (fun p v => (p.name, v.named p.name)) ps vs) := by
  induction h with
  | nil => rfl
  | @cons p v ps vs admits _ ih =>
    rw [bindParameters, ih, List.zipWith_cons_cons]
    split
    · rename_i kind hp
      rw [if_pos (admits kind hp)]
      rfl
    · rfl

theorem bindParameters_of_mismatch (h : Mismatch function ps vs e) :
    bindParameters function ps vs = .error e := by
  induction h with
  | here hp hv => simp only [bindParameters, hp, if_neg hv]
  | @later p v ps vs e admits _ ih =>
    rw [bindParameters, ih]
    split
    · rename_i kind hp
      rw [if_pos (admits kind hp)]
      rfl
    · rfl

theorem any_option_iff (f : Function) (name : String) :
    (f.options.any fun o => o.name = name) = true ↔ name ∈ f.options.map (·.name) := by
  simp [List.any_eq_true, List.mem_map]

theorem bindOptions_of_known (h : ∀ a ∈ named, a.name ∈ f.options.map (·.name)) :
    f.bindOptions function named = .ok (named.map fun a => (a.name, a.value.named a.name)) := by
  induction named with
  | nil => rfl
  | cons a rest ih =>
    obtain ⟨known, later⟩ := List.forall_mem_cons.mp h
    rw [bindOptions, if_pos ((f.any_option_iff a.name).mpr known), ih later]
    rfl

theorem bindOptions_of_unknown (h : Unknown f function named e) :
    f.bindOptions function named = .error e := by
  induction h with
  | here unknown => rw [bindOptions, if_neg (mt (f.any_option_iff _).mp unknown)]
  | later known _ ih =>
    rw [bindOptions, if_pos ((f.any_option_iff _).mpr known), ih]
    rfl

theorem bind_of_accepts (h : f.Accepts args limit depth) :
    f.bind function args =
      .ok (List.zipWith (fun p v => (p.name, v.named p.name)) f.params args.positional ++
        f.options.map (fun o => (o.name, o.default.named o.name)) ++
        args.named.map fun a => (a.name, a.value.named a.name)) := by
  have count : args.positional.length = f.params.length := h.kinds.length_eq.symm
  rw [Function.bind, if_neg (not_not.mpr count), bindParameters_of_admits h.kinds,
    bindOptions_of_known h.options]
  rfl

/-- What the binding of the arguments says of a refused call, unless it is only too deep. -/
theorem bind_of_refuses (h : f.Refuses function args limit depth e) (hd : depth < limit) :
    f.bind function args = .error e := by
  cases h with
  | depth deep => exact absurd hd (Nat.not_lt_of_le deep)
  | count _ hc =>
    rw [Function.bind, if_pos hc]
    rfl
  | kind _ hc mismatch =>
    rw [Function.bind, if_neg (not_not.mpr hc), bindParameters_of_mismatch mismatch]
    rfl
  | option _ kinds unknown =>
    have count : args.positional.length = f.params.length := kinds.length_eq.symm
    rw [Function.bind, if_neg (not_not.mpr count), bindParameters_of_admits kinds,
      bindOptions_of_unknown unknown]
    rfl

/-- What is given for an option last is held by the binding of its name. -/
theorem last?_named (args : Arguments) (name : String) :
    Bindings.last? (args.named.map fun a => (a.name, a.value.named a.name)) name =
      (args.last? name).map fun v => v.named name := by
  obtain ⟨positional, named, span⟩ := args
  unfold Arguments.last?
  induction named with
  | nil => rfl
  | cons a rest ih =>
    rw [List.map_cons, Bindings.last?_cons, ih, List.findRev?]
    dsimp only
    by_cases h : a.name = name
    · subst h
      cases rest.findRev? fun b => b.name = a.name <;> simp
    · cases rest.findRev? fun b => b.name = name <;> simp [h]

theorem names_of_admits (h : List.Forall₂ Parameter.Admits ps vs) :
    (List.zipWith (fun p v => (p.name, v.named p.name)) ps vs).map (·.1) = ps.map (·.name) := by
  induction h with
  | nil => rfl
  | cons _ _ ih => rw [List.zipWith_cons_cons, List.map_cons, ih, List.map_cons]

/-- All names being different, the scope holds what it is to hold. -/
theorem setAll_bind (h : f.Accepts args limit depth) (hd : f.DistinctNames) :
    Bindings.setAll []
      (List.zipWith (fun p v => (p.name, v.named p.name)) f.params args.positional ++
        f.options.map (fun o => (o.name, o.default.named o.name)) ++
        args.named.map fun a => (a.name, a.value.named a.name)) = f.locals args := by
  have optionNames : (f.options.map fun o => (o.name, o.default.named o.name)).map (·.1) =
      f.options.map (·.name) := List.map_map
  rw [Bindings.setAll_renewed, locals, List.map_map]
  · congr 1
    apply List.map_congr_left
    intro o _
    rw [Function.comp_apply, last?_named]
    cases args.last? o.name <;> rfl
  · rw [List.map_append, names_of_admits h.kinds, optionNames]
    exact hd
  · intro b hb
    obtain ⟨a, ha, rfl⟩ := List.mem_map.mp hb
    exact optionNames ▸ h.options a ha

end Function

/-! ## From the start of a call to its end -/

/-- `m'` is the state in which the body of a called function starts, with `scope` for its scope. -/
structure Function.Starts (f : Function) (args : Arguments) (m m' : Machine) (scope : ScopeId) :
    Prop where
  /-- The scope did not exist before, and is the only one that is new. -/
  fresh : m.store.next = scope
  next : m'.store.next = scope + 1
  parent : m'.store.parent? scope = some f.closure
  bindings : m'.store.bindings scope = f.locals args
  others : ∀ id < scope, m'.store.scopes[id]? = m.store.scopes[id]?
  printed : m'.printed = m.printed
  including : m'.including = m.including
  nextId : m'.nextId = m.nextId

/-- The value that a body gives which ends like this. -/
inductive Stop.Results : Except Stop Unit → Value → Prop where
  | ran : Results (.ok ()) .null
  | returned {v : Value} {span : Span} : Results (.error (.returned v span)) v

/-- How a call ends whose body ends in a given way: with the value of the body, if it is of the kind
that is declared; what is no `return` passes through. -/
inductive Function.Ends (f : Function) (function : String) (span : Span) (display : String) :
    Ending Unit → Ending Value → Prop where
  | value {r : Except Stop Unit} {m : Machine} {v : Value} : Stop.Results r v →
    (∀ kind, f.returns = some kind → v.kind = kind) →
    Ends f function span display (r, m) (.ok (v.relocate span display), m)
  | wrongKind {r : Except Stop Unit} {m : Machine} {v : Value} {kind : Kind} : Stop.Results r v →
    f.returns = some kind → v.kind ≠ kind →
    Ends f function span display (r, m)
      (.error (.failed (v.blame (.returnKind function kind v.kind) span)), m)
  | stopped {s : Stop} {m : Machine} : (∀ v at_, s ≠ .returned v at_) →
    Ends f function span display (.error s, m) (.error s, m)

theorem Function.starts_opened {f : Function} {args : Arguments} {limit depth : Nat}
    (h : f.Accepts args limit depth) (hd : f.DistinctNames) (m : Machine) :
    f.Starts args m
      { m with
        store := (m.store.add (some f.closure)).defineAll m.store.next
          (List.zipWith (fun p v => (p.name, v.named p.name)) f.params args.positional ++
            f.options.map (fun o => (o.name, o.default.named o.name)) ++
            args.named.map fun a => (a.name, a.value.named a.name)) } m.store.next where
  fresh := rfl
  next := by rw [Store.next_defineAll, Store.next_add]
  parent := by rw [Store.parent?_defineAll, Store.parent?_add, if_pos rfl]
  bindings := by
    have room : m.store.next < (m.store.add (some f.closure)).next := by
      rw [Store.next_add]
      exact Nat.lt_succ_self _
    have empty : m.store.bindings m.store.next = [] :=
      Store.bindings_of_next_le _ (Nat.le_refl _)
    rw [Store.bindings_defineAll_self _ room, Store.bindings_add, empty, setAll_bind h hd]
  others id hid := by
    rw [Store.scopes_defineAll_of_ne _ (Nat.ne_of_lt hid), Store.scopes_add_of_lt _ hid]
  printed := rfl
  including := rfl
  nextId := rfl

namespace Eval

variable {around : Surroundings} {eval : Evaluator} {f : Function} {function : String}
  {args : Arguments} {stack : CallStack} {m m' : Machine}

theorem runBody_of_results {eval : Node → Eval Value} {body : List Node} {r : Except Stop Unit}
    {v : Value} (h : block eval body m = (r, m')) (hr : Stop.Results r v) :
    runBody eval body m = (.ok v, m') := by
  unfold runBody
  rw [tryCatch_apply, bind_apply, h]
  cases hr <;> rfl

theorem callFunction_of_refuses {e : Failure}
    (h : f.Refuses function args around.settings.maxDepth stack.top.depth e) :
    callFunction around eval f function args stack m = (.error (.failed e), m) := by
  unfold callFunction
  dsimp only
  by_cases deep : around.settings.maxDepth ≤ stack.top.depth
  · rw [if_pos deep]
    cases h with
    | depth => rfl
    | count hd | kind hd | option hd => exact absurd hd (Nat.not_lt_of_le deep)
  · rw [if_neg deep, Function.bind_of_refuses h (Nat.lt_of_not_le deep)]
    rfl

theorem callFunction_of_accepts (hd : f.DistinctNames)
    (h : f.Accepts args around.settings.maxDepth stack.top.depth) :
    ∃ m', f.Starts args m m' m.store.next ∧
      f.Ends function args.span stack.display
        (block (fun node =>
          eval node (stack.call function m.store.next args.span .function) false) f.body m')
        (callFunction around eval f function args stack m) := by
  refine ⟨_, Function.starts_opened h hd m, ?_⟩
  unfold callFunction
  dsimp only
  rw [if_neg (Nat.not_le_of_lt h.depth), Function.bind_of_accepts h]
  change f.Ends _ _ _ _ ((runBody _ _ >>= _) _)
  rw [bind_apply]
  generalize hb : block _ _ _ = ended
  obtain ⟨r, m'⟩ := ended
  by_cases hr : ∃ v, Stop.Results r v
  · obtain ⟨v, hr⟩ := hr
    rw [runBody_of_results hb hr]
    rw [Ending.next]
    cases hk : f.returns with
    | none => exact .value hr fun kind hreturns => by rw [hk] at hreturns; cases hreturns
    | some kind =>
      dsimp only
      by_cases right : v.kind = kind
      · rw [if_neg (not_not.mpr right)]
        refine .value hr fun k hreturns => ?_
        cases hk.symm.trans hreturns
        exact right
      · rw [if_pos right]
        exact .wrongKind hr hk right
  · obtain ⟨s, rfl, hs⟩ : ∃ s, r = .error s ∧ ∀ v span, s ≠ .returned v span := by
      cases r with
      | ok _ => exact absurd ⟨_, .ran⟩ hr
      | error s =>
        refine ⟨s, rfl, ?_⟩
        rintro v span rfl
        exact hr ⟨v, .returned⟩
    rw [runBody_of_stop hb hs]
    exact .stopped hs

end Eval

/-- A value that a call ends in is of the declared kind. It is null if and only if the body has run
to its end or has returned null. -/
theorem Function.Ends.of_value {f : Function} {function : String} {span : Span} {display : String}
    {r : Except Stop Unit} {v : Value} {m m' : Machine}
    (h : f.Ends function span display (r, m) (.ok v, m')) :
    (∀ kind, f.returns = some kind → v.kind = kind) ∧
      (v.kind = .null ↔ r = .ok () ∨ ∃ w at_, r = .error (.returned w at_) ∧ w.kind = .null) := by
  cases h with
  | value result kinds =>
    refine ⟨kinds, ?_⟩
    cases result with
    | ran => exact iff_of_true rfl (.inl rfl)
    | returned =>
      constructor
      · exact fun null => .inr ⟨_, _, rfl, null⟩
      · rintro (ran | ⟨_, _, same, null⟩)
        · cases ran
        · cases same
          exact null

/-! ## How functions are made -/

/-- The nodes, evaluated one after another from the first state on, give the values and end in the
second state. -/
inductive Eval.Yields (eval : Node → Eval Value) :
    List Node → Machine → List Value → Machine → Prop where
  | nil {m : Machine} : Yields eval [] m [] m
  | cons {c : Node} {cs : List Node} {v : Value} {vs : List Value} {m m' m'' : Machine} :
    eval c m = (.ok v, m') → Yields eval cs m' vs m'' → Yields eval (c :: cs) m (v :: vs) m''

/-- The function is made of the literal in the given scope, between the two states: behind the types
of the parameters the defaults are evaluated, each once, and then the type of the result. -/
structure Function.MadeOf (f : Function) (eval : Node → Eval Value) (literal : FunctionLiteral)
    (scope : ScopeId) (m m' : Machine) : Prop where
  closure : f.closure = scope
  body : f.body = literal.body
  params : f.params.map (·.name) = literal.params.map (·.name)
  options : f.options.map (·.name) = literal.options.map (·.name)
  defaults : ∃ m₁ m₂ m₃,
    (literal.params.mapM fun (p : ParameterLiteral) => (do
      return ⟨p.name, ← p.type.mapM (Eval.typeTag eval)⟩ : Eval Parameter)) m = (.ok f.params, m₁) ∧
    Eval.Yields eval (literal.options.map (·.default)) m₁ (f.options.map (·.default)) m₂ ∧
    (literal.returns.mapM (Eval.typeTag eval)) m₂ = (.ok f.returns, m₃) ∧
    m' = { m₃ with nextId := m₃.nextId + 1 }

namespace Eval

variable {α β : Type} {m m' : Machine}

theorem exists_of_bind {x : Eval α} {f : α → Eval β} {b : β} (h : (x >>= f) m = (.ok b, m')) :
    ∃ a m₁, x m = (.ok a, m₁) ∧ f a m₁ = (.ok b, m') := by
  rw [bind_apply] at h
  rcases hx : x m with ⟨r, m₁⟩
  rw [hx] at h
  cases r with
  | error s => cases h
  | ok a => exact ⟨a, m₁, rfl, h⟩

/-- What each step keeps, all steps keep. -/
theorem map_of_mapM {γ : Type} {f : α → Eval β} {xs : List α} {ys : List β} {p : α → γ} {q : β → γ}
    (hf : ∀ {x m y m'}, f x m = (.ok y, m') → q y = p x) (h : xs.mapM f m = (.ok ys, m')) :
    ys.map q = xs.map p := by
  induction xs generalizing m ys with
  | nil =>
    cases h
    rfl
  | cons x xs ih =>
    rw [List.mapM_cons] at h
    obtain ⟨y, m₁, hx, h⟩ := exists_of_bind h
    obtain ⟨rest, m₂, hxs, h⟩ := exists_of_bind h
    cases h
    rw [List.map_cons, List.map_cons, hf hx, ih hxs]

theorem yields_of_mapM {eval : Node → Eval Value} {literals : List OptionLiteral}
    {options : List OptionValue} (h : (literals.mapM fun (o : OptionLiteral) => (do
      return ⟨o.name, ← eval o.default⟩ : Eval OptionValue)) m = (.ok options, m')) :
    Yields eval (literals.map (·.default)) m (options.map (·.default)) m' := by
  induction literals generalizing m options with
  | nil =>
    cases h
    exact .nil
  | cons o literals ih =>
    rw [List.mapM_cons] at h
    obtain ⟨option, m₁, ho, h⟩ := exists_of_bind h
    obtain ⟨rest, m₂, hrest, h⟩ := exists_of_bind h
    obtain ⟨v, _, hv, ho⟩ := exists_of_bind ho
    cases ho
    cases h
    exact .cons hv (ih hrest)

theorem madeOf_of_function {eval : Node → Eval Value} {literal : FunctionLiteral} {scope : ScopeId}
    {v : Value} (h : function eval literal scope m = (.ok v, m')) :
    ∃ f : Function, v.data = .func f ∧ f.MadeOf eval literal scope m m' := by
  unfold function at h
  obtain ⟨params, m₁, hparams, h⟩ := exists_of_bind h
  obtain ⟨options, m₂, hoptions, h⟩ := exists_of_bind h
  obtain ⟨returns, m₃, hreturns, h⟩ := exists_of_bind h
  cases h
  refine ⟨_, rfl, rfl, rfl, ?_, ?_, m₁, m₂, m₃, hparams, yields_of_mapM hoptions, hreturns, rfl⟩
  · apply map_of_mapM _ hparams
    intro p m q m' hp
    obtain ⟨_, _, _, hp⟩ := exists_of_bind hp
    cases hp
    rfl
  · apply map_of_mapM _ hoptions
    intro p m q m' hp
    obtain ⟨_, _, _, hp⟩ := exists_of_bind hp
    cases hp
    rfl

end Eval

/-! ## Main statement -/

/-- A call of a function whose parameters and options all have different names is refused in the
state that it finds, or its body starts in a fresh scope, inside the one that the function was made
in, which holds each parameter with its argument and each option with what is given for it last, or
else with the default. All else is as before, and as the body ends, so does the call: a value that
it ends in is of the declared kind, and it is null if and only if the body has run to its end or has
returned null. The defaults are evaluated when the function is made. -/
theorem calls_refused_or_started (around : Surroundings) (eval : Evaluator) (stack : CallStack) :
    (∀ (callee : Value) (f : Function) (args : Arguments) (m : Machine),
      callee.data = .func f → f.DistinctNames →
      let function := callee.name.getD "<anonymous>"
      let limit := around.settings.maxDepth
      let ending := Eval.call around eval callee args stack m
      (∃ e, f.Refuses function args limit stack.top.depth e ∧ ending = (.error (.failed e), m)) ∨
      f.Accepts args limit stack.top.depth ∧ ∃ m', f.Starts args m m' m.store.next ∧
        let frame := stack.call function m.store.next args.span .function
        let body := Eval.block (fun node => eval node frame false) f.body m'
        f.Ends function args.span stack.display body ending ∧
        ∀ v, ending.1 = .ok v → (∀ kind, f.returns = some kind → v.kind = kind) ∧
          (v.kind = .null ↔
            body.1 = .ok () ∨ ∃ w at_, body.1 = .error (.returned w at_) ∧ w.kind = .null)) ∧
    ∀ (inLoop : Bool) (literal : FunctionLiteral) (m m' : Machine) (v : Value),
      Eval.function (fun node => eval node stack inLoop) literal stack.top.scope m = (.ok v, m') →
      ∃ f : Function, v.data = .func f ∧
        f.MadeOf (fun node => eval node stack inLoop) literal stack.top.scope m m' := by
  refine ⟨?_, fun inLoop literal m m' v => Eval.madeOf_of_function⟩
  intro callee f args m hf hd function limit ending
  have called : ending = Eval.callFunction around eval f function args stack m := by
    unfold ending Eval.call
    rw [hf]
  obtain ⟨e, refuses⟩ | accepts := f.refuses_or_accepts function args limit stack.top.depth
  · exact .inl ⟨e, refuses, called.trans (Eval.callFunction_of_refuses refuses)⟩
  · obtain ⟨m', starts, ends⟩ :=
      @Eval.callFunction_of_accepts around eval f function args stack m hd accepts
    rw [← called] at ends
    refine .inr ⟨accepts, m', starts, ends, fun v hv => ?_⟩
    obtain ⟨result, m''⟩ := ending
    cases hv
    exact ends.of_value

/-- A function is given its option twice, and the option has the second value in the scope of the
call. The literal of the function makes one with that scope around it. -/
theorem last_given_option_counts :
    let around : Surroundings := ⟨.standard, .empty [], none⟩
    let body : List Node := [⟨.return (some ⟨.read "o", default⟩), default⟩]
    let f : Function := ⟨0, [⟨"x", some .int⟩], [⟨"o", .int 1⟩], none, body, 1⟩
    let args : Arguments :=
      ⟨[.int 7], [⟨"o", .int 2, default⟩, ⟨"o", .int 3, default⟩], default⟩
    let m : Machine := { Machine.initial with
      store := Machine.initial.store.add (some Machine.preludeScope) }
    let stack : CallStack := .root "main" 1 .program
    let ending := Eval.call around (evaluate around 9) (.ofData (.func f)) args stack m
    let literal : FunctionLiteral :=
      ⟨[⟨"x", some ⟨.read "int", default⟩, default⟩], [⟨"o", ⟨.int 1, default⟩, default⟩], none,
        body⟩
    let made := Eval.function (fun node => evaluate around 9 node stack false) literal 1 m
    f.DistinctNames ∧ (∃ m' : Machine, m'.store.parent? m.store.next = some 1 ∧
      (m'.store.bindings m.store.next).map (fun b => (b.1, b.2.repr)) = [("x", "7"), ("o", "3")]) ∧
    (∃ v, ending.1 = .ok v ∧ v.repr = "3" ∧ v.kind ≠ .null) ∧
    ∃ v g, made.1 = .ok v ∧ v.data = .func g ∧ g.closure = 1 ∧
      g.options.map (·.name) = ["o"] := by
  intro around body f args m stack ending literal made
  have distinct : f.DistinctNames := by
    unfold Function.DistinctNames Function.names
    decide
  have text : (match ending.1 with
      | .ok v => v.repr
      | .error _ => "") = "3" := by decide +kernel
  have int : (match ending.1 with
      | .ok v => v.kind
      | .error _ => .null) = .int := by decide +kernel
  have succeeds : made.1.isOk = true := by decide +kernel
  obtain ⟨settled, making⟩ := calls_refused_or_started around (evaluate around 9) stack
  replace settled := settled (.ofData (.func f)) f args m rfl distinct
  change (∃ e, _ ∧ ending = _) ∨ _ at settled
  obtain ⟨e, _, refused⟩ | ⟨_, m', starts, _⟩ := settled
  · rw [refused] at text
    exact absurd (show "" = "3" from text) (by decide)
  · refine ⟨distinct, ⟨m', starts.parent, ?_⟩, ?_, ?_⟩
    · rw [starts.bindings]
      decide +kernel
    · generalize ending.1 = r at text int ⊢
      rcases r with s | v
      · exact absurd (show "" = "3" from text) (by decide)
      · exact ⟨v, rfl, text, fun null => by cases int.symm.trans null⟩
    · rcases hr : made with ⟨s | v, m''⟩
      · rw [hr] at succeeds
        cases succeeds
      · obtain ⟨g, data, literal⟩ := making false literal m m'' v hr
        exact ⟨v, g, rfl, data, literal.closure, literal.options⟩

end TracedScript
