import TracedScript.Program
import TracedScript.Proofs.Run.Constructs

/-!
# Evaluations keep a contract

Main statements:

* `agree_evaluate`: an evaluation keeps a contract that covers the code it may run.
* `Invariant.agree_alone`: this for one evaluation that is compared with none.
* `evaluate_of_le`, `Machine.run_of_le`: a larger allowance gives the same, unless the smaller one
  was used up.

The last are the first for a contract that asks for nothing, with using up the smaller allowance as
the only way for two evaluations to part.
-/

namespace TracedScript

/-- What a program does after its text has been read. -/
def Eval.program (evaluator : Evaluator) (statements : List Node) : Eval (List Value) := do
  let scope ← openScope (some Machine.preludeScope)
  topLevel evaluator (.root "<program>" scope .program) statements

namespace Contract

variable {Γ : Contract} {around : Surroundings}

/-- What an include may bring in is allowed: the built-in names around the module, and the code of
all scripts that can be found. -/
structure Covers (Γ : Contract) (around : Surroundings) : Prop where
  prelude : Γ.scope Machine.preludeScope
  script : ∀ name path text statements,
    Module.findScript around.files around.settings.directories name = some (path, text) →
    (Source.mk path (Text.normalize text)).program = .ok statements → ∀ c ∈ statements, Γ.code c

/-- Evaluations with allowances `n` and `n'` keep a contract and agree. The induction is on the
allowance, which goes down with every node that is evaluated inside another, in whatever frame. -/
theorem agree_evaluate (he : Γ.exhaustion)
    (hcover : ∀ d, Γ.code d → d.kind.IsInclude → Γ.Covers around)
    (hhandler : ∀ d, Γ.code d → d.kind.IsHandler → ∀ e m, Γ.stuck (.failed e) m → e.isFatal = true)
    {n n' : Nat} (hle : n ≤ n') (hn : n = n' ∨ ∀ m, Γ.stuck .exhausted m) {names : List String}
    {node : Node} {stack : CallStack} {inLoop : Bool} (hc : Γ.code node)
    (hs : Γ.frame stack.top.scope) :
    (Γ.terms names).Agree Γ.value (Γ.stop stack inLoop) (evaluate around n node stack inLoop)
      (evaluate around n' node stack inLoop) := by
  induction n generalizing n' names node stack inLoop with
  | zero =>
    obtain rfl | hstuck := hn
    · exact .throw he
    · exact fun m _ => .inr ⟨.exhausted, rfl, hstuck m⟩
  | succ n ih =>
    cases n' with
    | zero => omega
    | succ n' =>
      have hle' : n ≤ n' := by omega
      have hn' : n = n' ∨ ∀ m, Γ.stuck .exhausted m := hn.imp_left fun h => by omega
      unfold evaluate
      apply agree_completed
      apply agree_construct hc hs
      · exact fun b c hm => ih hle' hn' (Γ.code_child hc hm) hs
      · exact fun name scope span hscope _ c hcode => ih hle' hn' hcode hscope
      · intro hi
        have hcovers := hcover node hc hi
        refine ⟨hcovers.prelude, ?_⟩
        intro name _ _ path text statements scope span hfind hprogram hscope c hm
        exact ih hle' hn' (hcovers.script name path text statements hfind hprogram c hm) hscope
      · exact hhandler node hc
      · exact fun _ => ⟨he, hle', hn'⟩

/-- A program keeps a contract if its statements do. -/
theorem agree_program (hp : Γ.scope Machine.preludeScope) {names : List String}
    {evaluator evaluator' : Evaluator} {statements : List Node}
    (h : ∀ scope, Γ.frame scope → Γ.AgreeOn names (.root "<program>" scope .program) false
      statements (fun c => evaluator c (.root "<program>" scope .program) false)
      (fun c => evaluator' c (.root "<program>" scope .program) false))
    (outer : CallStack) (inLoop : Bool) :
    (Γ.terms names).Agree (fun vs => ∀ v ∈ vs, Γ.value v) (Γ.stop outer inLoop)
      (Eval.program evaluator statements) (Eval.program evaluator' statements) := by
  unfold Eval.program
  refine (agree_openScope (by simpa using hp)).bind fun scope hscope => ?_
  exact agree_topLevel rfl (h scope hscope)

end Contract

/-! ## One run alone -/

namespace Invariant

variable {I : Invariant} {names : List String}

/-- What is known of a run that keeps an invariant. -/
theorem fair {α : Type} {p : α → Prop} {q : Stop → Prop} {x : Eval α}
    (hx : (I.alone.terms names).Agree p q x x) {m : Machine} (hm : (I.alone.terms names).state m) :
    (I.alone.terms names).Fair p q (x m) := by
  obtain ⟨-, hf⟩ | ⟨s, -, hs⟩ := hx m hm
  · exact hf
  · exact hs.elim

theorem agree_alone (he : I.exhaustion) {around : Surroundings}
    (hcover : ∀ d, I.code d → d.kind.IsInclude → I.alone.Covers around) (n : Nat) {node : Node}
    {stack : CallStack} (inLoop : Bool) (hc : I.code node) (hs : I.frame stack.top.scope) :
    (I.alone.terms names).Agree I.alone.value (I.alone.stop stack inLoop)
      (evaluate around n node stack inLoop) (evaluate around n node stack inLoop) :=
  Contract.agree_evaluate he hcover (fun _ _ _ _ _ => False.elim) (Nat.le_refl n) (.inl rfl) hc hs

end Invariant

/-! ## Nothing asked for -/

namespace Contract

/-- Two runs of whatever code in whatever stores, that only may part as told. -/
def lenient (P : Parting) : Contract := ⟨.anything, P⟩

/-- A run of whatever code in whatever store. -/
def free : Contract := Invariant.anything.alone

section Lenient

variable {P : Parting} {around : Surroundings} {names : List String}

theorem lenient_value (v : Value) : (lenient P).value v := by
  intro w _
  unfold Data.Allowed
  split
  · exact ⟨fun _ _ => trivial, trivial⟩
  · trivial
  · trivial

theorem lenient_state (m : Machine) : ((lenient P).terms m.including).state m :=
  ⟨⟨fun _ _ b _ => lenient_value (P := P) b.2, fun _ _ _ _ => trivial, trivial⟩, rfl⟩

theorem lenient_covers : (lenient P).Covers around :=
  ⟨trivial, fun _ _ _ _ _ _ _ _ => trivial⟩

/-- One evaluation with nothing asked for: jumps end only where they have somewhere to go. -/
theorem free_evaluate (around : Surroundings) (n : Nat) (node : Node) (stack : CallStack)
    (inLoop : Bool) :
    (free.terms names).Agree free.value (free.stop stack inLoop)
      (evaluate around n node stack inLoop) (evaluate around n node stack inLoop) :=
  Invariant.agree_alone trivial (fun _ _ _ => lenient_covers) n inLoop trivial trivial

theorem free_program (around : Surroundings) (n : Nat) (statements : List Node)
    (outer : CallStack) (inLoop : Bool) :
    (free.terms names).Agree (fun vs => ∀ v ∈ vs, free.value v) (free.stop outer inLoop)
      (Eval.program (evaluate around n) statements)
      (Eval.program (evaluate around n) statements) :=
  agree_program trivial (fun _ _ c _ => free_evaluate around n c _ false) outer inLoop

theorem free_fair {α : Type} {p : α → Prop} {q : Stop → Prop} {x : Eval α} {m : Machine}
    (hx : (free.terms m.including).Agree p q x x) : (free.terms m.including).Fair p q (x m) :=
  Invariant.fair hx (lenient_state m)

/-- Evaluations with different allowances only part by using up the smaller one. -/
theorem lenient_evaluate (around : Surroundings) {n n' : Nat} (hle : n ≤ n') (node : Node)
    (stack : CallStack) (inLoop : Bool) :
    ((lenient .exhausted).terms names).Agree (lenient .exhausted).value
      ((lenient .exhausted).stop stack inLoop) (evaluate around n node stack inLoop)
      (evaluate around n' node stack inLoop) := by
  apply agree_evaluate
  · trivial
  · exact fun _ _ _ => lenient_covers
  · intro _ _ _ e m hs
    cases hs
  · exact hle
  · exact .inr fun _ => rfl
  · trivial
  · trivial

theorem eq_of_lenient {α : Type} {p : α → Prop} {q : Stop → Prop} {x y : Eval α} {m : Machine}
    (hx : ((lenient .exhausted).terms m.including).Agree p q x y)
    (h : (x m).1 ≠ .error .exhausted) : y m = x m := by
  obtain ⟨heq, -⟩ | ⟨s, hs, rfl⟩ := hx m (lenient_state m)
  · exact heq.symm
  · exact absurd hs h

end Lenient

end Contract

/-- A larger allowance changes nothing, unless the smaller one was used up. -/
theorem evaluate_of_le (around : Surroundings) {n n' : Nat} (hle : n ≤ n') (node : Node)
    (stack : CallStack) (inLoop : Bool) (m : Machine)
    (h : (evaluate around n node stack inLoop m).1 ≠ .error .exhausted) :
    evaluate around n' node stack inLoop m = evaluate around n node stack inLoop m :=
  Contract.eq_of_lenient (Contract.lenient_evaluate around hle node stack inLoop) h

namespace Machine

variable (m : Machine) (around : Surroundings) {name text : String} {statements : List Node}

theorem run_of_program (n : Nat)
    (h : (Source.mk name (Text.normalize text)).program = .ok statements) :
    m.run around n name text = m.attempt (Eval.program (evaluate around n) statements) := by
  unfold run
  rw [h]
  rfl

theorem attempt_snd {α : Type} (x : Eval α) : (m.attempt x).2 = (x m).2 := by
  unfold attempt
  rcases x m with ⟨r, m'⟩
  cases r with
  | ok a => rfl
  | error s => rfl

/-- The error of a program tells whether the allowance was used up. -/
theorem attempt_unfinished {α : Type} {x : Eval α} :
    (m.attempt x).1 = .error .unfinished ↔
      ∃ s, (x m).1 = .error s ∧ ∀ e, s.escaped ≠ .failed e := by
  unfold attempt
  rcases x m with ⟨r, m'⟩
  cases r with
  | ok a => simp
  | error s =>
    simp only [Except.error.injEq, exists_eq_left', ProgramError.ofStop]
    split
    · rename_i e he
      simp [he]
    · rename_i he
      simpa using he

theorem run_of_le {n n' : Nat} (hle : n ≤ n')
    (h : (m.run around n name text).1 ≠ .error .unfinished) :
    m.run around n' name text = m.run around n name text := by
  cases hp : (Source.mk name (Text.normalize text)).program with
  | error e => simp only [run, hp]
  | ok statements =>
    rw [run_of_program m around n hp] at h ⊢
    rw [run_of_program m around n' hp]
    have agree : ((Contract.lenient .exhausted).terms m.including).Agree _ _
        (Eval.program (evaluate around n) statements)
        (Eval.program (evaluate around n') statements) :=
      Contract.agree_program (Γ := .lenient .exhausted) trivial
        (fun _ _ c _ => Contract.lenient_evaluate around hle c _ false)
        (.root "<program>" preludeScope .program) false
    have finished : (Eval.program (evaluate around n) statements m).1 ≠ .error .exhausted := by
      intro hr
      exact h (m.attempt_unfinished.mpr ⟨.exhausted, hr, fun _ he => by cases he⟩)
    unfold attempt
    rw [Contract.eq_of_lenient agree finished]

/-- A run of a program keeps an invariant that holds of its code and of the store. -/
theorem sound_run {I : Invariant} (he : I.exhaustion) (hcover : I.alone.Covers around) (n : Nat)
    (name text : String)
    (hc : ∀ statements, (Source.mk name (Text.normalize text)).program = .ok statements →
      ∀ c ∈ statements, I.code c)
    (hs : I.alone.Sound m.store) : I.alone.Sound (m.run around n name text).2.store := by
  cases hp : (Source.mk name (Text.normalize text)).program with
  | error e =>
    rw [run, hp]
    exact hs
  | ok statements =>
    have agree : (I.alone.terms m.including).Agree _ _
        (Eval.program (evaluate around n) statements)
        (Eval.program (evaluate around n) statements) :=
      Contract.agree_program hcover.prelude (fun scope hscope c hm =>
        Invariant.agree_alone he (fun _ _ _ => hcover) n false (hc statements hp c hm) hscope)
        (.root "<program>" preludeScope .program) false
    have fair := Invariant.fair agree ⟨hs, rfl⟩
    rw [run_of_program m around n hp, attempt_snd]
    exact fair.state.1

end Machine

end TracedScript
