import TracedScript.Proofs.Run.Outcome
import TracedScript.Proofs.Syntax.TwoLayouts

/-!
# Layout does not matter

Two texts that are cut into the same tokens are read as the same trees up to spans. What runs do
with spans is to store and to report them. So such texts run alike, from the same state and in the
same surroundings: `layout_is_free`.
-/

namespace TracedScript

/-- The same frame, wherever it was called from. -/
structure Frame.Moved (f f' : Frame) : Prop where
  display : f.display = f'.display
  scope : f.scope = f'.scope
  kind : f.kind = f'.kind
  depth : f.depth = f'.depth

/-- The same frames, wherever they were called from. -/
def CallStack.Moved (c c' : CallStack) : Prop := List.Forall₂ Frame.Moved c.frames c'.frames

namespace CallStack.Moved

variable {c c' : CallStack}

theorem refl (c : CallStack) : c.Moved c :=
  List.forall₂_same.mpr fun _ _ => ⟨rfl, rfl, rfl, rfl⟩

theorem top (h : c.Moved c') : c.top.Moved c'.top := by
  cases h
  assumption

theorem call (h : c.Moved c') (display : String) (scope : ScopeId) (span span' : Span)
    (kind : FrameKind) :
    (c.call display scope span kind).Moved (c'.call display scope span' kind) := by
  have depth := congrArg (· + if kind = .function then 1 else 0) h.top.depth
  exact .cons ⟨rfl, rfl, rfl, depth⟩ h

end CallStack.Moved

namespace Likeness

/-- Everything is the same, but for spans. -/
def layout : Likeness :=
  { Likeness.equal with
    span := fun _ _ => True
    stack := CallStack.Moved
    code := Node.SameTree
    span_refl := fun _ => trivial
    span_through := fun _ _ => trivial
    stack_display := fun h => h.top.display
    stack_depth := fun h => h.top.depth
    stack_root := by
      rintro display kind s _ rfl
      exact .refl _
    stack_call := by
      rintro c c' display kind s _ t t' h rfl -
      exact h.call display s t t' kind
    code_refl := Node.SameTree.refl
    code_span := fun _ => trivial
    code_kind := Node.SameTree.kind }

theorem layout_reflexive : layout.Reflexive :=
  ⟨fun _ => rfl, fun _ => rfl, fun _ => rfl, CallStack.Moved.refl⟩

theorem layout_around (around : Surroundings) : layout.forever.Around around around :=
  ⟨rfl, rfl, fun line _ _ ht => Comparison.beside_printLine around line
    (fun _ _ h => congrArg Array.size h) (fun _ _ h => congrArg (Array.push · line) h) ht⟩

end Likeness

/-! ## What users see -/

/-- The same error, wherever it is. -/
structure SourceError.SameReason (e e' : SourceError) : Prop where
  kind : e.kind = e'.kind
  message : e.message = e'.message

/-- Values that look the same. -/
structure Value.SameText (v v' : Value) : Prop where
  kind : v.kind = v'.kind
  display : v.display = v'.display
  repr : v.repr = v'.repr

/-- The same failure in the same frames, wherever they were called from. -/
structure Failure.SameFrames (e e' : Failure) : Prop where
  kind : e.kind = e'.kind
  message : e.message = e'.message
  stack : Option.Rel CallStack.Moved e.stack e'.stack

/-- Two texts that are cut into the same tokens, whatever stands between the tokens and whatever the
texts are called, end alike from the same state: both can not be read for the same reason, or both
give values that look the same, or both fail with the same failure in the same frames, or both are
still unfinished; as this is so for every allowance, one of them runs forever only if the other one
does. They print the same. -/
theorem layout_is_free (m : Machine) (around : Surroundings) (n : Nat)
    {name text name' text' : String} {lexemes lexemes' : List Lexeme}
    (h : scan ⟨name, Text.normalize text⟩ = .ok lexemes)
    (h' : scan ⟨name', Text.normalize text'⟩ = .ok lexemes')
    (same : lexemes.map (·.token) = lexemes'.map (·.token)) :
    let first := m.run around n name text
    let second := m.run around n name' text'
    Outcome.Like SourceError.SameReason Value.SameText Failure.SameFrames first.1 second.1 ∧
      first.2.printed = second.2.printed := by
  intro first second
  have program : (Source.mk name (Text.normalize text)).program = parse lexemes := by
    rw [Source.program, h]
    rfl
  have program' : (Source.mk name' (Text.normalize text')).program = parse lexemes' := by
    rw [Source.program, h']
    rfl
  have reads := parse_same_tokens (terminated_of_scan h) same
  cases hp : parse lexemes with
  | error e =>
    rw [hp] at reads program
    generalize hp' : parse lexemes' = r' at reads program'
    cases reads with
    | @error _ e' he =>
      have unread : first = (.error (.source e), m) := by
        rw [show first = m.run around n name text from rfl, Machine.run, program]
      have unread' : second = (.error (.source e'), m) := by
        rw [show second = m.run around n name' text' from rfl, Machine.run, program']
      rw [unread, unread']
      exact ⟨.source ⟨he.kind, he.message⟩, rfl⟩
  | ok body =>
    rw [hp] at reads program
    generalize hp' : parse lexemes' = r' at reads program'
    cases reads with
    | ok hs =>
      have start : m.Like .layout m := Likeness.layout_reflexive.machine rfl
      have runs : Outcome.Like SourceError.SameReason _ _ first.1 second.1 ∧ _ :=
        Machine.run_like (Likeness.layout_around around) start n program program' hs
      exact ⟨runs.1.weaken (fun v w hv => ⟨hv.kind, hv.display, hv.repr⟩)
        fun e e' he => ⟨he.kind, he.message, he.stack⟩, runs.2.printed⟩

/-- A program written in two ways fails in both for the same reason, though at another place. -/
theorem two_layouts_fail_alike :
    let around : Surroundings := ⟨.standard, .empty [], none⟩
    let first := Machine.initial.run around 9 "first" "print(1)\nprint(1/0)"
    let second := Machine.initial.run around 9 "second" " print( 1 ) # one\n\tprint(1 / 0)"
    (∃ e e', first.1 = .error (.failure e) ∧ second.1 = .error (.failure e') ∧ e.SameFrames e' ∧
      e.span ≠ e'.span) ∧ first.2.printed = #["1"] ∧ second.2.printed = #["1"] := by
  intro around first second
  let source : Source := ⟨"first", Text.normalize "print(1)\nprint(1/0)"⟩
  let source' : Source := ⟨"second", Text.normalize " print( 1 ) # one\n\tprint(1 / 0)"⟩
  have cut {s : Source} (h : (scan s).isOk = true) : ∃ lexemes, scan s = .ok lexemes := by
    cases hs : scan s with
    | ok lexemes => exact ⟨lexemes, rfl⟩
    | error e => rw [hs] at h; cases h
  obtain ⟨lexemes, h⟩ := @cut source (by decide +kernel)
  obtain ⟨lexemes', h'⟩ := @cut source' (by decide +kernel)
  have tokens : (scan source).toOption.map (List.map (·.token)) =
      (scan source').toOption.map (List.map (·.token)) := by decide +kernel
  rw [h, h'] at tokens
  obtain ⟨outcome, printed⟩ :=
    layout_is_free Machine.initial around 9 h h' (Option.some.inj tokens)
  have output : first.2.printed = #["1"] := by decide +kernel
  refine ⟨?_, output, printed ▸ output⟩
  have fails : (Outcome.failure? first.1).isSome = true := by decide +kernel
  have apart : (Outcome.failure? first.1).bind (·.span) ≠
      (Outcome.failure? second.1).bind (·.span) := by decide +kernel
  change Outcome.Like _ _ _ first.1 second.1 at outcome
  generalize first.1 = r at outcome fails apart
  generalize second.1 = r' at outcome apart
  cases outcome with
  | failure he => exact ⟨_, _, rfl, rfl, he, apart⟩
  | values | source | unfinished => cases fails

end TracedScript
