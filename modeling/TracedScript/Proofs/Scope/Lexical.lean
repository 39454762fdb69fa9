import TracedScript.Proofs.Run.SideBySide

/-!
# A call does not see who calls

A function runs in a scope inside the one that it was made in. Of the frame that calls it, it gets
the name, for the trace of its result, and the depth, for the limit. So the same call from two
frames that agree in these ends alike, in whatever scopes the frames are and whatever has called
them: `calls_see_no_caller`. The callers only turn up in the call stacks that failures record.
-/

namespace TracedScript

/-- The frames of one stack, and of the other those with another bottom: what is on top of the
bottoms is the same. -/
def CallStack.OnTop (c c' bottom bottom' : CallStack) : Prop :=
  ∃ inner : List Frame, c.frames = inner ++ bottom.frames ∧ c'.frames = inner ++ bottom'.frames

namespace CallStack.OnTop

variable {c c' bottom bottom' : CallStack}

theorem refl : bottom.OnTop bottom' bottom bottom' := ⟨[], rfl, rfl⟩

/-- The top frames are the same, or are the bottoms. -/
theorem top (h : c.OnTop c' bottom bottom') :
    c.top = c'.top ∨ c.top = bottom.top ∧ c'.top = bottom'.top := by
  obtain ⟨inner, hc, hc'⟩ := h
  cases inner with
  | nil => exact .inr ⟨(List.cons.inj hc).1, (List.cons.inj hc').1⟩
  | cons frame inner => exact .inl ((List.cons.inj hc).1.trans (List.cons.inj hc').1.symm)

theorem depth (h : c.OnTop c' bottom bottom') (hd : bottom.top.depth = bottom'.top.depth) :
    c.top.depth = c'.top.depth := by
  obtain heq | ⟨hc, hc'⟩ := h.top
  · rw [heq]
  · rw [hc, hc', hd]

theorem display (h : c.OnTop c' bottom bottom') (hd : bottom.display = bottom'.display) :
    c.display = c'.display := by
  unfold CallStack.display at hd ⊢
  obtain heq | ⟨hc, hc'⟩ := h.top
  · rw [heq]
  · rw [hc, hc', hd]

theorem call (h : c.OnTop c' bottom bottom') (hd : bottom.top.depth = bottom'.top.depth)
    (display : String) (scope : ScopeId) (span : Span) (kind : FrameKind) :
    (c.call display scope span kind).OnTop (c'.call display scope span kind) bottom bottom' := by
  have depth := h.depth hd
  obtain ⟨inner, hc, hc'⟩ := h
  refine ⟨(c.call display scope span kind).top :: inner, ?_, ?_⟩
  · exact congrArg (_ :: ·) hc
  · unfold CallStack.call
    rw [depth]
    exact congrArg (_ :: ·) hc'

end CallStack.OnTop

/-- Everything is the same, but for what is at the bottom of call stacks. -/
def Likeness.callers (bottom bottom' : CallStack) (hdisplay : bottom.display = bottom'.display)
    (hdepth : bottom.top.depth = bottom'.top.depth) : Likeness :=
  { Likeness.equal with
    stack := fun c c' => c = c' ∨ c.OnTop c' bottom bottom'
    stack_display := by
      rintro c c' (rfl | h)
      · rfl
      · exact h.display hdisplay
    stack_depth := by
      rintro c c' (rfl | h)
      · rfl
      · exact h.depth hdepth
    stack_root := by
      rintro display kind s s' rfl
      exact .inl rfl
    stack_call := by
      rintro c c' display kind s s' t t' (rfl | h) rfl rfl
      · exact .inl rfl
      · exact .inr (h.call hdepth display s t kind) }

section

variable {bottom bottom' : CallStack} (hdisplay : bottom.display = bottom'.display)
  (hdepth : bottom.top.depth = bottom'.top.depth)

theorem Likeness.callers_reflexive : (callers bottom bottom' hdisplay hdepth).Reflexive :=
  ⟨fun _ => rfl, fun _ => rfl, fun _ => rfl, fun _ => .inl rfl⟩

theorem Likeness.callers_around (around : Surroundings) :
    (callers bottom bottom' hdisplay hdepth).forever.Around around around :=
  ⟨rfl, rfl, fun line _ _ ht => Comparison.beside_printLine around line
    (fun _ _ h => congrArg Array.size h) (fun _ _ h => congrArg (Array.push · line) h) ht⟩

end

/-- The same value called with the same arguments from two frames with the same name and depth ends
in the same result, the same store and the same output, whatever the scopes of the frames and
whoever has called them. Only the call stacks recorded in failures differ, and these only in what
was there before the call. -/
theorem calls_see_no_caller (around : Surroundings) (n : Nat) (callee : Value) (args : Arguments)
    (m : Machine) (caller caller' : CallStack) (hdisplay : caller.display = caller'.display)
    (hdepth : caller.top.depth = caller'.top.depth) :
    Ending.Like (.callers caller caller' hdisplay hdepth)
      (Value.Like (.callers caller caller' hdisplay hdepth))
      (Eval.call around (evaluate around n) callee args caller m)
      (Eval.call around (evaluate around n) callee args caller' m) := by
  have same := Likeness.callers_reflexive hdisplay hdepth
  have around' := Likeness.callers_around hdisplay hdepth around
  have run := Comparison.beside_call around' (Comparison.beside_evaluate around' n)
    (same.value callee) (same.arguments args) (.inr .refl)
  exact run.ending (same.machine rfl)

/-- A function that reads a name of the scope it was made in reads it there, also when it is called
where the name means something else. -/
theorem name_read_where_made :
    let around : Surroundings := ⟨.standard, .empty [], none⟩
    let body : List Node := [⟨.return (some ⟨.read "x", default⟩), default⟩]
    let callee : Value := .ofData (.func ⟨0, [], [], none, body, 1⟩)
    let outer := (Machine.initial.store.add (some Machine.preludeScope)).define 1 "x" (.int 1)
    let m : Machine := { Machine.initial with
      store := (outer.add (some Machine.preludeScope)).define 2 "x" (.int 2) }
    let elsewhere : CallStack := ⟨⟨"main", 2, .program, none, 0⟩, [⟨"main", 1, .program, none, 0⟩]⟩
    ∃ v, (Eval.call around (evaluate around 9) callee ⟨[], [], default⟩ elsewhere m).1 = .ok v ∧
      v.repr = "1" := by
  intro around body callee outer m elsewhere
  let home : CallStack := .root "main" 1 .program
  have like := calls_see_no_caller around 9 callee ⟨[], [], default⟩ m home elsewhere rfl rfl
  have text : (match (Eval.call around (evaluate around 9) callee ⟨[], [], default⟩ home m).1 with
      | .ok v => v.repr
      | .error _ => "") = "1" := by decide +kernel
  generalize Eval.call around (evaluate around 9) callee ⟨[], [], default⟩ home m = r at like text
  generalize Eval.call around (evaluate around 9) callee ⟨[], [], default⟩ elsewhere m = r' at like ⊢
  cases like with
  | ok hv => exact ⟨_, rfl, hv.repr.symm.trans text⟩
  | error => exact absurd (show "" = "1" from text) (by decide)

end TracedScript
