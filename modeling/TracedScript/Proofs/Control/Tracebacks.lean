import TracedScript.Proofs.Control.Arising
import TracedScript.Proofs.Control.CallChain
import TracedScript.Proofs.Report.Lines

/-!
# Tracebacks are complete

A failure that leaves an evaluation knows the frame that it arose in, and from there the frames of
its callers lead to the frame of the evaluation, each made by a call or an include at the span that
it keeps. So the report of a program that fails lists the frames from the program to where the
failure arose: `tracebacks_complete`.
-/

namespace TracedScript

variable {around : Surroundings} {u : Visit} {e : Failure} {m₁ : Machine}

/-- The visit ends in the failure. -/
def Visit.Fails (around : Surroundings) (u : Visit) (e : Failure) : Prop :=
  (u.ending around).1 = .error (.failed e)

theorem Visit.Fails.complete (h : u.Fails around e) : e.Complete :=
  complete_of_evaluate (Prod.ext h rfl)

/-- What a visit stops with, if not with `e`, does not become `e` where it is completed again. -/
theorem Visit.stop_ne (h : ¬ u.Fails around e) (stack : CallStack) (span : Span) (s : Stop)
    (hs : (u.ending around).1 = .error s) : s.Fails fun e' => e'.complete stack span ≠ e := by
  cases s with
  | failed e' =>
    have fails : u.Fails around e' := hs
    intro heq
    rw [Failure.complete_of_complete fails.complete] at heq
    exact h (heq ▸ fails)
  | returned | broke | continued | exhausted => trivial

/-- The visit evaluates a construct that fails, and what leaves it is completed. -/
theorem Visit.Fails.exists_construct (h : u.Fails around e) : ∃ n e₀, u.allowance = n + 1 ∧
    (u.construct around n (evaluate around n)).1 = .error (.failed e₀) ∧
    e₀.complete u.stack u.node.span = e := by
  obtain ⟨node, stack, inLoop, m, allowance⟩ := u
  cases allowance with
  | zero => cases h
  | succ n =>
    rw [Fails, ending, under, evaluate, Eval.completed, Eval.adapt_apply] at h
    cases hr : (Eval.construct around n (evaluate around n) node stack inLoop m).1 with
    | ok v =>
      rw [hr] at h
      cases h
    | error s =>
      rw [hr] at h
      cases s with
      | failed e₀ =>
        refine ⟨n, e₀, rfl, hr, ?_⟩
        cases h
        rfl
      | returned | broke | continued | exhausted => cases h

/-- The visit `w` is in the frame of the visit `u`, or in one that the node of `u` makes for a call
or an include. -/
inductive Visit.Enters (u w : Visit) : Prop where
  | here : w.stack = u.stack → Enters u w
  | frame (name : String) (scope : ScopeId) (site : Span) (kind : FrameKind) :
    (site, kind) ∈ u.node.sites → w.stack = u.stack.call name scope site kind → Enters u w

/-- A failure that arose in another frame comes from a visit that is made. -/
theorem Visit.Fails.exists_inside (h : u.Fails around e) (hs : e.stack ≠ some u.stack) :
    ∃ w, u.Makes around w ∧ w.Fails around e ∧ u.Enters w := by
  obtain ⟨n, e₀, hn, hc, rfl⟩ := h.exists_construct
  let e := e₀.complete u.stack u.node.span
  let bad (w : Visit) : Prop := w.Fails around e ∧ u.Enters w
  -- any failure but this one, unless it arises here
  let q (e' : Failure) : Prop :=
    e'.complete u.stack u.node.span = e → e'.stack = none ∨ e'.stack = some u.stack
  have good {w : Visit} (hw : ¬ bad w) (hin : u.Enters w) (s : Stop)
      (hstop : (w.ending around).1 = .error s) : Stop.Fails q s :=
    (w.stop_ne (fun hf => hw ⟨hf, hin⟩) u.stack u.node.span s hstop).imp fun _ hne heq =>
      absurd heq hne
  obtain ⟨w, hw, hfails, hin⟩ | fair :=
    u.makes_or_ends around (fun _ => True) (V := fun _ _ => True) (q := q) hn bad
      ⟨trivial, fun _ _ => trivial, fun _ _ => trivial, fun _ _ _ _ => trivial,
        fun _ _ _ _ => trivial⟩
      (fun _ _ _ => ⟨fun _ _ => trivial, .inr fun _ => trivial⟩) (fun _ hl _ => hl.stack)
      (fun _ _ v _ e' _ _ hk _ => .inl (Value.raw_of_asKey hk fun _ _ => trivial).stack)
      (fun c _ b m hw => ⟨trivial, fun _ _ => trivial, good hw (.here rfl)⟩)
      (fun f hf name scope c m hw => ⟨trivial, fun _ _ => trivial,
        good hw (.frame name scope f.1 f.2 hf rfl)⟩)
  · exact ⟨w, hw, hfails, hin⟩
  · have here := fair.stop _ hc rfl
    refine absurd ?_ hs
    obtain hnone | hsome := here
    · simp [Failure.complete, Failure.inFrame, Failure.orSpan, hnone]
    · simp [Failure.complete, Failure.inFrame, Failure.orSpan, hsome]

/-! ## The chain of frames -/

/-- The failure of a visit arose in the frame on top of `stack`. Between that and the frame of the
visit there are the frames `made`, innermost first: each was made in the frame below it, by a visit
that evaluates a call or an include there and fails so itself, and keeps the span of that. -/
structure Visit.Traced (around : Surroundings) (u : Visit) (e : Failure) (stack : CallStack)
    (made : List Frame) : Prop where
  recorded : e.stack = some stack
  frames : stack.frames = made ++ u.stack.frames
  arose : ∃ w path, Leads around u path w ∧ w.stack = stack ∧ w.Fails around e
  calls : ∀ inner f outer, made = inner ++ f :: outer → ∃ v path site, Leads around u path v ∧
    v.Fails around e ∧ v.stack.frames = outer ++ u.stack.frames ∧ (site, f.kind) ∈ v.node.sites ∧
    f.callSite = some site

namespace Visit.Traced

variable {w : Visit} {stack : CallStack} {made : List Frame}

theorem self (h : u.Fails around e) (hs : e.stack = some u.stack) :
    u.Traced around e u.stack [] where
  recorded := hs
  frames := rfl
  arose := ⟨u, [], .here u, rfl, h⟩
  calls inner f outer hm := by
    have := congrArg List.length hm
    simp at this

/-- The visit in which the failure arose is made in the same frame. -/
theorem inside (h : w.Traced around e stack made) (hm : u.Makes around w)
    (hs : w.stack = u.stack) : u.Traced around e stack made where
  recorded := h.recorded
  frames := hs ▸ h.frames
  arose := by
    obtain ⟨w', path, hl, ha⟩ := h.arose
    exact ⟨w', u :: path, .inside hm hl, ha⟩
  calls inner f outer hf := by
    obtain ⟨v, path, site, hl, hv, hframes, hsite⟩ := h.calls inner f outer hf
    exact ⟨v, u :: path, site, .inside hm hl, hv, hs ▸ hframes, hsite⟩

/-- It is made in a frame that this visit makes. -/
theorem frame (h : w.Traced around e stack made) (hm : u.Makes around w) (hu : u.Fails around e)
    {name : String} {scope : ScopeId} {site : Span} {kind : FrameKind}
    (hsite : (site, kind) ∈ u.node.sites) (hs : w.stack = u.stack.call name scope site kind) :
    u.Traced around e stack (made ++ [w.stack.top]) where
  recorded := h.recorded
  frames := by
    rw [h.frames, hs, CallStack.frames_call, List.append_assoc]
    rfl
  arose := by
    obtain ⟨w', path, hl, ha⟩ := h.arose
    exact ⟨w', u :: path, .inside hm hl, ha⟩
  calls inner f outer hf := by
    rcases outer.eq_nil_or_concat with rfl | ⟨outer, last, rfl⟩
    · obtain ⟨-, hlast⟩ := List.append_inj' hf rfl
      obtain rfl := (List.cons.inj hlast).1
      refine ⟨u, [], site, .here u, hu, rfl, ?_, ?_⟩
      · rw [hs]
        exact hsite
      · rw [hs]
        rfl
    · rw [List.concat_eq_append, ← List.cons_append, ← List.append_assoc] at hf
      obtain ⟨hmade, hlast⟩ := List.append_inj' hf rfl
      obtain rfl := (List.cons.inj hlast).1
      obtain ⟨v, path, site', hl, hv, hframes, hsite'⟩ := h.calls inner f outer hmade
      refine ⟨v, u :: path, site', .inside hm hl, hv, ?_, hsite'⟩
      rw [hframes, hs, CallStack.frames_call, List.concat_eq_append, List.append_assoc]
      rfl

end Visit.Traced

/-- A failure that leaves a visit can be traced to the frame that it arose in. -/
theorem Visit.Fails.exists_traced (h : u.Fails around e) :
    ∃ stack made, u.Traced around e stack made := by
  generalize hn : u.allowance = n
  induction n generalizing u with
  | zero =>
    obtain ⟨n, -, hn', -⟩ := h.exists_construct
    omega
  | succ n ih =>
    by_cases hs : e.stack = some u.stack
    · exact ⟨u.stack, [], .self h hs⟩
    · obtain ⟨w, hm, hw, enters⟩ := h.exists_inside hs
      have smaller := hm.1
      obtain ⟨stack, made, traced⟩ := ih hw (by omega)
      cases enters with
      | here hws => exact ⟨stack, made, traced.inside hm hws⟩
      | frame name scope site kind hsite hws =>
        exact ⟨stack, made ++ [w.stack.top], traced.frame hm h hsite hws⟩

/-- Each frame that was made on the way keeps a span. -/
theorem Visit.Traced.exists_sites {stack : CallStack} {made : List Frame}
    (h : u.Traced around e stack made) :
    ∃ sites : List Span, made.reverse.map Frame.callSite = sites.map some := by
  refine ⟨made.reverse.map fun f => f.callSite.getD default, ?_⟩
  rw [List.map_map]
  apply List.map_congr_left
  intro f hf
  obtain ⟨inner, outer, hmade⟩ := List.append_of_mem (List.mem_reverse.mp hf)
  obtain ⟨-, -, site, -, -, -, -, hsite⟩ := h.calls inner f outer hmade
  rw [Function.comp_apply, hsite]
  rfl

/-! ## Programs and their reports -/

/-- The frames of a report, outermost first: each with the place where it entered the next one, the
last with the given span. -/
theorem Report.reverse_reached (span : Option Span) (made : List Frame) (program : Frame) :
    (reached span (made ++ [program])).reverse =
      (program.display :: made.reverse.map Frame.display).zip
        (made.reverse.map Frame.callSite ++ [span]) := by
  induction made generalizing span with
  | nil => rfl
  | cons f made ih =>
    rw [List.cons_append, reached, List.reverse_cons, ih, List.reverse_cons, List.map_append,
      List.map_append, ← List.cons_append, List.zip_append (by simp)]
    rfl

/-- A program that fails makes a visit for a statement that fails so. -/
theorem exists_failing_statement {n : Nat} {statements : List Node} {m : Machine}
    (h : (Eval.program (evaluate around n) statements m).1 = .error (.failed e)) :
    ∃ u : Visit, u.allowance = n ∧ u.stack = .root "<program>" m.store.next .program ∧
      u.Fails around e ∧
      Needs (fun eval => Eval.program eval statements m) (evaluate around n) u := by
  let root : CallStack := .root "<program>" m.store.next .program
  let bad (w : Visit) : Prop := w.stack = root ∧ w.Fails around e
  let other := Visit.marking bad 0 n (evaluate around n)
  have ends (c : Node) : (other c root false).Ends (fun _ => True)
      fun s => Stop.Fails (· ≠ e) s ∧ ¬ s.IsJump := by
    refine Visit.ends_marking ⟨trivial, id⟩ fun m hgood => ⟨trivial, fun _ _ => trivial, ?_⟩
    refine fun s hs => ⟨?_, Eval.stays_of_fits rfl (stops_evaluate around n c root false) m s hs⟩
    cases s with
    | failed e' =>
      rintro rfl
      exact hgood ⟨rfl, hs⟩
    | returned | broke | continued | exhausted => trivial
  have top : (Eval.topLevel other root statements).Ends (fun _ => True) (Stop.Fails (· ≠ e)) :=
    Eval.ends_topLevel fun c _ => ends c
  by_cases heq : Eval.program other statements m = Eval.program (evaluate around n) statements m
  · have stops := (top.fair { m with store := m.store.add (some Machine.preludeScope) }).stop
    have same : Eval.program other statements m = Eval.topLevel other root statements
      { m with store := m.store.add (some Machine.preludeScope) } := rfl
    rw [← same, heq] at stops
    exact absurd rfl (stops _ h)
  · obtain ⟨w, hn, hne, needs⟩ := exists_statement heq
    have hw : bad w := Classical.byContradiction fun hgood => hne (Visit.under_marking hn hgood)
    exact ⟨w, hn, hw.1, hw.2, needs⟩

/-- A program that fails does so by a failure of its top level, as nothing jumps out of that. -/
theorem exists_of_run_failure {m : Machine} {n : Nat} {name text : String}
    (h : (m.run around n name text).1 = .error (.failure e)) :
    ∃ statements, (Source.mk name (Text.normalize text)).program = .ok statements ∧
      (Eval.program (evaluate around n) statements m).1 = .error (.failed e) := by
  cases hp : (Source.mk name (Text.normalize text)).program with
  | error e' =>
    rw [Machine.run, hp] at h
    cases h
  | ok statements =>
    refine ⟨statements, rfl, ?_⟩
    have stays := stays_topLevel around n (.root "<program>" m.store.next .program) rfl statements
      { m with store := m.store.add (some Machine.preludeScope) }
    have body : Eval.program (evaluate around n) statements m =
        Eval.topLevel (evaluate around n) (.root "<program>" m.store.next .program) statements
          { m with store := m.store.add (some Machine.preludeScope) } := rfl
    rw [Machine.run_of_program m around n hp, Machine.attempt, body] at h
    rw [body]
    rcases hr : Eval.topLevel (evaluate around n) (.root "<program>" m.store.next .program)
      statements { m with store := m.store.add (some Machine.preludeScope) } with ⟨r, m'⟩
    rw [hr] at h
    cases r with
    | ok vs => cases h
    | error s =>
      have plain : Machine.plainError s = .failure e := by
        rw [← Machine.ofStop_of_not_jump (stays s (by rw [hr]))]
        exact Except.error.inj h
      cases s with
      | failed e' =>
        cases plain
        rfl
      | returned | broke | continued | exhausted => cases plain

/-- The frames of the report of a failure that arose in a frame which the frames `made` lead to. -/
theorem Report.reverse_trail {stack : CallStack} {made : List Frame} {program : Frame}
    {sites : List Span} {span : Span} (hs : e.stack = some stack)
    (hf : stack.frames = made ++ [program]) (hspan : e.span = some span)
    (hsites : made.reverse.map Frame.callSite = sites.map some) :
    (trail e).reverse = ((program.display :: made.reverse.map Frame.display).zip
      (sites ++ [span])).map fun frame => (frame.1, some frame.2) := by
  have places : made.reverse.map Frame.callSite ++ [some span] = (sites ++ [span]).map some := by
    rw [hsites, List.map_append]
    rfl
  rw [trail, hs]
  dsimp only
  rw [hf, reverse_reached, hspan, places, List.zip_map_right]
  rfl

/-- A value that is moved remembers its place so far behind all that it had before; the oldest of
these may be forgotten. -/
theorem Trace.relocate_origin {t : Trace} {previous : Span} (h : t.span = some previous)
    (span : Span) (owner : String) : ∃ kept, kept <:+ t.origin ∧
      (t.relocate span owner).origin = kept ++ [⟨previous, t.owner.getD "<builtin>"⟩] := by
  unfold relocate remember
  rw [h]
  dsimp only
  split
  · exact ⟨_, List.drop_suffix _ _, rfl⟩
  · exact ⟨_, List.suffix_refl _, rfl⟩

/-- A failure that leaves an evaluation, of whatever node and from whatever state, has a span and a
frame from which the callers lead to the frame of the evaluation, and each frame on the way keeps
the span of the call or include that made it. The report of a program that fails lists these frames,
first that of the program, last the one that the failure arose in: each with its name and with the
place where it entered the next one, the last one with the span of the failure. Behind them it
lists the former places of the value to blame, the oldest first, and then the kind and the message
of the failure. There is nothing else in it, and each of its lines is given as text. -/
theorem tracebacks_complete (around : Surroundings) :
    (∀ (u : Visit) (e : Failure), u.Fails around e →
      (∃ span, e.span = some span) ∧ ∃ stack made, u.Traced around e stack made) ∧
    (∀ (m : Machine) (n : Nat) (name text : String) (e : Failure),
      (m.run around n name text).1 = .error (.failure e) →
      ∃ (u : Visit) (stack : CallStack) (made : List Frame) (sites : List Span) (span : Span),
        m.Visits around n name text u ∧ u.Fails around e ∧
        u.stack = .root "<program>" m.store.next .program ∧ u.Traced around e stack made ∧
        e.span = some span ∧ made.reverse.map Frame.callSite = sites.map some ∧
        ∀ colored, (ProgramError.failure e).render colored = "\n".intercalate
          ([Report.alarming colored "====================== RUNTIME ERROR =======================",
              Report.heading colored "Traceback (most recent call last):"] ++
            (("<program>" :: made.reverse.map Frame.display).zip (sites ++ [span])).flatMap
              (fun frame => Report.placeLines colored frame.1 frame.2) ++
            (if e.origin = [] then [] else
              Report.heading colored "Origin (most recent call last):" ::
                e.origin.flatMap fun hop => Report.placeLines colored hop.display hop.span) ++
            [Report.alarming colored e.kind.name ++ ": " ++ Report.tinted colored "31" e.message,
              Report.alarming colored
                "============================================================"])) ∧
    ∀ (t : Trace) previous span owner, t.span = some previous → ∃ kept, kept <:+ t.origin ∧
      (t.relocate span owner).origin = kept ++ [⟨previous, t.owner.getD "<builtin>"⟩] := by
  have known {u : Visit} {e : Failure} (h : u.Fails around e) : ∃ span, e.span = some span :=
    Option.isSome_iff_exists.mp h.complete.1
  refine ⟨fun u e h => ⟨known h, h.exists_traced⟩, fun m n name text e h => ?_,
    fun t previous span owner h => t.relocate_origin h span owner⟩
  obtain ⟨statements, hp, hf⟩ := exists_of_run_failure h
  obtain ⟨u, hn, hs, hu, needs⟩ := exists_failing_statement hf
  obtain ⟨span, hspan⟩ := known hu
  obtain ⟨stack, made, traced⟩ := hu.exists_traced
  obtain ⟨sites, hsites⟩ := traced.exists_sites
  have frames : stack.frames = made ++ [⟨"<program>", m.store.next, .program, none, 0⟩] := by
    rw [traced.frames, hs]
    rfl
  have trail := Report.reverse_trail traced.recorded frames hspan hsites
  exact ⟨u, stack, made, sites, span, .statement hp hn needs, hu, hs, traced, hspan, hsites,
    Report.render_ofFailure trail⟩

/-- The run has failed, in a frame with the given names from there to the program, and with the given
report. -/
def failsWith (names lines : List String) : Except ProgramError (List Value) × Machine → Bool
  | (.error (.failure e), _) => e.stack.map (·.frames.map Frame.display) = some names ∧
    (ProgramError.failure e).render false = "\n".intercalate lines
  | _ => false

/-- A function that divides by its argument is called with zero. -/
def dividingProgram : String := "var f = func(a) \x7b\n1 / a\n\x7d\nf(0)"

def dividingReport : List String :=
  ["====================== RUNTIME ERROR =======================",
    "Traceback (most recent call last):",
    "  File main, In <program>",
    "    Line 4, Column 1",
    "   >f(0)",
    "    ^^^^",
    "  File main, In f",
    "    Line 2, Column 1",
    "   >1 / a",
    "    ^^^^^",
    "Origin (most recent call last):",
    "  File main, In <program>",
    "    Line 4, Column 3",
    "   >f(0)",
    "      ^",
    "ValueError: Division by zero",
    "============================================================"]

/-- The division is traced through the call, and its divisor to where it stands in the call. -/
theorem traceback_through_call :
    let around : Surroundings := ⟨.standard, .empty [], none⟩
    ∃ e u stack f, (Machine.initial.run around 12 "main" dividingProgram).1 =
        .error (.failure e) ∧
      Machine.initial.Visits around 12 "main" dividingProgram u ∧ u.Traced around e stack [f] ∧
      f.display = "f" ∧
      (ProgramError.failure e).render false = "\n".intercalate dividingReport := by
  intro around
  have fails : failsWith ["f", "<program>"] dividingReport
      (Machine.initial.run around 12 "main" dividingProgram) = true := by decide +kernel
  have complete := (tracebacks_complete around).2.1 .initial 12 "main" dividingProgram
  rcases hr : Machine.initial.run around 12 "main" dividingProgram with ⟨r, m'⟩
  rw [hr] at fails complete
  unfold failsWith at fails
  split at fails
  · rename_i e _ heq
    cases heq
    obtain ⟨found, report⟩ := of_decide_eq_true fails
    obtain ⟨u, stack, made, sites, span, visits, -, hs, traced, -⟩ := complete e rfl
    have names : made.map Frame.display ++ ["<program>"] = ["f"] ++ ["<program>"] := by
      rw [traced.recorded, Option.map_some, traced.frames, hs, List.map_append] at found
      exact Option.some.inj found
    obtain ⟨f, rfl, hf⟩ := List.map_eq_singleton_iff.mp ((List.append_left_inj _).mp names)
    exact ⟨e, u, stack, f, rfl, visits, traced, hf, report⟩
  · cases fails

end TracedScript
