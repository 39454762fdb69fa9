import TracedScript.Proofs.Run.SideBySide

/-!
# Runs with limited output

A run whose output is limited does what it would do without a limit, up to the line that is not
taken any more; that one ends it, as no handler catches the failure. So its output is a beginning of
the other one: `output_limit_truncates`.
-/

namespace TracedScript

namespace Surroundings

/-- The same, but only so much can be printed. -/
def limited (around : Surroundings) (capacity : Capacity) : Surroundings :=
  { around with capacity }

/-- The same, but any number of lines can be printed. -/
def unlimited (around : Surroundings) : Surroundings := { around with capacity := none }

end Surroundings

/-- The failure of printing a line that is refused for the given reason. -/
def Failure.IsRefusedLine (e : Failure) (reason : String) : Prop :=
  ∃ span, { e with stack := none } = (Fault.outputFailed reason).failAt span

theorem Failure.IsRefusedLine.isFatal {e : Failure} {reason : String} (h : e.IsRefusedLine reason) :
    e.isFatal = true := by
  obtain ⟨span, h⟩ := h
  have kind : e.kind = .panic := congrArg Failure.kind h
  simp [Failure.isFatal, kind]

theorem Failure.IsRefusedLine.complete {e : Failure} {reason : String} (h : e.IsRefusedLine reason)
    (stack : CallStack) (span : Span) : (e.complete stack span).IsRefusedLine reason := by
  obtain ⟨kind, message, at?, frame, origin⟩ := e
  obtain ⟨place, h⟩ := h
  obtain ⟨rfl, rfl, rfl, -, rfl⟩ := Failure.mk.inj h
  exact ⟨place, rfl⟩

/-- Two runs are the same until a line more than the capacity is to be printed. Then the first one
fails, and the second one has printed this line, if not more. -/
def Comparison.limit (capacity : Capacity) : Comparison :=
  { Likeness.equal with
    output := fun p p' => p = p' ∧ p.size ≤ capacity.lines
    parted := fun s m out => ∃ e line, s = .failed e ∧ e.IsRefusedLine capacity.refusal ∧
      m.printed.size = capacity.lines ∧ (m.printed.push line).toList <+: out.toList
    parted_fatal := by
      rintro s m out ⟨e, line, rfl, he, -⟩
      exact ⟨e, rfl, he.isFatal⟩
    parted_complete := by
      rintro s m out stack span ⟨e, line, rfl, he, hm⟩
      exact ⟨e.complete stack span, line, rfl, he.complete stack span, hm⟩
    parted_including := fun _ h => h
    parted_grows := by
      rintro s m out out' ⟨e, line, rfl, he, hm, hout⟩ hgrows
      exact ⟨e, line, rfl, he, hm, hout.trans hgrows⟩ }

namespace Comparison

variable {capacity : Capacity}

theorem limit_exact : (Comparison.limit capacity).Exact := ⟨id, id, id, id, id⟩

theorem limit_reflexive : (Comparison.limit capacity).Reflexive :=
  ⟨fun _ => rfl, fun _ => rfl, fun _ => rfl, fun _ => rfl⟩

theorem limit_around (around : Surroundings) (capacity : Capacity) :
    (Comparison.limit capacity).Around (around.limited capacity) around.unlimited := by
  refine ⟨rfl, rfl, fun line t t' ht => ?_⟩
  obtain rfl : t = t' := ht
  unfold Eval.printLine
  apply Beside.get
  intro m m' hm
  obtain ⟨hprinted, hsize⟩ := hm.printed
  have room (count : Nat) : around.unlimited.capacity.filter (·.lines ≤ count) = none := rfl
  have limit (count : Nat) : (around.limited capacity).capacity.filter (·.lines ≤ count) =
      if capacity.lines ≤ count then some capacity else none := by
    simp [Surroundings.limited, Option.filter]
  dsimp only
  rw [limit, room]
  by_cases hfull : capacity.lines ≤ m.printed.size
  · have full : m.printed.size = capacity.lines := Nat.le_antisymm hsize hfull
    have grown : (m.printed.push line).toList <+: (m'.printed.push line).toList :=
      hprinted ▸ List.prefix_rfl
    rw [if_pos hfull]
    exact .inr ⟨_, rfl, _, line, rfl, ⟨t, rfl⟩, full, grown⟩
  · have output : m.printed.push line = m'.printed.push line ∧
        (m.printed.push line).size ≤ capacity.lines := by
      rw [Array.size_push]
      exact ⟨congrArg (·.push line) hprinted, Nat.lt_of_not_le hfull⟩
    rw [if_neg hfull]
    exact .inl (.ok trivial ⟨hm.store, output, hm.including, hm.nextId⟩)

end Comparison

namespace Machine

variable (m : Machine) (around : Surroundings) (k n : Nat) (reason name text : String)

/-- The limited run ends as the other one does, or with a line refused that the other one prints. -/
theorem run_limited :
    let cut := m.run (around.limited ⟨m.printed.size + k, reason⟩) n name text
    let full := m.run around.unlimited n name text
    (cut = full ∧ full.2.printed.size ≤ m.printed.size + k) ∨
      ∃ e line, cut.1 = .error (.failure e) ∧ e.IsRefusedLine reason ∧
        cut.2.printed.size = m.printed.size + k ∧
        (cut.2.printed.push line).toList <+: full.2.printed.toList := by
  intro cut full
  cases hp : (Source.mk name (Text.normalize text)).program with
  | error e =>
    have unread (around : Surroundings) : m.run around n name text = (.error (.source e), m) := by
      rw [run, hp]
    have ended : full = (.error (.source e), m) := unread _
    rw [ended]
    exact .inl ⟨unread _, Nat.le_add_right _ _⟩
  | ok statements =>
    let C := Comparison.limit ⟨m.printed.size + k, reason⟩
    have code : List.Forall₂ C.code statements statements := List.forall₂_same.mpr fun _ _ => rfl
    have start : m.Like C.toLikeness m :=
      Comparison.limit_reflexive.machine ⟨rfl, Nat.le_add_right _ _⟩
    have runs := Comparison.beside_program (Comparison.limit_around around _) n code m m start
    have hcut : cut = m.attempt _ := run_of_program m _ n hp
    have hfull : full = m.attempt _ := run_of_program m _ n hp
    obtain like | ⟨s, hs, e, line, rfl, he, hsize, hout⟩ := runs
    · have same := Comparison.limit_exact.ending Comparison.limit_reflexive (fun _ _ h => h.1)
        (fun _ _ h => Likeness.eq_of_forall₂ h fun _ _ _ => Comparison.limit_exact.value) like
      left
      constructor
      · rw [hcut, hfull, attempt, attempt, same]
      · rw [hfull, attempt_snd, ← same]
        exact like.machine.printed.2
    · right
      have ended : cut.1 = .error (.failure e) := by
        rw [hcut, attempt]
        generalize Eval.program _ statements m = r at hs
        obtain ⟨_ | _, _⟩ := r <;> cases hs
        rfl
      rw [← attempt_snd, ← hcut] at hsize hout
      rw [← attempt_snd, ← hfull] at hout
      exact ⟨e, line, ended, he, hsize, hout⟩

end Machine

/-- Let only `k` lines be taken from a program, in whatever state it starts. If without a limit it
prints no more than that, the limit changes nothing. If it prints more, whether it ever ends or not,
then with the limit it ends in the failure of printing a line, which names the reason that the
output gives and which no handler can catch, and its output is that of the first `k` lines; a larger
allowance does not change this any more. -/
theorem output_limit_truncates (m : Machine) (around : Surroundings) (k n : Nat)
    (reason name text : String) :
    let limit := m.printed.size + k
    let cut := m.run (around.limited ⟨limit, reason⟩) n name text
    let full := m.run around.unlimited n name text
    (full.2.printed.size ≤ limit → cut = full) ∧
    (limit < full.2.printed.size →
      (∃ e, cut.1 = .error (.failure e) ∧ e.IsRefusedLine reason ∧ e.isFatal = true) ∧
      cut.2.printed.toList = full.2.printed.toList.take limit ∧
      ∀ n', n ≤ n' → m.run (around.limited ⟨limit, reason⟩) n' name text = cut) := by
  intro limit cut full
  obtain ⟨same, hsize⟩ | ⟨e, line, ended, refused, hsize, more⟩ :=
    m.run_limited around k n reason name text
  · constructor
    · exact fun _ => same
    · intro hmore
      exact absurd hsize (Nat.not_le_of_lt hmore)
  · have longer : limit < full.2.printed.size := by
      have length : cut.2.printed.size + 1 ≤ full.2.printed.size := by simpa using more.length_le
      have reached : cut.2.printed.size = limit := hsize
      omega
    constructor
    · intro hless
      exact absurd longer (Nat.not_lt_of_le hless)
    · intro _
      refine ⟨⟨e, ended, refused, refused.isFatal⟩, ?_, fun n' hn => ?_⟩
      · rw [Array.toList_push] at more
        have first := List.prefix_iff_eq_take.mp ((List.prefix_append _ _).trans more)
        rwa [Array.length_toList, hsize] at first
      · apply m.run_of_le _ hn
        intro unfinished
        cases ended.symm.trans unfinished

/-- Where one line is taken, the second one ends the program. -/
theorem second_line_refused :
    let around : Surroundings := ⟨.standard, .empty [], none⟩
    let cut := Machine.initial.run (around.limited ⟨1, "Broken pipe"⟩) 9 "main"
      "print(1)\nprint(2)\nprint(3)"
    (∃ e, cut.1 = .error (.failure e) ∧ e.isFatal = true ∧
      e.message = "Could not write output: Broken pipe") ∧ cut.2.printed.toList = ["1"] := by
  intro around cut
  let full := Machine.initial.run around.unlimited 9 "main" "print(1)\nprint(2)\nprint(3)"
  have printed : full.2.printed = #["1", "2", "3"] := by decide +kernel
  have more : Machine.initial.printed.size + 1 < full.2.printed.size := by
    rw [printed]
    decide
  obtain ⟨⟨e, ended, ⟨span, refused⟩, fatal⟩, first, -⟩ :=
    (output_limit_truncates Machine.initial around 1 9 "Broken pipe" "main"
      "print(1)\nprint(2)\nprint(3)").2 more
  have message : (Fault.outputFailed "Broken pipe").message =
      "Could not write output: Broken pipe" := by decide +kernel
  refine ⟨⟨e, ended, fatal, (congrArg Failure.message refused).trans message⟩, first.trans ?_⟩
  change full.2.printed.toList.take 1 = ["1"]
  rw [printed]
  rfl

end TracedScript
