import TracedScript.Proofs.Number.Digits
import TracedScript.Report.Layout

/-!
# Colours

What a terminal obeys is a sequence of its own between the characters that it shows. As reports are
laid out before they are painted, and painting only puts sequences around texts, a coloured report
without its sequences is the plain one: `colour_changes_only_colour`. The texts that a report takes
over from programs must not bring the character along with which sequences start.
-/

namespace TracedScript

/-! ## Sequences -/

namespace Text

/-- The character with which sequences start. -/
def escape : Char := '\x1b'

/-- Sequences behind each other, each up to the first `m` behind its start. -/
inductive Sequences : List Char → Prop where
  | nil : Sequences []
  | cons {inside more : List Char} : 'm' ∉ inside → Sequences more →
    Sequences (escape :: '[' :: (inside ++ 'm' :: more))

/-- Deletes all sequences, the first one only to its end if the text starts inside of it. -/
def withoutSequences (inside : Bool) : List Char → List Char
  | [] => []
  | c :: cs =>
    if inside then withoutSequences (c ≠ 'm') cs
    else if c = escape ∧ cs.head? = some '[' ∧ 'm' ∈ cs then withoutSequences true cs
    else c :: withoutSequences false cs

variable {xs ys : List Char}

theorem withoutSequences_inside (h : 'm' ∉ xs) (ys : List Char) :
    withoutSequences true (xs ++ 'm' :: ys) = withoutSequences false ys := by
  induction xs with
  | nil => rfl
  | cons x xs ih =>
    simp only [List.mem_cons, not_or] at h
    have other : decide (x ≠ 'm') = true := decide_eq_true (Ne.symm h.1)
    rw [List.cons_append, withoutSequences, if_pos rfl, other]
    exact ih h.2

theorem Sequences.deleted (h : Sequences xs) (ys : List Char) :
    withoutSequences false (xs ++ ys) = withoutSequences false ys := by
  induction h with
  | nil => rfl
  | @cons inside more hm _ ih =>
    have starts : '[' :: (inside ++ 'm' :: more) ++ ys = ('[' :: inside) ++ 'm' :: (more ++ ys) := by
      simp
    have noEnd : 'm' ∉ '[' :: inside := by simp [hm]
    rw [List.cons_append, starts, withoutSequences, if_neg Bool.false_ne_true, if_pos,
      withoutSequences_inside noEnd, ih]
    simp

theorem withoutSequences_append (h : escape ∉ xs) (ys : List Char) :
    withoutSequences false (xs ++ ys) = xs ++ withoutSequences false ys := by
  induction xs with
  | nil => rfl
  | cons x xs ih =>
    simp only [List.mem_cons, not_or] at h
    have other : ¬ (x = escape ∧ (xs ++ ys).head? = some '[' ∧ 'm' ∈ xs ++ ys) :=
      fun start => h.1 start.1.symm
    rw [List.cons_append, withoutSequences, if_neg Bool.false_ne_true, if_neg other, ih h.2,
      List.cons_append]

theorem Sequences.append (h : Sequences xs) (h' : Sequences ys) : Sequences (xs ++ ys) := by
  induction h with
  | nil => exact h'
  | @cons inside more hm _ ih =>
    have next := Sequences.cons hm ih
    simpa using next

theorem Sequences.code {code : String} (h : 'm' ∉ code.toList) :
    Sequences (escapeSequence code).toList := by
  have one := Sequences.cons h .nil
  have text : (escapeSequence code).toList = escape :: '[' :: (code.toList ++ ['m']) := by
    rw [escapeSequence, String.toList_append, String.toList_append]
    rfl
  rw [text]
  exact one

theorem Sequences.codes {first second : String} (h : 'm' ∉ first.toList)
    (h' : 'm' ∉ second.toList) :
    Sequences (escapeSequence first ++ escapeSequence second).toList := by
  rw [String.toList_append]
  exact (code h).append (code h')

end Text

/-- Painting puts nothing but sequences around a text. -/
def Painter.OnlyWraps (paint : Painter) : Prop :=
  ∀ role text, ∃ before behind, Text.Sequences before ∧ Text.Sequences behind ∧
    (paint role text).toList = before ++ (text.toList ++ behind)

theorem Role.wraps (role : Role) : Text.Sequences role.sequences.1.toList ∧
    Text.Sequences role.sequences.2.toList := by
  cases role with
  | plain => exact ⟨.nil, .nil⟩
  | alarm | heading => exact ⟨.codes (by decide) (by decide), .codes (by decide) (by decide)⟩
  | place | quotation | message => exact ⟨.code (by decide), .code (by decide)⟩

theorem Painter.ansi_onlyWraps : Painter.ansi.OnlyWraps := by
  intro role text
  obtain ⟨before, behind⟩ := role.wraps
  refine ⟨_, _, before, behind, ?_⟩
  rw [ansi, String.toList_append, String.toList_append, List.append_assoc]

/-! ## Painted reports -/

/-- No sequence can start in the text. -/
def Unescaped (text : String) : Prop := Text.escape ∉ text.toList

instance (text : String) : Decidable (Unescaped text) :=
  inferInstanceAs (Decidable (Text.escape ∉ text.toList))

@[simp] theorem unescaped_append_iff {s t : String} :
    Unescaped (s ++ t) ↔ Unescaped s ∧ Unescaped t := by
  rw [Unescaped, String.toList_append, List.mem_append, not_or]
  rfl

theorem unescaped_join {ts : List String} (h : ∀ t ∈ ts, Unescaped t) :
    Unescaped (String.join ts) := by
  rw [Unescaped, String.toList_join, List.mem_flatMap]
  rintro ⟨t, ht, escaped⟩
  exact h t ht escaped

theorem unescaped_intercalate {s : String} {ts : List String} (hs : Unescaped s)
    (h : ∀ t ∈ ts, Unescaped t) : Unescaped (s.intercalate ts) := by
  induction ts with
  | nil => exact List.not_mem_nil
  | cons t ts ih =>
    obtain ⟨ht, hts⟩ := List.forall_mem_cons.mp h
    cases ts with
    | nil =>
      rw [String.intercalate_singleton]
      exact ht
    | cons u ts =>
      rw [String.intercalate_cons_cons, unescaped_append_iff, unescaped_append_iff]
      exact ⟨⟨ht, hs⟩, ih hts⟩

namespace Report

variable {paint : Painter} {line : List Piece} {r : Report}

/-- The pieces of a line bring no sequences along. -/
def Clean (line : List Piece) : Prop := ∀ p ∈ line, Unescaped p.text

theorem withoutSequences_piece (wraps : paint.OnlyWraps) {p : Piece} (h : Unescaped p.text)
    (ys : List Char) : Text.withoutSequences false ((p.render paint).toList ++ ys) =
      p.text.toList ++ Text.withoutSequences false ys := by
  unfold Piece.render
  split
  · exact Text.withoutSequences_append h ys
  · obtain ⟨before, behind, hbefore, hbehind, painted⟩ := wraps p.role p.text
    rw [painted, List.append_assoc, hbefore.deleted, List.append_assoc,
      Text.withoutSequences_append h, hbehind.deleted]

theorem withoutSequences_line (wraps : paint.OnlyWraps) (h : Clean line) (ys : List Char) :
    Text.withoutSequences false ((renderLine paint line).toList ++ ys) =
      (renderLine .none line).toList ++ Text.withoutSequences false ys := by
  rw [renderLine_none]
  induction line with
  | nil => rfl
  | cons p line ih =>
    obtain ⟨hp, hline⟩ := List.forall_mem_cons.mp h
    rw [renderLine, List.map_cons, String.join_cons, String.toList_append, List.append_assoc,
      withoutSequences_piece wraps hp, List.map_cons, String.join_cons, String.toList_append,
      List.append_assoc]
    exact congrArg (p.text.toList ++ ·) (ih hline)

theorem withoutSequences_render (wraps : paint.OnlyWraps) (h : ∀ line ∈ r, Clean line) :
    Text.withoutSequences false (r.renderWith paint).toList = (r.render false).toList := by
  change _ = (r.renderWith .none).toList
  induction r with
  | nil => rfl
  | cons line r ih =>
    obtain ⟨hline, hr⟩ := List.forall_mem_cons.mp h
    cases r with
    | nil =>
      have only := withoutSequences_line wraps hline []
      simpa [renderWith, Text.withoutSequences] using only
    | cons next r =>
      have break_clean : Text.escape ∉ "\n".toList := by decide
      have later := ih hr
      rw [renderWith, renderWith, List.map_cons, List.map_cons] at later ⊢
      rw [List.map_cons, List.map_cons, String.intercalate_cons_cons,
        String.intercalate_cons_cons]
      simp only [String.toList_append, List.append_assoc]
      rw [withoutSequences_line wraps hline, Text.withoutSequences_append break_clean, later]

theorem unescaped_render (h : ∀ line ∈ r, Clean line) : Unescaped (r.render false) := by
  rw [render_false]
  apply unescaped_intercalate (by decide : Unescaped "\n")
  intro text ht
  obtain ⟨line, hline, rfl⟩ := List.mem_map.mp ht
  apply unescaped_join
  intro text ht
  obtain ⟨p, hp, rfl⟩ := List.mem_map.mp ht
  exact h line hline p hp

end Report

/-! ## The layout brings no sequences along -/

/-- The texts that the report of a span takes over: the name of the file and the quoted line. -/
def Span.shown (span : Span) : List String := [span.start.source.name, span.start.lineText]

/-- The texts that the report of an error takes over. -/
def SourceError.shown (e : SourceError) : List String := e.message :: e.span.shown

/-- The texts that the report of a failure takes over: its message, and for each frame and each
former place of the value to blame its name and what is shown of its span. -/
def Failure.shown (e : Failure) : List String :=
  e.message ::
    ((Report.trail e).flatMap (fun (display, span) => display :: span.toList.flatMap Span.shown) ++
      e.origin.flatMap fun hop => hop.display :: hop.span.shown)

namespace Report

theorem unescaped_decimal (n : Int) : Unescaped (Fault.decimal n) := by
  have digits : Text.escape ∉ Number.digits n.natAbs := by
    intro h
    have digit := Number.isDigit_of_mem_digits h
    exact absurd digit (by decide)
  rw [Unescaped, Fault.decimal, String.toList_ofList, Number.integerText]
  split
  · rw [List.mem_cons, not_or]
    exact ⟨by decide, digits⟩
  · exact digits

theorem unescaped_repeated {c : Char} (h : Text.escape ≠ c) (n : Nat) :
    Unescaped (repeated c n) := by
  rw [Unescaped, repeated, String.toList_ofList, List.mem_replicate]
  exact fun same => h same.2

theorem clean_banner {title : String} (h : Unescaped title) : Clean (banner title) := by
  have signs := unescaped_repeated (by decide : Text.escape ≠ '=')
  simp [Clean, banner, h, signs]

theorem clean_summary {kind message : String} (hk : Unescaped kind) (hm : Unescaped message) :
    Clean (summary kind message) := by
  have colon : Unescaped ": " := by decide +kernel
  simp [Clean, summary, hk, hm, colon]

theorem clean_excerpt {span : Span} (h : Unescaped span.start.lineText) :
    ∀ line ∈ excerpt span, Clean line := by
  have fixed : Unescaped "    Line " ∧ Unescaped ", Column " ∧ Unescaped "   >" ∧
      Unescaped "    " := by decide +kernel
  have marks := unescaped_repeated (by decide : Text.escape ≠ '^')
  have blanks := unescaped_repeated (by decide : Text.escape ≠ ' ')
  have place (line column : Int) : Unescaped
      ("    Line " ++ Fault.decimal line ++ ", Column " ++ Fault.decimal column) := by
    simp [fixed, unescaped_decimal]
  intro line hline
  simp only [excerpt, List.mem_cons, List.not_mem_nil, or_false] at hline
  obtain rfl | rfl | rfl := hline
  · exact List.forall_mem_singleton.mpr (place _ _)
  · simp [Clean, fixed, h]
  · simp [Clean, fixed, marks, blanks]

theorem clean_placeIn {display : String} {span : Option Span} (h : Unescaped display)
    (hs : ∀ text ∈ span.toList.flatMap Span.shown, Unescaped text) :
    ∀ line ∈ placeIn display span, Clean line := by
  have fixed : Unescaped "  File " ∧ Unescaped ", In " ∧ Unescaped "  In " := by decide +kernel
  intro line hline
  cases span with
  | none =>
    have text : Unescaped ("  In " ++ display) := by simp [fixed, h]
    obtain rfl := List.mem_singleton.mp hline
    exact List.forall_mem_singleton.mpr text
  | some span =>
    have name : Unescaped span.start.source.name := hs _ (by simp [Span.shown])
    have quoted : Unescaped span.start.lineText := hs _ (by simp [Span.shown])
    have text : Unescaped ("  File " ++ span.start.source.name ++ ", In " ++ display) := by
      simp [fixed, name, h]
    obtain rfl | hline := List.mem_cons.mp hline
    · exact List.forall_mem_singleton.mpr text
    · exact clean_excerpt quoted line hline

theorem clean_history {origin : List Hop}
    (h : ∀ hop ∈ origin, Unescaped hop.display ∧ ∀ text ∈ hop.span.shown, Unescaped text) :
    ∀ line ∈ history origin, Clean line := by
  intro line hline
  cases origin with
  | nil => cases hline
  | cons first hops =>
    obtain rfl | hline := List.mem_cons.mp hline
    · exact List.forall_mem_singleton.mpr (by decide +kernel)
    · obtain ⟨hop, hhop, hline⟩ := List.mem_flatMap.mp hline
      obtain ⟨display, span⟩ := h hop hhop
      exact clean_placeIn display (by simpa using span) line hline

theorem clean_ofSourceError {e : SourceError} (h : ∀ text ∈ e.shown, Unescaped text) :
    ∀ line ∈ ofSourceError e, Clean line := by
  have message : Unescaped e.message := h _ (by simp [SourceError.shown])
  have name : Unescaped e.span.start.source.name := h _ (by simp [SourceError.shown, Span.shown])
  have quoted : Unescaped e.span.start.lineText := h _ (by simp [SourceError.shown, Span.shown])
  have kind : Unescaped e.kind.name := by cases e.kind <;> decide +kernel
  have file : Unescaped ("  File " ++ e.span.start.source.name) := by
    rw [unescaped_append_iff]
    exact ⟨by decide +kernel, name⟩
  intro line hline
  simp only [ofSourceError, List.mem_append, List.mem_cons, List.not_mem_nil, or_false] at hline
  obtain ((rfl | rfl) | hline) | rfl | rfl := hline
  · exact clean_banner (by decide +kernel)
  · exact List.forall_mem_singleton.mpr file
  · exact clean_excerpt quoted line hline
  · exact clean_summary kind message
  · exact clean_banner (by decide +kernel)

theorem clean_ofFailure {e : Failure} (h : ∀ text ∈ e.shown, Unescaped text) :
    ∀ line ∈ ofFailure e, Clean line := by
  have message : Unescaped e.message := h _ (by simp [Failure.shown])
  have kind : Unescaped e.kind.name := by cases e.kind <;> decide +kernel
  have frames : ∀ frame ∈ trail e, Unescaped frame.1 ∧
      ∀ text ∈ frame.2.toList.flatMap Span.shown, Unescaped text := by
    intro frame hframe
    apply List.forall_mem_cons.mp
    intro text ht
    apply h
    rw [Failure.shown, List.mem_cons, List.mem_append, List.mem_flatMap]
    exact .inr (.inl ⟨frame, hframe, ht⟩)
  have hops : ∀ hop ∈ e.origin, Unescaped hop.display ∧
      ∀ text ∈ hop.span.shown, Unescaped text := by
    intro hop hhop
    apply List.forall_mem_cons.mp
    intro text ht
    apply h
    rw [Failure.shown, List.mem_cons, List.mem_append, List.mem_flatMap, List.mem_flatMap]
    exact .inr (.inr ⟨hop, hhop, ht⟩)
  intro line hline
  simp only [ofFailure, List.mem_append, List.mem_cons, List.not_mem_nil, or_false] at hline
  obtain (((rfl | rfl) | hline) | hline) | rfl | rfl := hline
  · exact clean_banner (by decide +kernel)
  · exact List.forall_mem_singleton.mpr (by decide +kernel)
  · obtain ⟨frame, hframe, hline⟩ := List.mem_flatMap.mp hline
    obtain ⟨display, span⟩ := frames frame (List.mem_reverse.mp hframe)
    exact clean_placeIn display span line hline
  · exact clean_history hops line hline
  · exact clean_summary kind message
  · exact clean_banner (by decide +kernel)

end Report

/-! ## Main statement -/

/-- Painted by `paint`, the report differs from the plain one in sequences only, and the plain one
has none. -/
structure Report.DiffersInColour (r : Report) (paint : Painter) : Prop where
  same : Text.withoutSequences false (r.renderWith paint).toList = (r.render false).toList
  plain : Unescaped (r.render false)

/-- Reports are painted by a painter that only wraps texts in sequences. For every painter that does
so, the coloured report of an error, of whatever frames, places and texts, is the plain one when
all sequences are deleted, and the plain one has no sequences, as long as the texts that are taken
over into the report do not have the character with which they start. -/
theorem colour_changes_only_colour :
    Painter.ansi.OnlyWraps ∧ ∀ paint : Painter, paint.OnlyWraps →
      (∀ e : SourceError, (∀ text ∈ e.shown, Unescaped text) →
        (Report.ofSourceError e).DiffersInColour paint) ∧
      ∀ e : Failure, (∀ text ∈ e.shown, Unescaped text) →
        (Report.ofFailure e).DiffersInColour paint := by
  refine ⟨Painter.ansi_onlyWraps, ?_⟩
  intro paint wraps
  constructor
  · intro e shown
    have clean := Report.clean_ofSourceError shown
    exact ⟨Report.withoutSequences_render wraps clean, Report.unescaped_render clean⟩
  · intro e shown
    have clean := Report.clean_ofFailure shown
    exact ⟨Report.withoutSequences_render wraps clean, Report.unescaped_render clean⟩

/-- In a report in colours, brackets and letters that stand in texts are no part of sequences. -/
theorem brackets_stay_in_report :
    let source : Source := ⟨"main", "f[m]()"⟩
    let stack := (CallStack.root "<program>" 1 .program).call "f" 2 (source.span 0 6) .function
    let e : Failure :=
      ⟨.index, "[m", some (source.span 1 4), some stack, [⟨source.span 2 3, "<program>"⟩]⟩
    let r := Report.ofFailure e
    Painter.ansi.OnlyWraps ∧ (∀ text ∈ e.shown, Unescaped text) ∧ ¬ Unescaped (r.render true) ∧
      Text.withoutSequences false (r.render true).toList = (r.render false).toList ∧
      Unescaped (r.render false) := by
  intro source stack e r
  have shown : ∀ text ∈ e.shown, Unescaped text := by decide +kernel
  have painted : ¬ Unescaped (r.render true) := by
    -- the banner is painted, and comes first
    have banner : ¬ Unescaped (Report.renderLine .ansi (Report.banner " RUNTIME ERROR ")) := by
      decide +kernel
    intro unescaped
    obtain ⟨⟨first, -⟩, -⟩ : (Unescaped _ ∧ Unescaped "\n") ∧ Unescaped _ := by
      simpa [r, Report.ofFailure, Report.render, Report.renderWith] using unescaped
    exact banner first
  obtain ⟨wraps, differs⟩ := colour_changes_only_colour
  obtain ⟨same, plain⟩ := (differs .ansi wraps).2 e shown
  exact ⟨wraps, shown, painted, same, plain⟩

end TracedScript
