import TracedScript.Builtin.Apply
import TracedScript.Proofs.Number.Signed
import TracedScript.Proofs.Syntax.Lossless
import TracedScript.Proofs.Text.Trimming
import TracedScript.Proofs.Value.WellFormed

/-!
# Integers are read alike everywhere

The text of an integer is cut out of a program by the scan, and converted from a string by the
function `int`. Both read digits without their underscores; `int` takes signs, and blanks around
them, as well. Main statement: `integers_read_alike`.
-/

namespace TracedScript

/-- A text is cut in one way only at a number of bytes. -/
theorem Text.append_inj_of_bytes {front back front' back' : List Char}
    (h : front ++ back = front' ++ back') (hb : byteLength front = byteLength front') :
    front = front' ∧ back = back' := by
  constructor
  · rw [← takeBytes_append front back, h, hb, takeBytes_append]
  · rw [← dropBytes_append front back, h, hb, dropBytes_append]

namespace Scan

/-! ## The texts of integers in a program -/

/-- Digits and underscores that are read as the integer. -/
structure IntegerText (text : List Char) (n : Int64) : Prop where
  parts : ∀ c ∈ text, isNumberPart c = true
  value : Number.Word.ofText? (withoutUnderscores text) = some n

/-- The step does not cut off an integer. -/
def Step.NoInteger (s : Step) : Prop := ∀ n more, s ≠ .token (.int n) more

namespace Step.NoInteger

variable {c : Char} {rest : List Char}

theorem ite {p : Prop} [Decidable p] {s t : Step} (hs : s.NoInteger) (ht : t.NoInteger) :
    (if p then s else t).NoInteger := by
  split
  · exact hs
  · exact ht

theorem nameStep : (nameStep c rest).NoInteger := by
  unfold Scan.nameStep
  dsimp only
  split <;> rintro _ _ ⟨⟩

theorem stringStep : (stringStep c rest).NoInteger := by
  unfold Scan.stringStep
  split <;> rintro _ _ ⟨⟩

theorem eitherMark (two one : Mark) : (eitherMark c two one rest).NoInteger := by
  unfold Scan.eitherMark
  split
  · split <;> rintro _ _ ⟨⟩
  · rintro _ _ ⟨⟩

theorem of_not_digit (h : ¬ Number.isDigit c = true) : (step c rest).NoInteger := by
  unfold step
  rw [if_neg h]
  refine .ite ?gap <| .ite ?feed <| .ite nameStep <| .ite stringStep <| .ite ?comment <|
    .ite ?point <| .ite (eitherMark _ _) <| .ite (eitherMark _ _) <| .ite (eitherMark _ _) <|
    .ite (eitherMark _ _) <| .ite (eitherMark _ _) ?single
  case gap | feed | comment => rintro _ _ ⟨⟩
  case point =>
    split
    · split <;> rintro _ _ ⟨⟩
    · rintro _ _ ⟨⟩
  case single => split <;> rintro _ _ ⟨⟩

end Step.NoInteger

section

variable {source : Source} {start : Nat} {behindNumber : Bool} {c : Char}
  {text rest cs before : List Char} {n : Int64} {more : Nat} {l : Lexeme} {ls : List Lexeme}

theorem integerText_of_step (h : step c rest = .token (.int n) more) :
    IntegerText (c :: rest.take more) n := by
  have digit : Number.isDigit c = true :=
    Classical.byContradiction fun hd => Step.NoInteger.of_not_digit hd n more h
  rw [step_of_digit digit, numberStep] at h
  dsimp only at h
  split at h
  · split at h <;> cases h
  · split at h
    · rename_i value
      cases h
      rw [take_takeWhile]
      refine ⟨List.forall_mem_cons.mpr ⟨?_, fun c hc => List.mem_takeWhile_imp hc⟩, value⟩
      rw [isNumberPart, digit, Bool.true_or]
    · cases h

/-- The lexeme stands for a part of the source that is the text of the integer. -/
def StandsFor (l : Lexeme) (source : Source) (n : Int64) : Prop :=
  ∃ pre text post, source.chars = pre ++ (text ++ post) ∧ IntegerText text n ∧
    l.span.start.index = Text.byteLength pre ∧
    l.span.stop.index = Text.byteLength pre + Text.byteLength text

/-- Of the lexemes of a fraction only the one behind the point can be an integer. -/
theorem standsFor_of_fraction {part : List Char} (hp : ∀ c ∈ part, isNumberPart c = true)
    (h : fractionLexemes source (Text.byteLength before) behindNumber ('.' :: part) = .ok ls)
    (hc : source.chars = before ++ ('.' :: part ++ rest)) (hl : l ∈ ls) (ht : l.token = .int n) :
    StandsFor l source n := by
  unfold fractionLexemes at h
  dsimp only at h
  split at h
  · split at h
    · rename_i value
      cases h
      obtain rfl | hl := List.mem_cons.mp hl
      · cases ht
      · obtain rfl := List.mem_singleton.mp hl
        cases ht
        have dot : Text.byteLength ['.'] = 1 := rfl
        have stop : Text.byteLength ('.' :: part) = 1 + Text.byteLength part := rfl
        refine ⟨before ++ ['.'], part, rest, by simp [hc], ⟨hp, value⟩, ?_, ?_⟩
        · rw [Text.byteLength_append, dot]
        · rw [Text.byteLength_append, dot, stop, Nat.add_assoc]
    · cases h
  · split at h
    · cases h
      obtain rfl := List.mem_singleton.mp hl
      cases ht
    · cases h

theorem standsFor_of_lexemes (before : List Char)
    (h : lexemes source start behindNumber cs = .ok ls)
    (hc : source.chars = before ++ cs) (hs : start = Text.byteLength before) (hl : l ∈ ls)
    (ht : l.token = .int n) : StandsFor l source n := by
  -- What has been cut off is added to `before`.
  fun_induction lexemes source start behindNumber cs generalizing ls before with
  | case1 =>
    cases h
    cases hl
  | case2 start _ c rest more hs' text =>
    rename_i ih
    refine ih (before ++ text) h ?_ ?_ hl
    · simp [hc, text]
    · rw [Text.byteLength_append, hs]
  | case3 start _ c rest t more hs' text =>
    rename_i ih
    have parts : source.chars = (before ++ text) ++ rest.drop more := by simp [hc, text]
    have length : start + Text.byteLength text = Text.byteLength (before ++ text) := by
      rw [Text.byteLength_append, ← hs]
    obtain ⟨later, hlater, h⟩ := exists_of_bind_ok h
    cases h
    obtain rfl | hl := List.mem_cons.mp hl
    · cases ht
      rw [List.append_assoc] at parts
      exact ⟨before, text, _, parts, integerText_of_step hs', hs, by rw [← hs]⟩
    · exact ih _ hlater parts length hl
  | case4 start behindNumber c rest more hs' text =>
    rename_i ih
    have parts : source.chars = before ++ (text ++ rest.drop more) := by simp [hc, text]
    have length : start + Text.byteLength text = Text.byteLength (before ++ text) := by
      rw [Text.byteLength_append, ← hs]
    obtain ⟨here, hhere, h⟩ := exists_of_bind_ok h
    obtain ⟨later, hlater, h⟩ := exists_of_bind_ok h
    cases h
    obtain hl | hl := List.mem_append.mp hl
    · have sound := step_sound c rest
      rw [hs'] at sound
      obtain ⟨d, ds, rfl, cut, digit, number, -⟩ := sound
      have part : ∀ c ∈ rest.take more, isNumberPart c = true := by
        rw [cut]
        refine List.forall_mem_cons.mpr ⟨?_, number⟩
        rw [isNumberPart, digit, Bool.true_or]
      subst hs
      exact standsFor_of_fraction part hhere parts hl ht
    · rw [← List.append_assoc] at parts
      exact ih _ hlater parts length hl
  | case5 => cases h

/-- Without a comment all that is dropped are blanks. -/
theorem Dropped.blank_of_not_mem {gap tail : List Char} (h : Dropped gap tail) (hc : '#' ∉ gap) :
    ∀ c ∈ gap, Text.isBlank c = true := by
  induction h with
  | nil => exact List.forall_mem_nil _
  | blank hb _ ih =>
    have all : ∀ c ∈ [' ', '\t', '\r', '\x0c'], Text.isBlank c = true := by
      simp [Text.isBlank]
    exact List.forall_mem_cons.mpr ⟨all _ hb, ih fun h => hc (List.mem_cons_of_mem _ h)⟩
  | line | block | unclosed => exact absurd (List.mem_cons_self ..) hc

theorem IntegerText.not_blank (h : IntegerText text n) : ∀ c ∈ text, Text.isBlank c = false := by
  intro c hc
  obtain digit | rfl : Number.isDigit c = true ∨ c = '_' := by
    simpa [isNumberPart] using h.parts c hc
  · exact Text.isBlank_of_digit digit
  · rfl

theorem standsFor_of_scan (h : scan source = .ok ls) (hl : l ∈ ls) (ht : l.token = .int n) :
    StandsFor l source n := by
  rw [scan_eq_map] at h
  cases found : lexemes source 0 false source.chars with
  | error e =>
    rw [found] at h
    cases h
  | ok front =>
    rw [found] at h
    cases h
    obtain hl | hl := List.mem_append.mp hl
    · exact standsFor_of_lexemes [] found rfl rfl hl ht
    · simp only [List.mem_cons, List.not_mem_nil, or_false] at hl
      obtain rfl | rfl := hl <;> cases ht

/-- A source without comments that is cut into one integer has blanks around its text. -/
theorem trims_of_scan (h : scan source = .ok ls) (ht : ls.map (·.token) = [.int n, .eol, .eof])
    (hc : '#' ∉ source.chars) :
    ∃ lead text trail, Text.Trims source.chars lead text trail ∧ IntegerText text n := by
  obtain ⟨found, cut, rfl⟩ := exists_cut_of_scan h
  obtain ⟨l, rfl⟩ : ∃ l, found = [l] := by
    have length := congrArg List.length ht
    exact List.length_eq_one_iff.mp (by simpa using length)
  obtain ⟨pre, text, post, whole, integer, start, stop⟩ :=
    standsFor_of_scan h (List.mem_cons_self ..) (List.cons.inj ht).1
  generalize whole' : source.chars = cs at cut hc
  cases cut with
  | @token _ i j gap text' rest t _ dropped _ _ hi hj cut =>
    cases cut with
    | done dropped' =>
      have first : Text.byteLength pre = Text.byteLength gap := by
        rw [← start, hi, Nat.zero_add]
      have second : Text.byteLength text = Text.byteLength text' := by
        have total : j = Text.byteLength pre + Text.byteLength text := stop
        omega
      obtain ⟨rfl, behind⟩ := Text.append_inj_of_bytes (whole.symm.trans whole') first
      obtain ⟨rfl, rfl⟩ := Text.append_inj_of_bytes behind second
      refine ⟨pre, text, post, .of_not_blank rfl ?_ ?_ integer.not_blank, integer⟩
      · exact dropped.blank_of_not_mem fun h => hc (List.mem_append_left _ h)
      · exact dropped'.blank_of_not_mem fun h =>
          hc (List.mem_append_right _ (List.mem_append_right _ h))

end

end Scan

/-! ## Strings converted to integers -/

namespace Builtin

variable {s : String} {lead core trail : List Char} {n : Int64}

/-- A string is read as the number that stands between the blanks at its ends. -/
theorem int_of_trims (h : Text.Trims s.toList lead core trail) (u : Trace) (span : Span) :
    result .int [⟨.str s, u⟩] span = Value.converted ⟨.str s, u⟩ .int span Value.int
      (Number.Word.ofText? (core.filter (· ≠ '_'))) := by
  rw [← h.trim_eq]
  rfl

theorem int_of_integerText (h : Text.Trims s.toList lead core trail) (hn : Scan.IntegerText core n)
    (u : Trace) (span : Span) : result .int [⟨.str s, u⟩] span = .ok (.int n) := by
  have value : Number.Word.ofText? (core.filter (· ≠ '_')) = some n := hn.value
  rw [int_of_trims h, value]
  rfl

/-- Nothing is taken away from a numeral. -/
theorem int_of_numeral {cs : List Char} (h : Number.Numeral cs n.toInt) (u : Trace) (span : Span) :
    result .int [⟨.str (String.ofList cs), u⟩] span = .ok (.int n) := by
  have plain : ∀ c ∈ cs, Text.isBlank c = false ∧ c ≠ '_' := by
    intro c hc
    obtain digit | rfl | rfl := h.plain c hc
    · refine ⟨Text.isBlank_of_digit (Number.isDigit_iff.mpr digit), ?_⟩
      rintro rfl
      cases digit
    · decide
    · decide
  have whole := Text.trims_of_not_blank fun c hc => (plain c hc).1
  have kept : cs.filter (· ≠ '_') = cs :=
    List.filter_eq_self.mpr fun c hc => decide_eq_true (plain c hc).2
  rw [int_of_trims whole, kept, Number.Word.ofText?_eq_some_iff.mpr h]
  rfl

end Builtin

/-- The ways in which integers are read agree. What `str` gives for an integer is read by `int` as
the same one. So is the text of every integer in a program, and a program that has nothing but this
integer and blanks around it. (A comment is no part of the text of an integer.) And `int` reads just
those strings that are a signed numeral of 64 bits when blanks at both ends and all underscores are
taken away; for others it fails. -/
theorem integers_read_alike :
    (∀ (n : Int64) (t : Trace) (span : Span), ∃ text,
      Builtin.result .str [⟨.int n, t⟩] span = .ok (.str text) ∧
      ∀ (u : Trace) (span : Span), Builtin.result .int [⟨.str text, u⟩] span = .ok (.int n)) ∧
    (∀ (source : Source) (lexemes : List Lexeme), scan source = .ok lexemes →
      (∀ l ∈ lexemes, ∀ n, l.token = .int n → ∀ (u : Trace) (span : Span),
        Builtin.result .int [⟨.str (String.ofList
          (source.between l.span.start.index l.span.stop.index)), u⟩] span = .ok (.int n)) ∧
      ∀ n, lexemes.map (·.token) = [.int n, .eol, .eof] → '#' ∉ source.chars →
        ∀ (u : Trace) (span : Span),
          Builtin.result .int [⟨.str source.text, u⟩] span = .ok (.int n)) ∧
    ∀ (s : String) (u : Trace) (span : Span), ∃ lead core trail,
      Text.Trims s.toList lead core trail ∧
      let numeral := core.filter (· ≠ '_')
      let result := Builtin.result .int [⟨.str s, u⟩] span
      (∀ z, Number.Numeral numeral z → -2 ^ 63 ≤ z → z < 2 ^ 63 →
        result = .ok (.int (Int64.ofInt z))) ∧
      ((∀ z, Number.Numeral numeral z → z < -2 ^ 63 ∨ 2 ^ 63 ≤ z) →
        FailsAs result .value s!"Could not convert {Text.quote s} to Int") := by
  refine ⟨fun n t span => ?_, fun source lexemes h => ⟨?_, ?_⟩, fun s u span => ?_⟩
  · refine ⟨String.ofList (Number.Word.text n), rfl, fun u span => ?_⟩
    exact Builtin.int_of_numeral (Number.numeral_integerText n.toInt) u span
  · intro l hl n ht u span
    obtain ⟨pre, text, post, whole, integer, start, stop⟩ := Scan.standsFor_of_scan h hl ht
    rw [start, stop, Source.between_append whole]
    exact Builtin.int_of_integerText (Text.trims_of_not_blank integer.not_blank) integer u span
  · intro n ht hc u span
    obtain ⟨lead, text, trail, parts, integer⟩ := Scan.trims_of_scan h ht hc
    exact Builtin.int_of_integerText parts integer u span
  · obtain ⟨trail, parts⟩ := Text.exists_trims s.toList
    refine ⟨_, _, trail, parts, ?_, ?_⟩
    · intro z hz low high
      have value : (Int64.ofInt z).toInt = z := Int64.toInt_ofInt_of_le low high
      rw [← value] at hz
      rw [Builtin.int_of_trims parts, Number.Word.ofText?_eq_some_iff.mpr hz]
      rfl
    · intro outside
      have unread : Number.Word.ofText? ((Text.trim s.toList).filter (· ≠ '_')) = none := by
        refine Option.eq_none_iff_forall_ne_some.mpr fun n hn => ?_
        obtain low | high := outside n.toInt (Number.Word.ofText?_eq_some_iff.mp hn)
        · exact absurd n.le_toInt (Int.not_le.mpr low)
        · exact absurd n.toInt_lt (Int.not_lt.mpr high)
      rw [Builtin.int_of_trims parts, unread]
      have wording : (Fault.invalidLiteral (Text.quote s) .int).message =
          "Could not convert " ++ Text.quote s ++ " to Int" := String.append_assoc ..
      have fails := (Fault.invalidLiteral (Text.quote s) .int).failsAs_withOrigin (some span)
        (Value.provenance ⟨.str s, u⟩) (α := Value)
      rw [wording] at fails
      exact fails

/-- Blanks, a sign and underscores do no harm. The least number can be read, and its opposite
can not. -/
theorem least_integer_read :
    let read (s : String) : Except Failure Value := Builtin.result .int [.str s] default
    read "\t-_1_0 " = .ok (.int (-10)) ∧
      (∃ text, Builtin.result .str [.int Int64.minValue] default = .ok (.str text) ∧
        read text = .ok (.int Int64.minValue)) ∧
      FailsAs (read "9223372036854775808") .value
        "Could not convert \x229223372036854775808\x22 to Int" := by
  intro read
  obtain ⟨back, -, reads⟩ := integers_read_alike
  refine ⟨?_, ?_, ?_⟩
  · obtain ⟨lead, core, trail, parts, result, -⟩ := reads "\t-_1_0 " .fresh default
    obtain rfl : core = ['-', '_', '1', '_', '0'] := parts.trim_eq.symm.trans (by decide +kernel)
    have ten : Number.Digits ['1', '0'] := by decide
    exact result (-10) (.minus ten (by decide)) (by decide) (by decide)
  · obtain ⟨text, written, result⟩ := back Int64.minValue .fresh default
    exact ⟨text, written, result .fresh default⟩
  · let opposite := "9223372036854775808"
    obtain ⟨lead, core, trail, parts, -, fails⟩ := reads opposite .fresh default
    have numeral : core.filter (· ≠ '_') = opposite.toList := by
      rw [← parts.trim_eq]
      decide +kernel
    have quoted : s!"Could not convert {Text.quote opposite} to Int" =
        "Could not convert \x229223372036854775808\x22 to Int" := by decide +kernel
    have value : Number.integer? opposite.toList = some 9223372036854775808 := by decide +kernel
    rw [quoted, numeral] at fails
    refine fails fun z hz => .inr ?_
    have read := Number.integer?_eq_some_iff.mpr hz
    rw [value] at read
    cases read
    decide

end TracedScript
