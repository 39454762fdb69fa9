import TracedScript.Proofs.Number.Numerals
import TracedScript.Proofs.Syntax.Lossless

/-!
# Points between digits

A number has at most one point. In a text of groups of digits with a point between each two, the
first two groups are a float, and each further group is an integer behind a point of its own:
`one_point_in_a_number`. That a number ends in front of a point is carried from each group to the
next one.
-/

namespace TracedScript

namespace Scan

open Number (Digits)

/-- A digit, and digits and underscores behind it. -/
structure Group where
  first : Char
  more : List Char
  digit : first.isDigit = true
  parts : ∀ c ∈ more, c.isDigit = true ∨ c = '_'

namespace Group

def text (g : Group) : List Char := g.first :: g.more

def digits (g : Group) : List Char := g.text.filter (· ≠ '_')

def value (g : Group) : Nat := Nat.ofDigitChars 10 g.digits 0

/-- The groups, each with a point in front of it. -/
def behindPoints (gs : List Group) : List Char := gs.flatMap fun g => '.' :: g.text

/-- Tokens and their texts: a point and an integer for each group. -/
def pointed (gs : List Group) : List (Token × List Char) :=
  gs.flatMap fun g => [(.mark .period, ['.']), (.int (Int64.ofNat g.value), g.text)]

/-- The texts of the tokens are the whole text. -/
theorem texts_pointed (gs : List Group) : (pointed gs).flatMap (·.2) = behindPoints gs := by
  rw [pointed, List.flatMap_assoc]
  simp [behindPoints]

end Group

/-- The lexemes of tokens whose texts stand one behind the other from byte `start` on. -/
def laid (source : Source) : Nat → List (Token × List Char) → List Lexeme
  | _, [] => []
  | start, (t, text) :: more =>
    let stop := start + Text.byteLength text
    ⟨t, ⟨⟨source, start⟩, ⟨source, stop⟩⟩⟩ :: laid source stop more

variable {source : Source} {start : Nat} {g : Group} {gs : List Group} {rest : List Char}

theorem laid_append (start : Nat) (ts us : List (Token × List Char)) :
    laid source start (ts ++ us) =
      laid source start ts ++ laid source (start + Text.byteLength (ts.flatMap (·.2))) us := by
  induction ts generalizing start with
  | nil => rfl
  | cons t ts ih =>
    rw [List.cons_append, laid, ih, laid, List.cons_append, List.flatMap_cons,
      Text.byteLength_append, Nat.add_assoc]

namespace Group

theorem digits_digits (g : Group) : Digits g.digits := by
  intro c hc
  obtain ⟨hc, other⟩ := List.mem_filter.mp hc
  obtain rfl | hc := List.mem_cons.mp hc
  · exact g.digit
  · exact (g.parts c hc).resolve_right (by simpa using other)

theorem digits_ne_nil (g : Group) : g.digits ≠ [] := by
  apply List.ne_nil_of_mem (a := g.first)
  apply List.mem_filter.mpr
  constructor
  · exact List.mem_cons_self ..
  · have underscore : g.first ≠ '_' := by
      intro h
      have digit := g.digit
      rw [h] at digit
      cases digit
    simpa using underscore

theorem isDigit_first (g : Group) : Number.isDigit g.first = true := Number.isDigit_iff.mpr g.digit

theorem parts_more (g : Group) : ∀ c ∈ g.more, isNumberPart c = true := by
  intro c hc
  obtain digit | rfl := g.parts c hc
  · rw [isNumberPart, Number.isDigit_iff.mpr digit, Bool.true_or]
  · rfl

theorem parts_text (g : Group) : ∀ c ∈ g.text, isNumberPart c = true := by
  intro c hc
  obtain rfl | hc := List.mem_cons.mp hc
  · rw [isNumberPart, g.isDigit_first, Bool.true_or]
  · exact g.parts_more c hc

/-- Behind the group the text ends, or a point stands. -/
def Ends (rest : List Char) : Prop := ∀ c ∈ rest.head?, c = '.'

theorem ends_nil : Ends [] := by
  intro c hc
  cases hc

theorem ends_point (cs : List Char) : Ends ('.' :: cs) := by
  rintro c ⟨⟩
  rfl

theorem ends_append (gs : List Group) (hr : Ends rest) : Ends (behindPoints gs ++ rest) := by
  cases gs with
  | nil => exact hr
  | cons g gs => exact ends_point _

theorem ends_behindPoints (gs : List Group) : Ends (behindPoints gs) := by
  simpa using ends_append gs ends_nil

/-- Digits and underscores are cut off up to where the group ends. -/
theorem cut {cs : List Char} (hcs : ∀ c ∈ cs, isNumberPart c = true) (hr : Ends rest) :
    (cs ++ rest).takeWhile isNumberPart = cs ∧ (cs ++ rest).dropWhile isNumberPart = rest := by
  have stop : rest.takeWhile isNumberPart = [] ∧ rest.dropWhile isNumberPart = rest := by
    cases rest with
    | nil => exact ⟨rfl, rfl⟩
    | cons c rest =>
      obtain rfl := hr c rfl
      exact ⟨rfl, rfl⟩
  rw [List.takeWhile_append_of_pos hcs, List.dropWhile_append_of_pos hcs, stop.1, stop.2,
    List.append_nil]
  exact ⟨rfl, rfl⟩

theorem ofText?_digits (g : Group) : Number.Word.ofText? g.digits =
    if g.value < Nat.pow 2 63 then some (Int64.ofNat g.value) else none :=
  Number.Word.ofText?_of_digits g.digits_digits g.digits_ne_nil

end Group

/-! ## One group alone -/

theorem step_integer (g : Group) : step g.first g.more =
    if g.value < Nat.pow 2 63 then .token (.int (Int64.ofNat g.value)) g.more.length
    else .fault .integerTooLarge 0 g.text.length := by
  obtain ⟨whole, behind⟩ := Group.cut g.parts_more Group.ends_nil
  rw [List.append_nil] at whole behind
  have value : Number.Word.ofText? (withoutUnderscores (g.first :: g.more)) = _ := g.ofText?_digits
  rw [step_of_digit g.isDigit_first, numberStep]
  simp only [whole, behind, value]
  by_cases fits : g.value < Nat.pow 2 63
  · rw [if_pos fits, if_pos fits]
  · rw [if_neg fits, if_neg fits]
    rfl

theorem lexemes_integer (g : Group) (source : Source) :
    let span : Span := ⟨⟨source, 0⟩, ⟨source, Text.byteLength g.text⟩⟩
    lexemes source 0 false g.text =
      if g.value < Nat.pow 2 63 then .ok [⟨.int (Int64.ofNat g.value), span⟩]
      else .error (LexicalFault.integerTooLarge.error span) := by
  intro span
  by_cases fits : g.value < Nat.pow 2 63
  · have step : step g.first (g.more ++ []) =
        .token (.int (Int64.ofNat g.value)) g.more.length := by
      rw [List.append_nil, step_integer, if_pos fits]
    have integer := lexemes_of_token step source 0 false
    simp only [List.append_nil, lexemes_nil, Nat.zero_add] at integer
    rw [if_pos fits]
    exact integer
  · have step : step g.first g.more =
        .fault .integerTooLarge ([] : List Char).length g.text.length := by
      rw [step_integer, if_neg fits]
      rfl
    have parts : g.first :: g.more = [] ++ (g.text ++ []) := by simp [Group.text]
    have error := lexemes_of_fault step parts source 0 false
    rw [Nat.zero_add, Nat.zero_add] at error
    rw [if_neg fits]
    exact error

/-! ## Groups behind a number -/

theorem step_point (g : Group) (hr : Group.Ends rest) :
    step '.' (g.text ++ rest) = .fraction g.text.length := by
  obtain ⟨whole, -⟩ := Group.cut g.parts_more hr
  show (if Number.isDigit g.first then
    Step.fraction (1 + ((g.more ++ rest).takeWhile isNumberPart).length) else _) = _
  rw [if_pos g.isDigit_first, whole, Nat.add_comm]
  rfl

theorem lexemes_point (g : Group) (hr : Group.Ends rest) (source : Source) (start : Nat) :
    lexemes source start true ('.' :: (g.text ++ rest)) =
      if g.value < Nat.pow 2 63 then
        (lexemes source (start + Text.byteLength ('.' :: g.text)) true rest).map
          (laid source start (Group.pointed [g]) ++ ·)
      else .error (LexicalFault.integerTooLarge.error
        ⟨⟨source, start + 1⟩, ⟨source, start + 1 + Text.byteLength g.text⟩⟩) := by
  have value : Number.Word.ofText? ((withoutUnderscores ('.' :: g.text)).drop 1) = _ :=
    g.ofText?_digits
  have length : start + Text.byteLength ('.' :: g.text) = start + 1 + Text.byteLength g.text := by
    rw [Nat.add_assoc]
    rfl
  rw [lexemes_of_fraction (step_point g hr), fractionLexemes, value, length]
  by_cases fits : g.value < Nat.pow 2 63
  · rw [if_pos fits, if_pos fits]
    rfl
  · rw [if_neg fits, if_neg fits]
    rfl

/-- Each group that fits is a point and an integer, and again a number ends behind it. -/
theorem lexemes_behindPoints (fit : ∀ g ∈ gs, g.value < Nat.pow 2 63) (hr : Group.Ends rest)
    (source : Source) (start : Nat) :
    lexemes source start true (Group.behindPoints gs ++ rest) =
      (lexemes source (start + Text.byteLength (Group.behindPoints gs)) true rest).map
        (laid source start (Group.pointed gs) ++ ·) := by
  -- `behindNumber` is true again behind each group, which is what the next one needs.
  induction gs generalizing start with
  | nil =>
    show lexemes source start true rest = (lexemes source start true rest).map _
    cases lexemes source start true rest <;> rfl
  | cons g gs ih =>
    obtain ⟨hg, hgs⟩ := List.forall_mem_cons.mp fit
    have parts : Group.behindPoints (g :: gs) = '.' :: g.text ++ Group.behindPoints gs := rfl
    have tokens : Group.pointed (g :: gs) = Group.pointed [g] ++ Group.pointed gs := rfl
    have texts : (Group.pointed [g]).flatMap (·.2) = '.' :: g.text := by
      simpa [Group.behindPoints] using Group.texts_pointed [g]
    have front : Group.behindPoints (g :: gs) ++ rest =
        '.' :: (g.text ++ (Group.behindPoints gs ++ rest)) := by simp [parts]
    rw [front, lexemes_point g (Group.ends_append gs hr), if_pos hg, ih hgs, tokens, laid_append,
      texts, parts, Text.byteLength_append, Nat.add_assoc]
    generalize lexemes source _ true rest = later
    cases later with
    | error e => rfl
    | ok later => exact congrArg Except.ok (List.append_assoc ..).symm

/-! ## The first number -/

/-- Two groups with a point between them, the first of which may be missing. -/
def pointText (whole : Option Group) (part : Group) : List Char :=
  whole.elim [] Group.text ++ '.' :: part.text

def wholeDigits (whole : Option Group) : List Char := whole.elim [] Group.digits

/-- The float nearest to the digits with the point between them. -/
def pointValue (whole : Option Group) (part : Group) : Float :=
  Number.ofScientific
    ⟨Nat.ofDigitChars 10 (wholeDigits whole ++ part.digits) 0, -part.digits.length⟩

theorem lexemes_number (whole : Option Group) (part : Group) (hr : Group.Ends rest)
    (source : Source) (start : Nat) :
    lexemes source start false (pointText whole part ++ rest) =
      (lexemes source (start + Text.byteLength (pointText whole part)) true rest).map
        (laid source start [(.float (pointValue whole part), pointText whole part)] ++ ·) := by
  have digits : Digits (wholeDigits whole) := by
    cases whole with
    | none => exact fun c hc => absurd hc List.not_mem_nil
    | some g => exact g.digits_digits
  have value : Number.float? (wholeDigits whole ++ '.' :: part.digits) =
      some (pointValue whole part) :=
    Number.float?_of_digits digits part.digits_digits
      (List.append_ne_nil_of_right_ne_nil _ part.digits_ne_nil)
  have plain : withoutUnderscores (pointText whole part) =
      wholeDigits whole ++ '.' :: part.digits := by
    cases whole with
    | none => rfl
    | some g => exact List.filter_append ..
  -- Without a group in front of the point the text is a fraction, which is cut off in another way.
  cases whole with
  | none =>
    show lexemes source start false ('.' :: (part.text ++ rest)) = _
    rw [lexemes_of_fraction (step_point part hr), fractionLexemes]
    have value : Number.float? (withoutUnderscores ('.' :: part.text)) = _ := value
    simp only [value, Bool.false_eq_true, ↓reduceIte]
    rfl
  | some g =>
    obtain ⟨front, behind⟩ := Group.cut g.parts_more (Group.ends_point (part.text ++ rest))
    obtain ⟨second, -⟩ := Group.cut part.parts_text hr
    have number : Number.float? (withoutUnderscores (g.first :: g.more ++ '.' :: part.text)) =
      some (pointValue g part) := plain ▸ value
    have step : step g.first (g.more ++ '.' :: part.text ++ rest) =
        .token (.float (pointValue g part)) (g.more ++ '.' :: part.text).length := by
      have length : (g.more ++ '.' :: part.text).length =
          g.more.length + 1 + part.text.length := by
        rw [List.length_append, List.length_cons, Nat.add_assoc, Nat.add_comm 1]
      rw [step_of_digit g.isDigit_first, numberStep, List.append_assoc, List.cons_append]
      simp only [front, behind, second, number, length]
    exact lexemes_of_token step source start false

/-- Cutting the groups stops at the first one that does not fit. -/
theorem lexemes_oversized {before : List Group} (fit : ∀ b ∈ before, b.value < Nat.pow 2 63)
    (large : Nat.pow 2 63 ≤ g.value) (after : List Group) (source : Source) (start : Nat) :
    let first := start + Text.byteLength (Group.behindPoints before) + 1
    lexemes source start true (Group.behindPoints (before ++ g :: after)) =
      .error (LexicalFault.integerTooLarge.error
        ⟨⟨source, first⟩, ⟨source, first + Text.byteLength g.text⟩⟩) := by
  have parts : Group.behindPoints (before ++ g :: after) =
      Group.behindPoints before ++ '.' :: (g.text ++ Group.behindPoints after) :=
    List.flatMap_append
  rw [parts, lexemes_behindPoints fit (Group.ends_point _),
    lexemes_point g (Group.ends_behindPoints after), if_neg (Nat.not_lt.mpr large)]
  rfl

end Scan

open Scan (Group)

/-- Groups of digits with single points between them, the first of which may be missing: the first
two are a float, and each further one is an integer behind a point. The tokens stand one behind the
other and are the whole text. The first further group that does not fit is blamed. One group alone
is an integer, or it is to blame. -/
theorem one_point_in_a_number (name : String) :
    (∀ whole part gs,
      let source : Source :=
        ⟨name, String.ofList (Scan.pointText whole part ++ Group.behindPoints gs)⟩
      let stop : Position := ⟨source, Text.byteLength source.chars⟩
      let pieces := (.float (Scan.pointValue whole part), Scan.pointText whole part) ::
        Group.pointed gs
      pieces.flatMap (·.2) = source.chars ∧
      ((∀ g ∈ gs, g.value < Nat.pow 2 63) → scan source =
        .ok (Scan.laid source 0 pieces ++ [⟨.eol, ⟨stop, stop⟩⟩, ⟨.eof, ⟨stop, stop⟩⟩])) ∧
      ∀ before g after, gs = before ++ g :: after → (∀ b ∈ before, b.value < Nat.pow 2 63) →
        Nat.pow 2 63 ≤ g.value →
        let first := Text.byteLength (Scan.pointText whole part ++ Group.behindPoints before) + 1
        scan source = .error ⟨.grammar, "Integer literal is too large",
          ⟨⟨source, first⟩, ⟨source, first + Text.byteLength g.text⟩⟩⟩) ∧
    ∀ g : Group,
      let source : Source := ⟨name, String.ofList g.text⟩
      let stop : Position := ⟨source, Text.byteLength source.chars⟩
      (g.value < Nat.pow 2 63 → scan source =
        .ok [⟨.int (Int64.ofNat g.value), ⟨⟨source, 0⟩, stop⟩⟩, ⟨.eol, ⟨stop, stop⟩⟩,
          ⟨.eof, ⟨stop, stop⟩⟩]) ∧
      (Nat.pow 2 63 ≤ g.value → scan source =
        .error ⟨.grammar, "Integer literal is too large", ⟨⟨source, 0⟩, stop⟩⟩) := by
  constructor
  · intro whole part gs source stop pieces
    have chars : source.chars = Scan.pointText whole part ++ Group.behindPoints gs :=
      String.toList_ofList
    have number := Scan.lexemes_number whole part (Group.ends_behindPoints gs) source 0
    rw [Nat.zero_add, ← chars] at number
    refine ⟨?_, ?_, ?_⟩
    · rw [List.flatMap_cons, Group.texts_pointed, chars]
    · intro fit
      have later := Scan.lexemes_behindPoints fit Group.ends_nil source
        (Text.byteLength (Scan.pointText whole part))
      rw [List.append_nil, Scan.lexemes_nil] at later
      rw [scan_eq_map, number, later]
      simp [Except.map, pieces, Scan.laid, stop]
    · rintro before g after rfl fit large
      have error := Scan.lexemes_oversized fit large after source
        (Text.byteLength (Scan.pointText whole part))
      rw [scan_eq_map, number, error, ← Text.byteLength_append]
      rfl
  · intro g source stop
    have chars : source.chars = g.text := String.toList_ofList
    have integer := Scan.lexemes_integer g source
    rw [scan_eq_map, chars, integer]
    constructor
    · intro fits
      rw [if_pos fits, ← chars]
      rfl
    · intro large
      rw [if_neg (Nat.not_lt.mpr large), ← chars]
      rfl

/-- A version number is a float, a point and an integer; of the integers behind the points of
another one the second is too large. -/
theorem version_read_in_groups :
    let source (cs : List Char) : Source := ⟨"main", String.ofList cs⟩
    let span (s : Source) (i j : Nat) : Span := ⟨⟨s, i⟩, ⟨s, j⟩⟩
    let version := source ['1', '_', '0', '.', '5', '.', '3', '_']
    let large := source (['.', '5', '.', '3', '.'] ++ List.replicate 20 '9')
    let answer := source ['4', '_', '2']
    let nines := source (List.replicate 20 '9')
    scan version = .ok [⟨.float (Number.ofScientific ⟨105, -1⟩), span version 0 5⟩,
      ⟨.mark .period, span version 5 6⟩, ⟨.int 3, span version 6 8⟩, ⟨.eol, span version 8 8⟩,
      ⟨.eof, span version 8 8⟩] ∧
    scan large = .error ⟨.grammar, "Integer literal is too large", span large 5 25⟩ ∧
    scan answer = .ok [⟨.int 42, span answer 0 3⟩, ⟨.eol, span answer 3 3⟩,
      ⟨.eof, span answer 3 3⟩] ∧
    scan nines = .error ⟨.grammar, "Integer literal is too large", span nines 0 20⟩ := by
  obtain ⟨pointed, alone⟩ := one_point_in_a_number "main"
  refine ⟨?_, ?_, ?_, ?_⟩
  · obtain ⟨-, fitting, -⟩ := pointed (some ⟨'1', ['_', '0'], rfl, by simp⟩)
      ⟨'5', [], rfl, by simp⟩ [⟨'3', ['_'], rfl, by simp⟩]
    have cut := fitting (by decide)
    rw [Source.chars, String.toList_ofList] at cut
    exact cut
  · obtain ⟨-, -, oversized⟩ := pointed none ⟨'5', [], rfl, by simp⟩
      [⟨'3', [], rfl, by simp⟩, ⟨'9', List.replicate 19 '9', rfl, by simp⟩]
    exact oversized [_] _ [] rfl (by decide) (by decide)
  · have cut := (alone ⟨'4', ['_', '2'], rfl, by simp⟩).1 (by decide)
    rw [Source.chars, String.toList_ofList] at cut
    exact cut
  · have cut := (alone ⟨'9', List.replicate 19 '9', rfl, by simp⟩).2 (by decide)
    rw [Source.chars, String.toList_ofList] at cut
    exact cut

end TracedScript
