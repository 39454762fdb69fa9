import Mathlib.Data.List.TakeWhile
import TracedScript.Syntax.Scan

/-!
# What one step of the scan cuts off

Blanks and whole comments, which are dropped; or a token that is cut off also where nothing follows
it; or a fraction. Main statement: `Scan.step_sound`. The lexemes of a text follow from its first
step and the lexemes of the rest: `Scan.lexemes_of_token`.
-/

namespace TracedScript

namespace StringLiteral

theorem Body.after_closed {k : Nat} {c : Char} {b : Body} {content : List Char} {n : Nat}
    (h : b.after k c = .closed content n) :
    ∃ inner m, b = .closed inner m ∧ content = c :: inner ∧ n = m + k := by
  cases b with
  | closed inner m =>
    cases h
    exact ⟨inner, m, rfl, rfl, rfl⟩
  | endOfText | endOfLine | badEscape => cases h

theorem body_plain (quote : Char) {c : Char} (hc : c ≠ '\\') (rest : List Char) :
    body quote (c :: rest) = if c = '\n' then .endOfLine 0
      else if c = quote then .closed [] 1
      else (body quote rest).after 1 c := by
  rw [body]
  all_goals
    intros
    contradiction

/-- A character that starts no longer item is no backslash. -/
theorem ne_backslash {c : Char} {rest : List Char}
    (item : ∀ d more, c = '\\' → rest = d :: more → False) (last : c = '\\' → rest = [] → False) :
    c ≠ '\\' := by
  intro hc
  cases rest with
  | nil => exact last hc rfl
  | cons d more => exact item d more hc rfl

/-- Whether a literal is closed is seen from the literal alone. -/
theorem body_take {quote : Char} {cs content : List Char} {n : Nat}
    (h : body quote cs = .closed content n) : body quote (cs.take n) = .closed content n := by
  fun_induction body quote cs generalizing content n with
  | case2 a b rest c hc ih =>
    obtain ⟨inner, m, hb, rfl, rfl⟩ := Body.after_closed h
    simp [body, hc, ih hb, Body.after]
  | case5 c rest _ hx meant hc ih =>
    obtain ⟨inner, m, hb, rfl, rfl⟩ := Body.after_closed h
    simp only [List.take_succ_cons]
    rw [body]
    · simp [hc, ih hb, Body.after]
    · intro a b more hc
      exact absurd hc hx
    · exact hx
  | case9 rest _ _ item last hn =>
    cases h
    rw [List.take_succ_cons, body_plain quote (ne_backslash item last)]
    simp [hn]
  | case10 c rest _ _ item last hn hq ih =>
    obtain ⟨inner, m, hb, rfl, rfl⟩ := Body.after_closed h
    rw [List.take_succ_cons, body_plain quote (ne_backslash item last)]
    simp [hn, hq, ih hb, Body.after]
  | case1 | case3 | case4 | case6 | case7 | case8 => cases h

end StringLiteral

namespace Scan

/-- The step gives a token that it gives also for the text of the token alone. -/
def Step.Repeats (f : List Char → Step) (rest : List Char) : Step → Prop
  | .token t n => f (rest.take n) = .token t n
  | .fault .. => True
  | .skip _ => False
  | .fraction _ => False

theorem take_takeWhile (p : Char → Bool) (cs : List Char) :
    cs.take (cs.takeWhile p).length = cs.takeWhile p :=
  (List.prefix_iff_eq_take.mp (List.takeWhile_prefix p)).symm

theorem drop_takeWhile (p : Char → Bool) (cs : List Char) :
    cs.drop (cs.takeWhile p).length = cs.dropWhile p := by
  have parts := List.takeWhile_append_dropWhile (p := p) (l := cs)
  calc cs.drop (cs.takeWhile p).length
      = (cs.takeWhile p ++ cs.dropWhile p).drop (cs.takeWhile p).length := by rw [parts]
    _ = cs.dropWhile p := List.drop_left

theorem stringStep_repeats (quote : Char) (rest : List Char) :
    (stringStep quote rest).Repeats (stringStep quote) rest := by
  unfold stringStep
  split
  · rename_i content length h
    simp [Step.Repeats, StringLiteral.body_take h]
  all_goals trivial

/-- A number without its fraction is as long as its digits, a float ends behind the digits of its
fraction. -/
theorem numberStep_repeats (c : Char) (rest : List Char) :
    (numberStep c rest).Repeats (numberStep c) rest := by
  have parts := List.takeWhile_append_dropWhile (p := isNumberPart) (l := rest)
  have digits : ∀ x ∈ rest.takeWhile isNumberPart, isNumberPart x = true :=
    fun _ hx => List.mem_takeWhile_imp hx
  unfold numberStep
  dsimp only
  generalize rest.takeWhile isNumberPart = whole at parts digits ⊢
  generalize rest.dropWhile isNumberPart = tail at parts ⊢
  subst parts
  split
  · rename_i more
    have alone :
        (whole ++ '.' :: more).take (whole.length + 1 + (more.takeWhile isNumberPart).length) =
        whole ++ '.' :: more.takeWhile isNumberPart := by
      rw [Nat.add_assoc, List.take_length_add_append, Nat.add_comm 1, List.take_succ_cons,
        take_takeWhile]
    split
    · rename_i x hx
      have point : isNumberPart '.' = false := by decide
      show numberStep c ((whole ++ '.' :: more).take _) = _
      simp only [numberStep, alone, List.takeWhile_append_of_pos digits,
        List.dropWhile_append_of_pos digits, List.takeWhile_cons, List.dropWhile_cons, point,
        Bool.false_eq_true, ↓reduceIte, List.append_nil, List.takeWhile_idem, hx]
    · trivial
  · split
    · rename_i n hn
      show numberStep c ((whole ++ _).take _) = _
      simp only [numberStep, List.take_left, List.takeWhile_eq_self_iff.mpr digits,
        List.dropWhile_eq_nil_iff.mpr digits, hn]
    · trivial

theorem nameStep_repeats (c : Char) (rest : List Char) :
    (nameStep c rest).Repeats (nameStep c) rest := by
  obtain ⟨t, ht⟩ : ∃ t, nameStep c rest = .token t (rest.takeWhile isNamePart).length := by
    unfold nameStep
    dsimp only
    split
    · exact ⟨_, rfl⟩
    · exact ⟨_, rfl⟩
  rw [ht]
  show nameStep c (rest.take _) = _
  rw [take_takeWhile, ← ht]
  simp only [nameStep, List.takeWhile_idem]

theorem eitherMark_repeats (second : Char) (two one : Mark) (rest : List Char) :
    (eitherMark second two one rest).Repeats (eitherMark second two one) rest := by
  cases rest with
  | nil => rfl
  | cons c rest =>
    by_cases hc : c = second
    · simp [eitherMark, hc, Step.Repeats]
    · simp [eitherMark, hc, Step.Repeats]

/-! ## Blanks and comments -/

/-- The text in front of `rest` consists of blanks and whole comments. A comment up to the end of
its line is whole if the line or the text ends behind it, a block comment up to the first `=#`. Only
at the end of the text can a block comment be without it. -/
inductive Dropped : List Char → List Char → Prop where
  | nil {rest : List Char} : Dropped [] rest
  | blank {c : Char} {gap rest : List Char} :
    c ∈ [' ', '\t', '\r', '\x0c'] → Dropped gap rest → Dropped (c :: gap) rest
  | line {body gap rest : List Char} :
    body.head? ≠ some '=' → '\n' ∉ body → (gap ++ rest).head? ∈ [none, some '\n'] →
    Dropped gap rest → Dropped ('#' :: (body ++ gap)) rest
  | block {body gap rest : List Char} :
    ¬ ['=', '#'] <:+: body ++ ['='] → Dropped gap rest →
    Dropped ('#' :: '=' :: (body ++ '=' :: '#' :: gap)) rest
  | unclosed {body : List Char} : ¬ ['=', '#'] <:+: body → Dropped ('#' :: '=' :: body) []

theorem mem_of_isGap {c : Char} (h : isGap c = true) : c ∈ [' ', '\t', '\r', '\x0c'] := by
  simpa [isGap, or_assoc] using h

theorem infix_cons {c : Char} {cs : List Char} (h : ['=', '#'] <:+: c :: cs) :
    (c = '=' ∧ ∃ more, cs = '#' :: more) ∨ ['=', '#'] <:+: cs := by
  obtain h | h := List.infix_cons_iff.mp h
  · left
    obtain ⟨more, hm⟩ := h
    cases hm
    exact ⟨rfl, more, rfl⟩
  · exact .inr h

/-- A block comment ends with the first `=#`, or it is not closed. -/
theorem blockLength_cases (cs : List Char) :
    (∃ body more, cs = body ++ '=' :: '#' :: more ∧ blockLength cs = body.length + 2 ∧
      ¬ ['=', '#'] <:+: body ++ ['=']) ∨
    (blockLength cs = cs.length ∧ ¬ ['=', '#'] <:+: cs) := by
  fun_induction blockLength cs with
  | case1 more => exact .inl ⟨[], more, rfl, rfl, by decide⟩
  | case2 c cs first ih =>
    have start : ∀ more, c = '=' → cs = '#' :: more → False := by
      intro more hc hcs
      exact first more hc hcs
    obtain ⟨body, more, rfl, hlen, hbody⟩ | ⟨hlen, hcs⟩ := ih
    · left
      refine ⟨c :: body, more, rfl, by simp [hlen], fun h => ?_⟩
      obtain ⟨hc, tail, ht⟩ | h := infix_cons h
      · cases body with
        | nil => cases ht
        | cons b body =>
          cases ht
          exact start _ hc rfl
      · exact hbody h
    · right
      refine ⟨by simp [hlen], fun h => ?_⟩
      obtain ⟨hc, tail, ht⟩ | h := infix_cons h
      · exact start tail hc ht
      · exact hcs h
  | case3 => exact .inr ⟨rfl, by decide⟩

/-- What a comment passes is dropped. -/
theorem dropped_comment {rest gap tail : List Char}
    (h : rest.drop (commentLength rest) = gap ++ tail) (hd : Dropped gap tail) :
    Dropped ('#' :: (rest.take (commentLength rest) ++ gap)) tail := by
  unfold commentLength at h ⊢
  split at h
  · rename_i cs
    obtain ⟨body, more, rfl, hlen, hbody⟩ | ⟨hlen, hcs⟩ := blockLength_cases cs
    · obtain rfl : more = gap ++ tail := by simpa [hlen] using h
      have passed : (body ++ '=' :: '#' :: (gap ++ tail)).take (body.length + 2) =
          body ++ ['=', '#'] := by
        rw [List.take_length_add_append]
        rfl
      simpa [hlen, passed] using Dropped.block hbody hd
    · rw [hlen] at h ⊢
      obtain ⟨rfl, rfl⟩ : gap = [] ∧ tail = [] := by simpa using h
      simpa using Dropped.unclosed hcs
  · rename_i first
    rw [drop_takeWhile] at h
    rw [take_takeWhile]
    refine Dropped.line ?_ ?_ ?_ hd
    · intro he
      cases rest with
      | nil => cases he
      | cons c cs =>
        by_cases hc : c = '\n'
        · simp [hc] at he
        · simp [hc] at he
          exact first cs (by rw [he])
    · intro hm
      simpa using List.mem_takeWhile_imp hm
    · rw [← h]
      have ends := List.head?_dropWhile_not (fun c => decide (c ≠ '\n')) rest
      cases hd : (rest.dropWhile (· ≠ '\n')).head? with
      | none => simp
      | some c =>
        rw [hd] at ends
        simpa using ends

/-! ## What a step cuts off -/

theorem not_gap_of_digit {c : Char} (h : Number.isDigit c = true) :
    isGap c = false ∧ c ≠ '\n' := by
  constructor
  · cases hg : isGap c with
    | false => rfl
    | true =>
      have blank := mem_of_isGap hg
      simp only [List.mem_cons, List.not_mem_nil, or_false] at blank
      obtain rfl | rfl | rfl | rfl := blank <;> cases h
  · rintro rfl
    cases h

theorem step_of_digit {c : Char} (h : Number.isDigit c = true) : step c = numberStep c := by
  obtain ⟨hgap, hbreak⟩ := not_gap_of_digit h
  funext rest
  simp [step, hgap, hbreak, h]

/-- What a step cuts off is dropped, or a token that it is also without what follows, or a fraction:
a point and a number. -/
def Step.Sound (c : Char) (rest : List Char) : Step → Prop
  | .skip n => ∀ gap tail, rest.drop n = gap ++ tail → Dropped gap tail →
    Dropped (c :: (rest.take n ++ gap)) tail
  | .fraction n => ∃ d ds, c = '.' ∧ rest.take n = d :: ds ∧ Number.isDigit d = true ∧
    (∀ x ∈ ds, isNumberPart x = true) ∧ step c (rest.take n) = .fraction n
  | s => s.Repeats (step c) rest

theorem Step.Repeats.sound {c : Char} {rest : List Char} {s : Step} {f : List Char → Step}
    (hf : step c = f) (h : s.Repeats f rest) : s.Sound c rest := by
  subst hf
  cases s with
  | skip n | fraction n => exact h.elim
  | token t n | fault f n m => exact h

theorem step_sound (c : Char) (rest : List Char) : (step c rest).Sound c rest := by
  by_cases hgap : isGap c
  · have hs : step c rest = .skip 0 := by simp [step, hgap]
    rw [hs]
    intro gap tail ht hd
    exact .blank (mem_of_isGap hgap) hd
  by_cases hbreak : c = '\n'
  · have hs : step c = fun _ => .token .eol 0 := by
      subst hbreak
      rfl
    rw [hs]
    exact Step.Repeats.sound hs rfl
  by_cases hdigit : Number.isDigit c
  · have hs := step_of_digit hdigit
    rw [hs]
    exact (numberStep_repeats c rest).sound hs
  by_cases hname : isNameStart c
  · have hs : step c = nameStep c := by
      funext rest
      simp [step, hgap, hbreak, hdigit, hname]
    rw [hs]
    exact (nameStep_repeats c rest).sound hs
  by_cases hquote : c = '\x22' ∨ c = '\x27'
  · have hs : step c = stringStep c := by
      funext rest
      simp [step, hgap, hbreak, hdigit, hname, hquote]
    rw [hs]
    exact (stringStep_repeats c rest).sound hs
  by_cases hcomment : c = '#'
  · subst hcomment
    have hs : step '#' rest = .skip (commentLength rest) := rfl
    rw [hs]
    exact fun gap tail ht hd => dropped_comment ht hd
  by_cases hpoint : c = '.'
  · subst hpoint
    cases rest with
    | nil => exact Step.Repeats.sound rfl rfl
    | cons d more =>
      by_cases hd : Number.isDigit d
      · have hs (more : List Char) : step '.' (d :: more) =
            .fraction (1 + (more.takeWhile isNumberPart).length) := by
          show (if Number.isDigit d then _ else _) = _
          rw [if_pos hd]
        have alone : (d :: more).take (1 + (more.takeWhile isNumberPart).length) =
            d :: more.takeWhile isNumberPart := by
          rw [Nat.add_comm, List.take_succ_cons, take_takeWhile]
        rw [hs]
        refine ⟨d, more.takeWhile isNumberPart, rfl, alone, hd, ?_, ?_⟩
        · exact fun _ hx => List.mem_takeWhile_imp hx
        · rw [alone, hs, List.takeWhile_idem]
      · have hs : step '.' (d :: more) = .token (.mark .period) 0 := by
          show (if Number.isDigit d then _ else _) = _
          rw [if_neg hd]
        rw [hs]
        exact Step.Repeats.sound rfl rfl
  by_cases hminus : c = '-'
  · subst hminus
    exact (eitherMark_repeats '>' .arrow .minus rest).sound rfl
  by_cases hequals : c = '='
  · subst hequals
    exact (eitherMark_repeats '=' .equalEqual .equals rest).sound rfl
  by_cases hbang : c = '!'
  · subst hbang
    exact (eitherMark_repeats '=' .bangEqual .bang rest).sound rfl
  by_cases hless : c = '<'
  · subst hless
    exact (eitherMark_repeats '=' .lessEqual .less rest).sound rfl
  by_cases hgreater : c = '>'
  · subst hgreater
    exact (eitherMark_repeats '=' .greaterEqual .greater rest).sound rfl
  have hs : step c = fun _ =>
      (singleMark? c).elim (.fault (.illegalCharacter c) 0 1) fun m => .token (.mark m) 0 := by
    funext rest
    unfold step
    rw [if_neg hgap, if_neg hbreak, if_neg hdigit, if_neg hname, if_neg hquote, if_neg hcomment,
      if_neg hpoint, if_neg hminus, if_neg hequals, if_neg hbang, if_neg hless, if_neg hgreater]
    cases singleMark? c with
    | some m => rfl
    | none => rfl
  rw [hs]
  apply Step.Repeats.sound hs
  dsimp only
  cases h : singleMark? c with
  | some m => exact rfl
  | none => trivial

/-! ## Lexemes by their first step -/

variable {c : Char} {more rest : List Char}

theorem lexemes_nil (source : Source) (start : Nat) (behindNumber : Bool) :
    lexemes source start behindNumber [] = .ok [] := by
  rw [lexemes]

theorem lexemes_of_token {t : Token} (h : step c (more ++ rest) = .token t more.length)
    (source : Source) (start : Nat) (behindNumber : Bool) :
    let stop := start + Text.byteLength (c :: more)
    lexemes source start behindNumber (c :: (more ++ rest)) =
      (lexemes source stop (endsNumber t) rest).map
        (⟨t, ⟨⟨source, start⟩, ⟨source, stop⟩⟩⟩ :: ·) := by
  rw [lexemes, h]
  dsimp only
  rw [List.take_left, List.drop_left]
  cases lexemes source (start + Text.byteLength (c :: more)) (endsNumber t) rest <;> rfl

theorem lexemes_of_fraction (h : step c (more ++ rest) = .fraction more.length) (source : Source)
    (start : Nat) (behindNumber : Bool) :
    lexemes source start behindNumber (c :: (more ++ rest)) =
      (fractionLexemes source start behindNumber (c :: more)).bind fun here =>
        (lexemes source (start + Text.byteLength (c :: more)) true rest).map (here ++ ·) := by
  rw [lexemes, h]
  dsimp only
  rw [List.take_left, List.drop_left]
  cases fractionLexemes source start behindNumber (c :: more) with
  | error e => rfl
  | ok here => cases lexemes source (start + Text.byteLength (c :: more)) true rest <;> rfl

/-- A fault is blamed on the text that it covers. -/
theorem lexemes_of_fault {f : LexicalFault} {before blamed tail : List Char}
    (h : step c rest = .fault f before.length blamed.length)
    (parts : c :: rest = before ++ (blamed ++ tail)) (source : Source) (start : Nat)
    (behindNumber : Bool) :
    lexemes source start behindNumber (c :: rest) =
      .error (f.error ⟨⟨source, start + Text.byteLength before⟩,
        ⟨source, start + Text.byteLength (before ++ blamed)⟩⟩) := by
  have front : (c :: rest).take before.length = before := by rw [parts, List.take_left]
  have covered : (c :: rest).take (before.length + blamed.length) = before ++ blamed := by
    rw [parts, ← List.append_assoc, ← List.length_append, List.take_left]
  rw [lexemes, h]
  dsimp only
  rw [front, covered]

end Scan

theorem scan_eq_map (source : Source) :
    let stop : Position := ⟨source, Text.byteLength source.chars⟩
    scan source = (Scan.lexemes source 0 false source.chars).map
      (· ++ [⟨.eol, ⟨stop, stop⟩⟩, ⟨.eof, ⟨stop, stop⟩⟩]) := by
  unfold scan
  cases Scan.lexemes source 0 false source.chars <;> rfl

end TracedScript
