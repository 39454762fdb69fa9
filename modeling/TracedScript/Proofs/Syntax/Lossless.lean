import TracedScript.Proofs.Syntax.Spans
import TracedScript.Proofs.Syntax.Steps
import TracedScript.Proofs.Text.Boundaries

/-!
# Cutting a text loses nothing

Between the tokens of a text there are only blanks and whole comments, and each token can be read
off its own text: `scan_loses_nothing`. The proof follows the scan step by step: `Scan.Cut` says of
the text that is left how it is cut, without looking at what was cut off before.
-/

namespace TracedScript

namespace Text

/-- The longest beginning of a text that takes at most `n` bytes. -/
def takeBytes : Nat → List Char → List Char
  | _, [] => []
  | n, c :: cs => if c.utf8Size ≤ n then c :: takeBytes (n - c.utf8Size) cs else []

/-- What is behind the longest beginning of a text that takes at most `n` bytes. -/
def dropBytes (n : Nat) (cs : List Char) : List Char := cs.drop (takeBytes n cs).length

theorem takeBytes_append (xs ys : List Char) : takeBytes (byteLength xs) (xs ++ ys) = xs := by
  induction xs with
  | nil =>
    cases ys with
    | nil => rfl
    | cons c ys =>
      have := c.utf8Size_pos
      simp [byteLength, takeBytes]
      omega
  | cons c xs ih => simp [byteLength, takeBytes, ih]

theorem dropBytes_append (xs ys : List Char) : dropBytes (byteLength xs) (xs ++ ys) = ys := by
  simp [dropBytes, takeBytes_append]

end Text

namespace Source

/-- The text from byte `i` to byte `j`. -/
def between (s : Source) (i j : Nat) : List Char :=
  Text.takeBytes (j - i) (Text.dropBytes i s.chars)

variable {s : Source} {pre text post : List Char}

theorem between_append (h : s.chars = pre ++ (text ++ post)) :
    s.between (Text.byteLength pre) (Text.byteLength pre + Text.byteLength text) = text := by
  rw [between, h, Text.dropBytes_append, Nat.add_sub_cancel_left, Text.takeBytes_append]

theorem between_self (s : Source) (i : Nat) : s.between i i = [] := by
  rw [between, Nat.sub_self]
  exact Text.takeBytes_append [] _

end Source

namespace Scan

/-! ## Tokens on their own -/

/-- Read on its own, the text is exactly the token. -/
def Alone (text : List Char) (t : Token) : Prop :=
  ∀ name, (scan ⟨name, String.ofList text⟩).map (·.map (·.token)) = .ok [t, .eol, .eof]

theorem alone_of_lexemes {text : List Char} {t : Token}
    (h : ∀ source, ∃ span, lexemes source 0 false text = .ok [⟨t, span⟩]) : Alone text t := by
  intro name
  obtain ⟨span, hs⟩ := h ⟨name, String.ofList text⟩
  have chars : Source.chars ⟨name, String.ofList text⟩ = text := String.toList_ofList
  unfold scan
  rw [chars, hs]
  rfl

theorem alone_of_step {c : Char} {more : List Char} {t : Token} {n : Nat}
    (h : step c more = .token t n) (hn : more.length ≤ n) : Alone (c :: more) t := by
  apply alone_of_lexemes
  intro source
  rw [lexemes, h]
  dsimp only
  rw [List.drop_eq_nil_of_le hn, lexemes]
  exact ⟨_, rfl⟩

/-! ## A text cut into lexemes -/

/-- The text, which starts at byte `start`, consists of the texts of the lexemes, each of which is
its token also on its own, and of blanks and comments before, between and behind them. -/
inductive Cut (source : Source) : Nat → List Char → List Lexeme → Prop where
  | done {start : Nat} {gap : List Char} : Dropped gap [] → Cut source start gap []
  | token {start i j : Nat} {gap text rest : List Char} {t : Token} {ls : List Lexeme} :
    Dropped gap (text ++ rest) → text ≠ [] → Alone text t →
    i = start + Text.byteLength gap → j = i + Text.byteLength text → Cut source j rest ls →
    Cut source start (gap ++ (text ++ rest)) (⟨t, ⟨⟨source, i⟩, ⟨source, j⟩⟩⟩ :: ls)

namespace Cut

variable {source : Source} {start : Nat} {text rest : List Char} {ls : List Lexeme}

/-- The lexemes stand in the text one behind the other. -/
theorem row (h : Cut source start text ls) :
    Span.Row start (start + Text.byteLength text) (ls.map (·.span)) := by
  induction h with
  | done => exact .nil (Nat.le_add_right ..)
  | @token start i j gap text rest t ls _ _ _ hi hj _ ih =>
    have length := Text.byteLength_append gap (text ++ rest)
    rw [Text.byteLength_append text rest] at length
    have first : Span.Within i j ⟨⟨source, i⟩, ⟨source, j⟩⟩ := by
      constructor
      · exact Nat.le_refl i
      · show i ≤ j
        omega
      · exact Nat.le_refl j
    apply ((Span.Row.one first).append ih).widen <;> omega

/-- What is dropped in front of a text that is cut. -/
theorem skip (h : ∀ gap tail, rest = gap ++ tail → Dropped gap tail → Dropped (text ++ gap) tail)
    (hc : Cut source (start + Text.byteLength text) rest ls) :
    Cut source start (text ++ rest) ls := by
  cases hc with
  | done hd =>
    apply done
    exact h rest [] (List.append_nil rest).symm hd
  | token hd hne ha hi hj hc =>
    rw [← List.append_assoc]
    refine token (h _ _ rfl hd) hne ha ?_ hj hc
    rw [hi, Text.byteLength_append]
    omega

theorem one {t : Token} {j : Nat} (text : List Char) (hne : text ≠ []) (ha : Alone text t)
    (hj : j = start + Text.byteLength text) (hc : Cut source j rest ls) :
    Cut source start (text ++ rest) (⟨t, ⟨⟨source, start⟩, ⟨source, j⟩⟩⟩ :: ls) := by
  have nothing : Scan.Dropped [] (text ++ rest) := .nil
  exact token nothing hne ha rfl hj hc

/-- A fraction is a point and a number behind a number, else one number. -/
theorem fraction {behindNumber : Bool} {d : Char} {ds : List Char} {here : List Lexeme} {n : Nat}
    (hd : Number.isDigit d = true) (hds : ∀ x ∈ ds, isNumberPart x = true)
    (hs : step '.' (d :: ds) = .fraction n) (hn : (d :: ds).length ≤ n)
    (h : fractionLexemes source start behindNumber ('.' :: d :: ds) = .ok here)
    (hc : Cut source (start + Text.byteLength ('.' :: d :: ds)) rest ls) :
    Cut source start ('.' :: d :: ds ++ rest) (here ++ ls) := by
  cases behindNumber with
  | true =>
    unfold fractionLexemes at h
    simp only [↓reduceIte] at h
    split at h
    · rename_i v hv
      cases h
      have integer : Alone (d :: ds) (.int v) := by
        apply alone_of_step (n := ds.length) _ (Nat.le_refl _)
        have dot : withoutUnderscores ('.' :: d :: ds) = '.' :: withoutUnderscores (d :: ds) := rfl
        rw [dot] at hv
        have hv : Number.Word.ofText? (withoutUnderscores (d :: ds)) = some v := hv
        rw [step_of_digit hd]
        simp only [numberStep, List.takeWhile_eq_self_iff.mpr hds,
          List.dropWhile_eq_nil_iff.mpr hds, hv]
      have point : Alone ['.'] (.mark .period) := alone_of_step (n := 0) rfl (Nat.le_refl _)
      apply one ['.'] (by simp) point rfl
      apply one (d :: ds) (by simp) integer _ hc
      simp [Text.byteLength]
      omega
    · cases h
  | false =>
    unfold fractionLexemes at h
    simp only [Bool.false_eq_true, ↓reduceIte] at h
    split at h
    · rename_i x hx
      cases h
      apply one ('.' :: d :: ds) (by simp) _ rfl hc
      apply alone_of_lexemes
      intro source
      rw [lexemes, hs]
      dsimp only
      rw [List.take_of_length_le hn, List.drop_eq_nil_of_le hn, lexemes]
      simp only [fractionLexemes, Bool.false_eq_true, ↓reduceIte, hx]
      exact ⟨_, rfl⟩
    · cases h

end Cut

theorem cut_of_lexemes {source : Source} {start : Nat} {behindNumber : Bool} {cs : List Char}
    {ls : List Lexeme} (h : lexemes source start behindNumber cs = .ok ls) :
    Cut source start cs ls := by
  fun_induction lexemes source start behindNumber cs generalizing ls with
  | case1 =>
    cases h
    exact .done .nil
  | case2 start _ c rest more hs text =>
    rename_i ih
    have sound := step_sound c rest
    rw [hs] at sound
    have parts : text ++ rest.drop more = c :: rest := by simp [text]
    rw [← parts]
    exact (ih h).skip fun gap tail ht hd => sound gap tail ht hd
  | case3 start _ c rest t more hs text stop =>
    rename_i ih
    have sound := step_sound c rest
    rw [hs] at sound
    have parts : text ++ rest.drop more = c :: rest := by simp [text]
    rw [← parts]
    cases hl : lexemes source stop (endsNumber t) (rest.drop more) with
    | error e =>
      rw [hl] at h
      cases h
    | ok later =>
      rw [hl] at h
      cases h
      exact .one _ (List.cons_ne_nil _ _) (alone_of_step sound (List.length_take_le ..)) rfl (ih hl)
  | case4 start behindNumber c rest more hs text =>
    rename_i ih
    have sound := step_sound c rest
    rw [hs] at sound
    obtain ⟨d, ds, rfl, hcut, hd, hds, halone⟩ := sound
    have parts : text ++ rest.drop more = '.' :: rest := by simp [text]
    have cut : text = '.' :: d :: ds := congrArg ('.' :: ·) hcut
    have short : (d :: ds).length ≤ more := by
      rw [← hcut]
      exact List.length_take_le ..
    rw [hcut] at halone
    rw [← parts]
    cases hf : fractionLexemes source start behindNumber text with
    | error e =>
      rw [hf] at h
      cases h
    | ok here =>
      cases hl : lexemes source (start + Text.byteLength text) true (rest.drop more) with
      | error e =>
        rw [hf, hl] at h
        cases h
      | ok later =>
        rw [hf, hl] at h
        cases h
        have later := ih hl
        rw [cut] at hf later ⊢
        exact .fraction hd hds halone short hf later
  | case5 => cases h

end Scan

/-! ## Nothing is lost -/

/-- The stretches of the bytes from `i` to `stop` that are before, between and behind the spans. -/
def Span.stretches (stop : Nat) : Nat → List Span → List (Nat × Nat)
  | i, [] => [(i, stop)]
  | i, s :: ss => (i, s.start.index) :: stretches stop s.stop.index ss

theorem Span.stretches_end {stop i : Nat} {ending : List Span}
    (he : ∀ s ∈ ending, s.start.index = stop ∧ s.stop.index = stop) :
    ∀ r ∈ stretches stop i ending, (r.1 = i ∨ r.1 = stop) ∧ r.2 = stop := by
  induction ending generalizing i with
  | nil => simp [stretches]
  | cons s ending ih =>
    obtain ⟨⟨hstart, hstop⟩, he⟩ := List.forall_mem_cons.mp he
    intro r hr
    obtain rfl | hr := List.mem_cons.mp hr
    · exact ⟨.inl rfl, hstart⟩
    · obtain ⟨h, hr⟩ := ih he r hr
      rw [hstop, or_self] at h
      exact ⟨.inr h, hr⟩

/-- A source is cut into lexemes without loss. -/
structure Source.CutInto (source : Source) (lexemes : List Lexeme) : Prop where
  /-- Spans start and stop between characters. -/
  boundaries : ∀ l ∈ lexemes, ∀ p ∈ [l.span.start, l.span.stop], source.position p.index = p
  forward : ∀ l ∈ lexemes, l.span.start.index ≤ l.span.stop.index
  apart : lexemes.Pairwise fun a b => a.span.Before b.span
  /-- No span covers blanks and comments. -/
  dropped : ∀ r ∈ Span.stretches (Text.byteLength source.chars) 0 (lexemes.map (·.span)),
    Scan.Dropped (source.between r.1 r.2) (Text.dropBytes r.2 source.chars)
  /-- Only the end of the line and of the program that close the sequence are empty. -/
  ending : let stop : Position := ⟨source, Text.byteLength source.chars⟩
    ∃ found, lexemes = found ++ [⟨.eol, ⟨stop, stop⟩⟩, ⟨.eof, ⟨stop, stop⟩⟩] ∧
      ∀ l ∈ found, l.span.start.index < l.span.stop.index
  /-- The text of a token is that token also on its own. -/
  alone : ∀ l ∈ lexemes, l.span.start.index < l.span.stop.index →
    Scan.Alone (source.between l.span.start.index l.span.stop.index) l.token

namespace Scan.Cut

variable {source : Source} {start : Nat} {before cs : List Char} {ls : List Lexeme}

/-- Where the lexemes stand in the text. -/
theorem stand (h : Cut source start cs ls) (before : List Char) (hc : source.chars = before ++ cs)
    (hs : start = Text.byteLength before) : ∀ l ∈ ls, ∃ pre text post,
      source.chars = pre ++ (text ++ post) ∧ text ≠ [] ∧ Alone text l.token ∧
      l.span = ⟨⟨source, Text.byteLength pre⟩,
        ⟨source, Text.byteLength pre + Text.byteLength text⟩⟩ := by
  induction h generalizing before with
  | done => exact List.forall_mem_nil _
  | @token start i j gap text rest t ls hd hne ha hi hj _ ih =>
    have first : source.chars = (before ++ gap) ++ (text ++ rest) := by simp [hc]
    have place : i = Text.byteLength (before ++ gap) := by rw [Text.byteLength_append, hi, hs]
    have behind : source.chars = (before ++ gap ++ text) ++ rest := by simp [hc]
    have next : j = Text.byteLength (before ++ gap ++ text) := by
      rw [Text.byteLength_append, ← place, hj]
    intro l hl
    obtain rfl | hl := List.mem_cons.mp hl
    · exact ⟨before ++ gap, text, rest, first, hne, ha, by rw [hj, place]⟩
    · exact ih _ behind next l hl

/-- What stands in none of the spans is dropped. -/
theorem stretches (h : Cut source start cs ls) (before : List Char)
    (hc : source.chars = before ++ cs) (hs : start = Text.byteLength before) {ending : List Span}
    (he : ∀ s ∈ ending, s.start.index = Text.byteLength source.chars ∧
      s.stop.index = Text.byteLength source.chars) :
    ∀ r ∈ Span.stretches (Text.byteLength source.chars) start (ls.map (·.span) ++ ending),
      Dropped (source.between r.1 r.2) (Text.dropBytes r.2 source.chars) := by
  induction h generalizing before with
  | @done start gap hd =>
    have whole : source.chars = before ++ (gap ++ []) := by simp [hc]
    have total : Text.byteLength source.chars = start + Text.byteLength gap := by
      rw [hc, Text.byteLength_append, hs]
    have gone : Text.dropBytes (Text.byteLength source.chars) source.chars = [] := by
      simpa using Text.dropBytes_append source.chars []
    rintro ⟨i, j⟩ hr
    obtain ⟨hi, rfl⟩ := Span.stretches_end he (i, j) hr
    dsimp only at hi ⊢
    rw [gone]
    obtain rfl | rfl := hi
    · have stretch := Source.between_append whole
      rw [← hs, ← total] at stretch
      rw [stretch]
      exact hd
    · rw [Source.between_self]
      exact .nil
  | @token start i j gap text rest t ls hd hne ha hi hj _ ih =>
    have place : i = Text.byteLength before + Text.byteLength gap := by rw [hi, hs]
    have front : source.chars = (before ++ gap) ++ (text ++ rest) := by simp [hc]
    have behind : source.chars = (before ++ gap ++ text) ++ rest := by simp [hc]
    have next : j = Text.byteLength (before ++ gap ++ text) := by
      rw [Text.byteLength_append, Text.byteLength_append, hj, place]
    intro r hr
    obtain rfl | hr := List.mem_cons.mp hr
    · have gone : Text.dropBytes i source.chars = text ++ rest := by
        rw [front, place, ← Text.byteLength_append, Text.dropBytes_append]
      have stretch : source.between start i = gap := by
        rw [hs, place]
        exact Source.between_append hc
      dsimp only
      rw [stretch, gone]
      exact hd
    · exact ih _ behind next r hr

end Scan.Cut

theorem exists_cut_of_scan {source : Source} {lexemes : List Lexeme}
    (h : scan source = .ok lexemes) : let stop : Position := ⟨source, Text.byteLength source.chars⟩
    ∃ found, Scan.Cut source 0 source.chars found ∧
      lexemes = found ++ [⟨.eol, ⟨stop, stop⟩⟩, ⟨.eof, ⟨stop, stop⟩⟩] := by
  unfold scan at h
  cases hl : Scan.lexemes source 0 false source.chars with
  | error e =>
    rw [hl] at h
    cases h
  | ok found =>
    rw [hl] at h
    cases h
    exact ⟨found, Scan.cut_of_lexemes hl, rfl⟩

theorem row_of_scan {source : Source} {lexemes : List Lexeme} (h : scan source = .ok lexemes) :
    Span.Row 0 (Text.byteLength source.chars) (lexemes.map (·.span)) := by
  obtain ⟨found, cut, rfl⟩ := exists_cut_of_scan h
  let stop : Position := ⟨source, Text.byteLength source.chars⟩
  have empty : Span.Row stop.index stop.index [⟨stop, stop⟩] :=
    .one ⟨Nat.le_refl _, Nat.le_refl _, Nat.le_refl _⟩
  have row := cut.row
  rw [Nat.zero_add] at row
  rw [List.map_append]
  exact row.append (empty.append empty)

/-- Spans start and stop between characters of the text. -/
theorem position_of_scan {source : Source} {lexemes : List Lexeme}
    (h : scan source = .ok lexemes) :
    ∀ l ∈ lexemes, ∀ p ∈ [l.span.start, l.span.stop], source.position p.index = p := by
  obtain ⟨found, cut, rfl⟩ := exists_cut_of_scan h
  let stop : Position := ⟨source, Text.byteLength source.chars⟩
  have whole : source.chars = source.chars ++ [] := (List.append_nil _).symm
  have last : source.position stop.index = stop := Source.position_append whole
  intro l hm p hp
  obtain hm | hm := List.mem_append.mp hm
  · obtain ⟨pre, text, post, hc, -, -, hspan⟩ := cut.stand [] rfl rfl l hm
    rw [hspan] at hp
    simp only [List.mem_cons, List.not_mem_nil, or_false] at hp
    obtain rfl | rfl := hp
    · exact Source.position_append hc
    · have behind : source.chars = (pre ++ text) ++ post := by simp [hc]
      rw [← Text.byteLength_append]
      exact Source.position_append behind
  · have hp : p = stop := by
      simp only [List.mem_cons, List.not_mem_nil, or_false] at hm
      obtain rfl | rfl := hm <;> simpa using hp
    rw [hp]
    exact last

/-- Nothing of a text is lost when it is cut into tokens: their spans lie between characters, one
behind the other; outside of them are blanks and whole comments only; none is empty but the last
two, which are at the end of the text; and the text of each is that token also on its own. -/
theorem scan_loses_nothing {source : Source} {lexemes : List Lexeme}
    (h : scan source = .ok lexemes) : source.CutInto lexemes := by
  have row := row_of_scan h
  have boundaries := position_of_scan h
  obtain ⟨found, cut, rfl⟩ := exists_cut_of_scan h
  let stop : Position := ⟨source, Text.byteLength source.chars⟩
  have stand := cut.stand [] rfl rfl
  have longer : ∀ l ∈ found, l.span.start.index < l.span.stop.index := by
    intro l hm
    obtain ⟨pre, text, post, -, hne, -, hspan⟩ := stand l hm
    rw [hspan]
    exact Nat.lt_add_of_pos_right (Text.byteLength_pos hne)
  constructor
  case boundaries => exact boundaries
  case forward => exact fun l hm => (row.within _ (List.mem_map_of_mem hm)).forward
  case apart => exact List.pairwise_map.mp row.apart
  case dropped =>
    have ends : ∀ s ∈ [(⟨stop, stop⟩ : Span), ⟨stop, stop⟩],
        s.start.index = stop.index ∧ s.stop.index = stop.index := by simp
    rw [List.map_append]
    exact cut.stretches [] rfl rfl ends
  case ending => exact ⟨found, rfl, longer⟩
  case alone =>
    intro l hm hlong
    obtain hm | hm := List.mem_append.mp hm
    · obtain ⟨pre, text, post, hc, -, ha, hspan⟩ := stand l hm
      rw [hspan]
      dsimp only
      rw [Source.between_append hc]
      exact ha
    · simp only [List.mem_cons, List.not_mem_nil, or_false] at hm
      obtain rfl | rfl := hm <;> exact absurd hlong (Nat.lt_irrefl _)

/-- The second point of `1.2.3` is a token of its own, so is the number behind it, and the comment
is none. -/
theorem version_number_cut :
    ∃ lexemes, scan ⟨"main", "1.2.3 # three"⟩ = .ok lexemes ∧
      (lexemes.map fun l => (l.span.start.index, l.span.stop.index)) =
        [(0, 3), (3, 4), (4, 5), (13, 13), (13, 13)] ∧
      Source.CutInto ⟨"main", "1.2.3 # three"⟩ lexemes := by
  have places : (scan ⟨"main", "1.2.3 # three"⟩).toOption.map
      (List.map fun l => (l.span.start.index, l.span.stop.index)) =
        some [(0, 3), (3, 4), (4, 5), (13, 13), (13, 13)] := by decide +kernel
  cases h : scan ⟨"main", "1.2.3 # three"⟩ with
  | error e =>
    rw [h] at places
    cases places
  | ok lexemes =>
    rw [h] at places
    exact ⟨lexemes, rfl, Option.some.inj places, scan_loses_nothing h⟩

end TracedScript
