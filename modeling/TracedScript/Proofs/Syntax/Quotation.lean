import Mathlib.Data.List.Forall2
import TracedScript.Proofs.Syntax.Lossless

/-!
# String literals

What stands between the quotes of a string literal is a sequence of items: `Items` says which they
are and what they mean, without reading them one after the other. A text behind a quote is read as a
literal exactly if such a sequence and the same quote stand in it, and else the first character that
continues no such sequence is to blame: `literals_are_items`. So a string that is written item by
item is read back: `quoting_reads_back`.
-/

namespace TracedScript

namespace StringLiteral

/-! ## Items -/

/-- The character is a digit in base sixteen, a letter in either case, and has the value. -/
def HexDigit (c : Char) (n : Nat) : Prop := n < 16 ∧ (c = n.digitChar ∨ c = n.digitChar.toUpper)

/-- What characters mean behind a backslash. -/
inductive Escape : List Char → Char → Prop where
  | backslash : Escape ['\\'] '\\'
  | newline : Escape ['n'] '\n'
  | lineBreak : Escape ['\n'] '\n'
  | tab : Escape ['t'] '\t'
  | single : Escape ['\x27'] '\x27'
  | double : Escape ['\x22'] '\x22'
  | ascii {a b : Char} {m n : Nat} : HexDigit a m → HexDigit b n → 16 * m + n ≤ 0x7F →
    Escape ['x', a, b] (Char.ofNat (16 * m + n))

/-- The characters are one item between quotes, which means a character. -/
inductive Item (quote : Char) : List Char → Char → Prop where
  | plain {c : Char} : c ≠ quote → c ≠ '\\' → c ≠ '\n' → Item quote [c] c
  | escape {escaped : List Char} {c : Char} : Escape escaped c → Item quote ('\\' :: escaped) c

/-- A text of items, and what they mean together. -/
inductive Items (quote : Char) : List Char → List Char → Prop where
  | nil : Items quote [] []
  | cons {text texts content : List Char} {c : Char} : Item quote text c →
    Items quote texts content → Items quote (text ++ texts) (c :: content)

/-- Characters behind a backslash that mean nothing there: one that starts no escape, or an `x` and
the two characters behind it, or all there are. -/
inductive Unescapable : List Char → List Char → Prop where
  | one {c : Char} {more : List Char} : c ≠ 'x' → (∀ m, ¬ Escape [c] m) → Unescapable [c] more
  | ascii {digits more : List Char} : digits.length ≤ 2 → (digits.length < 2 → more = []) →
    (∀ m, ¬ Escape ('x' :: digits) m) → Unescapable ('x' :: digits) more

/-- Where no further item starts. -/
inductive Ends (quote : Char) : List Char → Prop where
  | quote {more : List Char} : Ends quote (quote :: more)
  | text : Ends quote []
  | backslash : Ends quote ['\\']
  | line {more : List Char} : Ends quote ('\n' :: more)
  | escape {escaped more : List Char} : Unescapable escaped more →
    Ends quote ('\\' :: (escaped ++ more))

variable {quote c : Char} {text rest content : List Char}

/-- What stands behind a backslash is an escape, or means nothing. -/
theorem escape_or_unescapable (c : Char) (rest : List Char) :
    ∃ escaped more, c :: rest = escaped ++ more ∧
      ((∃ m, Escape escaped m) ∨ Unescapable escaped more) := by
  by_cases hx : c = 'x'
  · subst hx
    refine ⟨'x' :: rest.take 2, rest.drop 2, by simp, ?_⟩
    by_cases means : ∃ m, Escape ('x' :: rest.take 2) m
    · exact .inl means
    · right
      apply Unescapable.ascii
      · exact List.length_take_le ..
      · intro short
        simp at short ⊢
        omega
      · exact fun m h => means ⟨m, h⟩
  · refine ⟨[c], rest, rfl, ?_⟩
    by_cases means : ∃ m, Escape [c] m
    · exact .inl means
    · exact .inr (.one hx fun m h => means ⟨m, h⟩)

theorem Item.ne_nil (h : Item quote text c) : text ≠ [] := by
  cases h <;> exact List.cons_ne_nil _ _

/-- Every text starts with items, up to where no further one starts. -/
theorem exists_items (quote : Char) (cs : List Char) :
    ∃ text content rest, cs = text ++ rest ∧ Items quote text content ∧ Ends quote rest := by
  -- An item can be up to four characters long, so the induction is on the length of the text.
  induction h : cs.length using Nat.strong_induction_on generalizing cs with
  | _ n ih =>
    subst h
    have further {text rest : List Char} {c : Char} (item : Item quote text c)
        (parts : cs = text ++ rest) :
        ∃ text content rest, cs = text ++ rest ∧ Items quote text content ∧ Ends quote rest := by
      have shorter : rest.length < cs.length := by
        rw [parts, List.length_append]
        exact Nat.lt_add_of_pos_left (List.length_pos_iff.mpr item.ne_nil)
      obtain ⟨texts, content, rest, rfl, items, ends⟩ := ih _ shorter rest rfl
      exact ⟨text ++ texts, c :: content, rest, by simp [parts], .cons item items, ends⟩
    cases cs with
    | nil => exact ⟨[], [], [], rfl, .nil, .text⟩
    | cons c cs =>
      by_cases hquote : c = quote
      · subst hquote
        exact ⟨[], [], c :: cs, rfl, .nil, .quote⟩
      by_cases hline : c = '\n'
      · subst hline
        exact ⟨[], [], '\n' :: cs, rfl, .nil, .line⟩
      by_cases hbackslash : c = '\\'
      · subst hbackslash
        cases cs with
        | nil => exact ⟨[], [], ['\\'], rfl, .nil, .backslash⟩
        | cons d cs =>
          obtain ⟨escaped, more, parts, ⟨m, escape⟩ | nothing⟩ := escape_or_unescapable d cs
          · exact further (.escape escape) (congrArg ('\\' :: ·) parts)
          · rw [parts]
            exact ⟨[], [], '\\' :: (escaped ++ more), rfl, .nil, .escape nothing⟩
      · exact further (.plain hquote hbackslash hline) (List.singleton_append).symm

/-! ## Items as they are read -/

theorem eq_ofNat {n : Nat} (h : c.toNat = n) : c = Char.ofNat n := by
  rw [← h, Char.ofNat_toNat]

theorem hexValue?_iff {n : Nat} : hexValue? c = some n ↔ HexDigit c n := by
  constructor
  · have digit : ∀ k < 10, Char.ofNat (48 + k) = k.digitChar := by decide
    have small : ∀ k < 16, 10 ≤ k → Char.ofNat (87 + k) = k.digitChar := by decide
    have capital : ∀ k < 16, 10 ≤ k → Char.ofNat (55 + k) = k.digitChar.toUpper := by decide
    intro h
    unfold hexValue? at h
    split at h
    · rename_i range
      have range : 48 ≤ c.toNat ∧ c.toNat ≤ 57 := range
      have value : c.toNat - 48 = n := Option.some.inj h
      have hc : c = Char.ofNat (48 + n) := eq_ofNat (by omega)
      exact ⟨by omega, .inl (hc.trans (digit n (by omega)))⟩
    split at h
    · rename_i range
      have range : 97 ≤ c.toNat ∧ c.toNat ≤ 102 := range
      have value : c.toNat - 97 + 10 = n := Option.some.inj h
      have hc : c = Char.ofNat (87 + n) := eq_ofNat (by omega)
      exact ⟨by omega, .inl (hc.trans (small n (by omega) (by omega)))⟩
    split at h
    · rename_i range
      have range : 65 ≤ c.toNat ∧ c.toNat ≤ 70 := range
      have value : c.toNat - 65 + 10 = n := Option.some.inj h
      have hc : c = Char.ofNat (55 + n) := eq_ofNat (by omega)
      exact ⟨by omega, .inr (hc.trans (capital n (by omega) (by omega)))⟩
    · cases h
  · have digit : ∀ k < 16, hexValue? k.digitChar = some k := by decide
    have capital : ∀ k < 16, hexValue? k.digitChar.toUpper = some k := by decide
    rintro ⟨small, rfl | rfl⟩
    · exact digit n small
    · exact capital n small

theorem escapeOf?_iff {m : Char} : escapeOf? c = some m ↔ Escape [c] m := by
  constructor
  · intro h
    unfold escapeOf? at h
    split_ifs at h with backslash newline tab single double
    · cases h
      rw [backslash]
      exact .backslash
    · cases h
      obtain rfl | rfl := newline
      · exact .newline
      · exact .lineBreak
    · cases h
      rw [tab]
      exact .tab
    · cases h
      rw [single]
      exact .single
    · cases h
      rw [double]
      exact .double
  · intro h
    cases h <;> rfl

/-- Two characters behind `x` are digits, or a plus sign and a digit. -/
theorem asciiOf?_iff {a b m : Char} : asciiOf? a b = some m ↔
    Escape ['x', a, b] m ∨ a = '+' ∧ ∃ n, HexDigit b n ∧ m = Char.ofNat n := by
  constructor
  · intro h
    unfold asciiOf? at h
    split at h
    · rename_i high low hhigh hlow
      have hlow := hexValue?_iff.mp hlow
      split_ifs at h with small
      cases h
      split_ifs at hhigh with plus
      · cases hhigh
        exact .inr ⟨plus, low, hlow, by simp⟩
      · exact .inl (.ascii (hexValue?_iff.mp hhigh) hlow (Nat.le_of_lt_succ small))
    · cases h
  · rintro (h | ⟨rfl, n, hn, rfl⟩)
    · cases h with
      | @ascii a b high low hhigh hlow small =>
        have noPlus : a ≠ '+' := by
          rintro rfl
          cases hexValue?_iff.mpr hhigh
        rw [asciiOf?, if_neg noPlus, hexValue?_iff.mpr hhigh, hexValue?_iff.mpr hlow]
        exact if_pos (Nat.lt_succ_of_le small)
    · have small : n < 16 := hn.1
      rw [asciiOf?, if_pos rfl, hexValue?_iff.mpr hn]
      simp
      omega

theorem Item.body (h : Item quote text c) (rest : List Char) :
    body quote (text ++ rest) = (body quote rest).after text.length c := by
  cases h with
  | plain hquote hbackslash hline =>
    rw [List.singleton_append, body_plain quote hbackslash, if_neg hline, if_neg hquote]
    rfl
  | escape h =>
    cases h with
    | ascii hhigh hlow small =>
      have means := asciiOf?_iff.mpr (.inl (.ascii hhigh hlow small))
      simp [StringLiteral.body, means]
    | _ => simp [StringLiteral.body, escapeOf?]

/-- The body behind items that have a length and mean characters. -/
def Body.behind (length : Nat) (content : List Char) : Body → Body
  | .closed inner n => .closed (content ++ inner) (length + n)
  | .endOfText => .endOfText
  | .endOfLine n => .endOfLine (length + n)
  | .badEscape escaped n => .badEscape escaped (length + n)

theorem Items.body (h : Items quote text content) (rest : List Char) :
    body quote (text ++ rest) = (body quote rest).behind text.length content := by
  induction h with
  | nil => cases h : StringLiteral.body quote rest <;> simp [Body.behind, h]
  | cons item _ ih =>
    rw [List.append_assoc, item.body, ih, List.length_append]
    cases StringLiteral.body quote rest <;> simp [Body.behind, Body.after] <;> omega

theorem body_quote_self (hq : quote ∈ ['\x22', '\x27']) (rest : List Char) :
    body quote (quote :: rest) = .closed [] 1 := by
  simp only [List.mem_cons, List.not_mem_nil, or_false] at hq
  obtain rfl | rfl := hq
  · exact body_plain '\x22' (by decide) rest
  · exact body_plain '\x27' (by decide) rest

theorem body_line (quote : Char) (rest : List Char) : body quote ('\n' :: rest) = .endOfLine 0 :=
  body_plain quote (by decide) rest

/-- What means nothing behind a backslash is found to mean nothing, but for a plus sign in the place
of a digit. -/
theorem Unescapable.body {escaped more : List Char} (h : Unescapable escaped more)
    (hs : ∀ b n, escaped = ['x', '+', b] → ¬ HexDigit b n) (quote : Char) :
    body quote ('\\' :: (escaped ++ more)) = .badEscape escaped 0 := by
  cases h with
  | @one c _ hx nothing =>
    have none : escapeOf? c = none := by
      apply Option.eq_none_iff_forall_ne_some.mpr
      exact fun m h => nothing m (escapeOf?_iff.mp h)
    rw [List.singleton_append, StringLiteral.body, none]
    · intro a b rest hc
      exact absurd hc hx
    · exact hx
  | @ascii digits _ few whole nothing =>
    obtain _ | ⟨a, _ | ⟨b, digits⟩⟩ := digits
    · rw [whole (by decide)]
      rfl
    · rw [whole (by simp)]
      rfl
    · obtain rfl : digits = [] := by simpa using few
      have none : asciiOf? a b = none := by
        apply Option.eq_none_iff_forall_ne_some.mpr
        intro m h
        -- Only a plus sign in front of a digit is read although it is no escape.
        obtain h | ⟨rfl, n, hn, -⟩ := asciiOf?_iff.mp h
        · exact nothing m h
        · exact hs b n rfl hn
      simp [StringLiteral.body, none]

/-- A literal that is closed has one reading: its items end at the first quote behind them. -/
theorem Items.body_closed (h : Items quote text content) (hq : quote ∈ ['\x22', '\x27'])
    (rest : List Char) :
    StringLiteral.body quote (text ++ quote :: rest) = .closed content (text.length + 1) := by
  rw [h.body, body_quote_self hq, Body.behind, List.append_nil]

/-- Why the text behind a quote is no literal: the fault, what stands in front of the text to blame,
and that text, both from the opening quote on. -/
inductive Broken (quote : Char) : List Char → LexicalFault → List Char → List Char → Prop where
  | atEnd {text content rest : List Char} : Items quote text content → rest ∈ [[], ['\\']] →
    Broken quote (text ++ rest) (.unclosedAtEnd quote) [] (quote :: (text ++ rest))
  | atLine {text content rest : List Char} : Items quote text content →
    Broken quote (text ++ '\n' :: rest) (.unclosedAtLine quote) [] (quote :: text)
  | escape {text content escaped rest : List Char} : Items quote text content →
    Unescapable escaped rest →
    Broken quote (text ++ '\\' :: (escaped ++ rest)) (.badEscape escaped) (quote :: text)
      ('\\' :: escaped)

/-- Behind items stands an escape with a plus sign in the place of the first digit. -/
def Signed (quote : Char) (cs : List Char) : Prop :=
  ∃ (text content rest : List Char) (b : Char) (n : Nat), Items quote text content ∧ HexDigit b n ∧
    cs = text ++ '\\' :: 'x' :: '+' :: b :: rest

/-- A literal stands behind the opening quote: a body of items, which means the content, and the
quote that closes it. -/
structure Literal (quote : Char) (cs text content rest : List Char) : Prop where
  parts : cs = text ++ quote :: rest
  items : Items quote text content

/-- Of the literals that a text could start with there is one only. -/
theorem Literal.unique {cs text' content' rest' : List Char} (hq : quote ∈ ['\x22', '\x27'])
    (h : Literal quote cs text content rest) (h' : Literal quote cs text' content' rest') :
    text' = text ∧ content' = content ∧ rest' = rest := by
  have body := h.items.body_closed hq rest
  have body' := h'.items.body_closed hq rest'
  rw [← h.parts] at body
  rw [← h'.parts, body, Body.closed.injEq] at body'
  obtain ⟨same, length⟩ := body'
  have parts : text' ++ quote :: rest' = text ++ quote :: rest := by rw [← h.parts, ← h'.parts]
  obtain ⟨rfl, behind⟩ := List.append_inj parts (Nat.succ.inj length).symm
  exact ⟨rfl, same.symm, (List.cons.inj behind).2⟩

end StringLiteral

namespace Scan

open StringLiteral (Items Broken Signed Literal)

variable {quote : Char} {cs text content rest : List Char}

theorem step_of_quote (hq : quote ∈ ['\x22', '\x27']) : step quote = stringStep quote := by
  simp only [List.mem_cons, List.not_mem_nil, or_false] at hq
  obtain rfl | rfl := hq <;> rfl

theorem step_of_items (hq : quote ∈ ['\x22', '\x27']) (h : Items quote text content)
    (rest : List Char) :
    step quote (text ++ quote :: rest) =
      .token (.str (String.ofList content)) (text.length + 1) := by
  rw [step_of_quote hq, stringStep, h.body_closed hq]

/-- The token covers the items with both quotes, and the scan goes on behind it. -/
theorem lexemes_of_items (hq : quote ∈ ['\x22', '\x27']) (h : Items quote text content)
    (rest : List Char) (source : Source) (start : Nat) (behindNumber : Bool) :
    let stop := start + Text.byteLength (quote :: (text ++ [quote]))
    lexemes source start behindNumber (quote :: (text ++ quote :: rest)) =
      (lexemes source stop false rest).map
        (⟨.str (String.ofList content), ⟨⟨source, start⟩, ⟨source, stop⟩⟩⟩ :: ·) := by
  have literal := step_of_items hq h rest
  have parts : text ++ quote :: rest = (text ++ [quote]) ++ rest := by simp
  have length : text.length + 1 = (text ++ [quote]).length := by simp
  rw [parts, length] at literal
  rw [parts]
  exact lexemes_of_token literal source start behindNumber

/-- A text behind a quote is a literal, or it is broken where no further item starts. -/
theorem literal_or_broken (quote : Char) (cs : List Char) :
    (∃ text content rest, Literal quote cs text content rest) ∨
      ∃ f before blamed, Broken quote cs f before blamed := by
  obtain ⟨text, content, rest, rfl, items, ends⟩ := StringLiteral.exists_items quote cs
  cases ends with
  | quote => exact .inl ⟨text, content, _, rfl, items⟩
  | text => exact .inr ⟨_, _, _, .atEnd items (by simp)⟩
  | backslash => exact .inr ⟨_, _, _, .atEnd items (by simp)⟩
  | line => exact .inr ⟨_, _, _, .atLine items⟩
  | escape nothing => exact .inr ⟨_, _, _, .escape items nothing⟩

theorem step_of_broken (hq : quote ∈ ['\x22', '\x27']) (hs : ¬ Signed quote cs) {f : LexicalFault}
    {before blamed : List Char} (h : Broken quote cs f before blamed) :
    step quote cs = .fault f before.length blamed.length ∧
      ∃ tail, quote :: cs = before ++ (blamed ++ tail) := by
  rw [step_of_quote hq, stringStep]
  cases h with
  | @atEnd text content rest items last =>
    simp only [List.mem_cons, List.not_mem_nil, or_false] at last
    have body : StringLiteral.body quote rest = .endOfText := by
      obtain rfl | rfl := last
      · rfl
      · simp [StringLiteral.body]
    rw [items.body, body]
    exact ⟨rfl, [], by simp⟩
  | @atLine text content rest items =>
    rw [items.body, StringLiteral.body_line]
    exact ⟨rfl, '\n' :: rest, by simp⟩
  | @escape text content escaped rest items nothing =>
    have unsigned (b : Char) (n : Nat) (he : escaped = ['x', '+', b]) :
        ¬ StringLiteral.HexDigit b n := by
      intro hn
      subst he
      exact hs ⟨text, content, rest, b, n, items, hn, rfl⟩
    rw [items.body, nothing.body unsigned]
    exact ⟨rfl, rest, by simp⟩

/-- The text behind a quote is read as items, wherever in a source it stands. -/
structure Decoded (quote : Char) (cs : List Char) : Prop where
  /-- A string token is read exactly if there is a literal. -/
  literal_iff : (∃ s n, step quote cs = .token (.str s) n) ↔
    ∃ text content rest, Literal quote cs text content rest
  shortest : ∀ {text content rest text' content' rest'}, Literal quote cs text content rest →
    Literal quote cs text' content' rest' → text.length ≤ text'.length
  /-- The token covers the literal with both quotes, and the scan goes on behind it. -/
  consumed : ∀ {text content rest}, Literal quote cs text content rest →
    ∀ source start behindNumber,
      let stop := start + Text.byteLength (quote :: (text ++ [quote]))
      lexemes source start behindNumber (quote :: cs) =
        (lexemes source stop false rest).map
          (⟨.str (String.ofList content), ⟨⟨source, start⟩, ⟨source, stop⟩⟩⟩ :: ·)
  broken : (¬ ∃ text content rest, Literal quote cs text content rest) →
    ∃ f before blamed, Broken quote cs f before blamed
  /-- What is met first is blamed. -/
  blamed : ∀ {f before blamed}, Broken quote cs f before blamed →
    ∀ source start behindNumber, lexemes source start behindNumber (quote :: cs) =
      .error (f.error ⟨⟨source, start + Text.byteLength before⟩,
        ⟨source, start + Text.byteLength (before ++ blamed)⟩⟩)

end Scan

/-- A string literal is read exactly if items and the same quote stand behind the quote. It means
what its items mean, and ends at the first quote behind them. Else the literal is not closed, and is
blamed to the end of the text or of the line; or the first escape that means nothing is. This holds
of all texts without a plus sign in the place of a digit. -/
theorem literals_are_items {quote : Char} (hq : quote ∈ ['\x22', '\x27']) {cs : List Char}
    (hs : ¬ StringLiteral.Signed quote cs) : Scan.Decoded quote cs := by
  constructor
  case literal_iff =>
    constructor
    · rintro ⟨s, n, hstep⟩
      obtain literal | ⟨f, before, blamed, broken⟩ := Scan.literal_or_broken quote cs
      · exact literal
      · rw [(Scan.step_of_broken hq hs broken).1] at hstep
        cases hstep
    · rintro ⟨text, content, rest, rfl, items⟩
      exact ⟨_, _, Scan.step_of_items hq items rest⟩
  case shortest =>
    intro text content rest text' content' rest' h h'
    rw [(h.unique hq h').1]
  case consumed =>
    rintro text content rest ⟨rfl, items⟩
    exact Scan.lexemes_of_items hq items rest
  case broken => exact (Scan.literal_or_broken quote cs).resolve_left
  case blamed =>
    intro f before blamed broken
    obtain ⟨fault, tail, parts⟩ := Scan.step_of_broken hq hs broken
    exact Scan.lexemes_of_fault fault parts

/-- An escape by number is read, and a `y` behind a backslash is blamed with the backslash. -/
theorem letter_by_number_read :
    '\x22' ∈ ['\x22', '\x27'] ∧
    (¬ StringLiteral.Signed '\x22' ['\\', 'x', '4', '1', '\x22'] ∧ ∀ source,
      Scan.lexemes source 0 false ['\x22', '\\', 'x', '4', '1', '\x22'] =
        .ok [⟨.str "A", ⟨⟨source, 0⟩, ⟨source, 6⟩⟩⟩]) ∧
    (¬ StringLiteral.Signed '\x22' ['a', '\\', 'y'] ∧ ∀ source,
      Scan.lexemes source 0 false ['\x22', 'a', '\\', 'y'] =
        .error ⟨.literal, "'y' can not be escaped", ⟨⟨source, 2⟩, ⟨source, 4⟩⟩⟩) := by
  have unsigned (cs : List Char) (h : '+' ∉ cs) : ¬ StringLiteral.Signed '\x22' cs := by
    rintro ⟨text, content, rest, b, n, -, -, rfl⟩
    simp at h
  have double : '\x22' ∈ ['\x22', '\x27'] := by decide
  have good := unsigned ['\\', 'x', '4', '1', '\x22'] (by decide)
  have bad := unsigned ['a', '\\', 'y'] (by decide)
  refine ⟨double, ⟨good, fun source => ?_⟩, bad, fun source => ?_⟩
  · have escape : StringLiteral.Escape ['x', '4', '1'] 'A' :=
      .ascii (m := 4) (n := 1) ⟨by decide, .inl rfl⟩ ⟨by decide, .inl rfl⟩ (by decide)
    have literal := (literals_are_items double good).consumed ⟨rfl, .cons (.escape escape) .nil⟩
    rw [literal source 0 false, Scan.lexemes_nil]
    rfl
  · have letter : StringLiteral.Items '\x22' ['a'] ['a'] :=
      .cons (.plain (by decide) (by decide) (by decide)) .nil
    have nothing : StringLiteral.Unescapable ['y'] [] := by
      apply StringLiteral.Unescapable.one (by decide)
      intro m escape
      cases escape
    exact (literals_are_items double bad).blamed (.escape letter nothing) source 0 false

/-- A plus sign in the place of a digit is read, although what it stands in is no literal. -/
theorem sign_read_as_digit :
    Scan.step '\x22' ['\\', 'x', '+', '5', '\x22'] = .token (.str "\x05") 5 ∧
      ¬ ∃ text content rest,
        StringLiteral.Literal '\x22' ['\\', 'x', '+', '5', '\x22'] text content rest := by
  constructor
  · rfl
  · rintro ⟨text, content, rest, parts, items⟩
    have plus {m : Nat} (h : StringLiteral.HexDigit '+' m) : False := by
      cases StringLiteral.hexValue?_iff.mpr h
    cases items with
    | nil => cases parts
    | cons item items =>
      cases item with
      | plain _ hbackslash _ =>
        obtain ⟨first, -⟩ := List.cons.inj parts
        exact hbackslash first.symm
      | escape escape =>
        obtain ⟨-, parts⟩ := List.cons.inj parts
        cases escape with
        | ascii high _ _ =>
          obtain ⟨-, digits⟩ := List.cons.inj parts
          obtain ⟨rfl, -⟩ := List.cons.inj digits
          exact plus high
        | _ =>
          obtain ⟨first, -⟩ := List.cons.inj parts
          cases first

/-! ## Strings written between quotes -/

namespace StringLiteral

/-- What may be written for a character: itself, if it is neither the quote nor a backslash nor a
line feed; its escape, which these need; its number in base sixteen, if it is an ASCII character. -/
inductive Written (quote : Char) : Char → List Char → Prop where
  | plain {c : Char} : c ≠ quote → c ≠ '\\' → c ≠ '\n' → Written quote c [c]
  | backslash : Written quote '\\' ['\\', '\\']
  | quote : Written quote quote ['\\', quote]
  | newline : Written quote '\n' ['\\', 'n']
  | tab : Written quote '\t' ['\\', 't']
  | ascii {c a b : Char} {m n : Nat} : c.toNat ≤ 0x7F → HexDigit a m → HexDigit b n →
    c.toNat = 16 * m + n → Written quote c ['\\', 'x', a, b]

variable {quote c : Char} {piece : List Char}

theorem exists_written (quote c : Char) : ∃ piece, Written quote c piece := by
  by_cases hbackslash : c = '\\'
  · subst hbackslash
    exact ⟨_, .backslash⟩
  by_cases hquote : c = quote
  · subst hquote
    exact ⟨_, .quote⟩
  by_cases hline : c = '\n'
  · subst hline
    exact ⟨_, .newline⟩
  · exact ⟨[c], .plain hquote hbackslash hline⟩

theorem Written.item (h : Written quote c piece) (hq : quote ∈ ['\x22', '\x27']) :
    Item quote piece c := by
  cases h with
  | plain hquote hbackslash hline => exact .plain hquote hbackslash hline
  | backslash => exact .escape .backslash
  | quote =>
    simp only [List.mem_cons, List.not_mem_nil, or_false] at hq
    obtain rfl | rfl := hq
    · exact .escape .double
    · exact .escape .single
  | newline => exact .escape .newline
  | tab => exact .escape .tab
  | ascii small high low value =>
    rw [eq_ofNat value]
    exact .escape (.ascii high low (value ▸ small))

theorem items_of_written {cs : List Char} {pieces : List (List Char)}
    (hq : quote ∈ ['\x22', '\x27']) (h : List.Forall₂ (Written quote) cs pieces) :
    Items quote pieces.flatten cs := by
  induction h with
  | nil => exact .nil
  | cons written _ ih => exact .cons (written.item hq) ih

end StringLiteral

/-- Every string can be written between quotes, and however it is written, a source of it alone is
one token: the string, with the whole text as its span. -/
theorem quoting_reads_back {quote : Char} (hq : quote ∈ ['\x22', '\x27']) (s : String) :
    (∃ pieces, List.Forall₂ (StringLiteral.Written quote) s.toList pieces) ∧
    ∀ pieces, List.Forall₂ (StringLiteral.Written quote) s.toList pieces → ∀ name,
      let source : Source := ⟨name, String.ofList (quote :: (pieces.flatten ++ [quote]))⟩
      let stop : Position := ⟨source, Text.byteLength source.chars⟩
      scan source =
        .ok [⟨.str s, ⟨⟨source, 0⟩, stop⟩⟩, ⟨.eol, ⟨stop, stop⟩⟩, ⟨.eof, ⟨stop, stop⟩⟩] := by
  constructor
  · induction s.toList with
    | nil => exact ⟨[], .nil⟩
    | cons c cs ih =>
      obtain ⟨piece, first⟩ := StringLiteral.exists_written quote c
      obtain ⟨pieces, later⟩ := ih
      exact ⟨piece :: pieces, .cons first later⟩
  · intro pieces written name source stop
    have chars : source.chars = quote :: (pieces.flatten ++ [quote]) := String.toList_ofList
    have items := StringLiteral.items_of_written hq written
    have literal := Scan.lexemes_of_items hq items [] source 0 false
    rw [← chars] at literal
    rw [scan_eq_map, literal, Scan.lexemes_nil, String.ofList_toList, Nat.zero_add]
    rfl

/-- A quotation with its quotes behind backslashes, and a tab and a letter by number. -/
theorem quotation_reads_back : '\x27' ∈ ['\x22', '\x27'] ∧
    List.Forall₂ (StringLiteral.Written '\x27') "it's\ta".toList
      [['i'], ['t'], ['\\', '\x27'], ['s'], ['\\', 't'], ['\\', 'x', '6', '1']] ∧
    ∀ name, let source : Source := ⟨name, "'it\\'s\\t\\x61'"⟩
      scan source = .ok [⟨.str "it's\ta", ⟨⟨source, 0⟩, ⟨source, 13⟩⟩⟩,
        ⟨.eol, ⟨⟨source, 13⟩, ⟨source, 13⟩⟩⟩, ⟨.eof, ⟨⟨source, 13⟩, ⟨source, 13⟩⟩⟩] := by
  have single : '\x27' ∈ ['\x22', '\x27'] := by decide
  have pieces : List.Forall₂ (StringLiteral.Written '\x27') "it's\ta".toList
      [['i'], ['t'], ['\\', '\x27'], ['s'], ['\\', 't'], ['\\', 'x', '6', '1']] := by
    have plain {c : Char} (h : c ≠ '\x27' ∧ c ≠ '\\' ∧ c ≠ '\n') :
        StringLiteral.Written '\x27' c [c] := .plain h.1 h.2.1 h.2.2
    have number : StringLiteral.Written '\x27' 'a' ['\\', 'x', '6', '1'] :=
      .ascii (m := 6) (n := 1) (by decide) ⟨by decide, .inl rfl⟩ ⟨by decide, .inl rfl⟩ rfl
    exact .cons (plain (by decide)) <| .cons (plain (by decide)) <| .cons .quote <|
      .cons (plain (by decide)) <| .cons .tab <| .cons number .nil
  refine ⟨single, pieces, fun name => ?_⟩
  have reads := (quoting_reads_back single "it's\ta").2 _ pieces name
  dsimp only at reads
  rw [Source.chars, String.toList_ofList] at reads
  exact reads

end TracedScript
