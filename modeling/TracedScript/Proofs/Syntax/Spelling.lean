import TracedScript.Proofs.Number.Digits
import TracedScript.Proofs.Syntax.Steps
import TracedScript.Proofs.Syntax.Written
import TracedScript.Proofs.Text.Trimming
import TracedScript.Proofs.Value.Readable

/-!
# The text of a value, cut into tokens

`Value.tokens` are the tokens of the literal that stands for a value, and the text of the value is
cut into these: `Readable.spells`. `Spells text ts` looks past the text at what may follow it, so
that the texts of parts are put together to the text of the whole.
-/

namespace TracedScript

/-! ## Cutting a text -/

namespace Scan

/-- The text is cut into the tokens, wherever it stands. -/
def Gives (cs : List Char) (ts : List Token) : Prop :=
  ∀ source start behindNumber, ∃ ls, lexemes source start behindNumber cs = .ok ls ∧
    ls.map (·.token) = ts

/-- A name or a number in front of the character ends there. -/
def Breaks (c : Char) : Prop := isNamePart c = false ∧ c ≠ '.'

instance : DecidablePred Breaks := fun _ => inferInstanceAs (Decidable (_ ∧ _))

/-- In front of `rest`, the text is cut into the tokens, if a name or number would end there. -/
def Spells (text : List Char) (ts : List Token) : Prop :=
  ∀ rest us, (∀ c ∈ rest.head?, Breaks c) → Gives rest us → Gives (text ++ rest) (ts ++ us)

theorem gives_nil : Gives [] [] := by
  intro source start behindNumber
  rw [lexemes]
  exact ⟨[], rfl, rfl⟩

theorem Gives.token {c : Char} {rest : List Char} {t : Token} {n : Nat} {ts : List Token}
    (hs : step c rest = .token t n) (h : Gives (rest.drop n) ts) : Gives (c :: rest) (t :: ts) := by
  intro source start behindNumber
  rw [lexemes, hs]
  obtain ⟨ls, hl, rfl⟩ := h source (start + Text.byteLength (c :: rest.take n)) (endsNumber t)
  dsimp only
  rw [hl]
  exact ⟨_, rfl, rfl⟩

theorem Gives.blank {rest : List Char} {ts : List Token} (h : Gives rest ts) :
    Gives (' ' :: rest) ts := by
  intro source start behindNumber
  rw [lexemes]
  exact h source _ false

namespace Spells

variable {text text' : List Char} {ts us : List Token} {c : Char}

theorem nil : Spells [] [] := fun _ _ _ h => h

/-- One token, which the step cuts off in front of everything that ends names and numbers. -/
theorem token {more : List Char} {t : Token}
    (h : ∀ rest : List Char, (∀ d ∈ rest.head?, Breaks d) →
      step c (more ++ rest) = .token t more.length) : Spells (c :: more) [t] := by
  intro rest us hr hrest
  have behind : (more ++ rest).drop more.length = rest := List.drop_left
  exact Gives.token (h rest hr) (behind.symm ▸ hrest)

/-- Two texts one behind the other, where the second one starts with what ends names and numbers. -/
theorem append (h : Spells text ts) (hc : Breaks c) (h' : Spells (c :: text') us) :
    Spells (text ++ c :: text') (ts ++ us) := by
  intro rest vs hr hrest
  rw [List.append_assoc, List.append_assoc]
  refine h _ _ ?_ (h' rest vs hr hrest)
  rintro d ⟨⟩
  exact hc

/-- A token in front that ends wherever it is. -/
theorem cons {t : Token} (hs : ∀ rest, step c rest = .token t 0) (h : Spells text ts) :
    Spells (c :: text) (t :: ts) :=
  fun rest us hr hrest => .token (n := 0) (hs _) (h rest us hr hrest)

theorem blank (h : Spells text ts) : Spells (' ' :: text) ts :=
  fun rest us hr hrest => .blank (h rest us hr hrest)

/-- A text between marks. -/
theorem enclosed {o : Char} {t u : Token} (ho : ∀ rest, step o rest = .token t 0)
    (hs : ∀ rest, step c rest = .token u 0) (hc : Breaks c) (h : Spells text ts) :
    Spells (o :: (text ++ [c])) (t :: (ts ++ [u])) := cons ho (h.append hc (cons hs nil))

/-- Items between commas. -/
theorem items {ι : Type} {text : ι → List Char} {w : ι → List Token} {xs : List ι}
    (h : ∀ x ∈ xs, Spells (text x) (w x)) :
    Spells (Text.join [',', ' '] (xs.map text)) (commaList (xs.map w)) := by
  induction xs with
  | nil => exact nil
  | cons x xs ih =>
    obtain ⟨hx, hxs⟩ := List.forall_mem_cons.mp h
    cases xs with
    | nil => exact hx
    | cons y ys =>
      have comma : Spells (',' :: ' ' :: Text.join [',', ' '] ((y :: ys).map text))
          (.mark .comma :: commaList ((y :: ys).map w)) := cons (fun _ => rfl) (ih hxs).blank
      have both := hx.append (by decide) comma
      simp only [List.map_cons, Text.join, commaList, List.append_assoc] at both ⊢
      exact both

end Spells

/-! ## Names and numbers -/

theorem takeWhile_dropWhile_of_breaks {p : Char → Bool} (hp : ∀ c, Breaks c → p c = false)
    {cs rest : List Char} (hcs : ∀ c ∈ cs, p c = true) (hr : ∀ c ∈ rest.head?, Breaks c) :
    (cs ++ rest).takeWhile p = cs ∧ (cs ++ rest).dropWhile p = rest := by
  have stop : rest.takeWhile p = [] ∧ rest.dropWhile p = rest := by
    cases rest with
    | nil => exact ⟨rfl, rfl⟩
    | cons c rest => simp [hp c (hr c rfl)]
  rw [List.takeWhile_append_of_pos hcs, List.dropWhile_append_of_pos hcs, stop.1, stop.2,
    List.append_nil]
  exact ⟨rfl, rfl⟩

/-- A name that is no keyword. -/
theorem spells_name {name : String} {c : Char} {more : List Char} (hn : name.toList = c :: more)
    (hs : step c = nameStep c) (hmore : more.all isNamePart = true)
    (hk : Keyword.ofText? name = none) : Spells name.toList [.identifier name] := by
  have whole : String.ofList (c :: more) = name := by rw [← hn, String.ofList_toList]
  rw [hn]
  refine .token fun rest hr => ?_
  have cut := takeWhile_dropWhile_of_breaks (p := isNamePart) (fun _ h => h.1)
    (List.all_eq_true.mp hmore) hr
  simp only [hs, nameStep, cut.1, whole, hk]

theorem isNumberPart_of_breaks {c : Char} (h : Breaks c) : isNumberPart c = false := by
  have ends := h.1
  simp only [isNamePart, isNameStart, Bool.or_eq_false_iff] at ends
  simp only [isNumberPart, ends.1.2, ends.2, Bool.or_self]

theorem ne_underscore_of_digit {c : Char} (h : Number.isDigit c = true) : c ≠ '_' := by
  rintro rfl
  cases h

theorem spells_digits {a : Int64} (h : 0 ≤ a.toInt) :
    Spells (Number.digits a.toInt.natAbs) [.int a] := by
  have value := Number.Word.ofText?_digits h
  obtain ⟨d, ds, hd, digit⟩ := Number.exists_digits a.toInt.natAbs
  rw [hd] at value ⊢
  have plain : withoutUnderscores (d :: ds) = d :: ds :=
    List.filter_eq_self.mpr fun c hc => by simpa using ne_underscore_of_digit (digit c hc)
  have parts (c : Char) (hc : c ∈ ds) : isNumberPart c = true := by
    simp only [isNumberPart, digit c (List.mem_cons_of_mem _ hc), Bool.true_or]
  refine .token fun rest hr => ?_
  obtain ⟨whole, behind⟩ := takeWhile_dropWhile_of_breaks (fun _ => isNumberPart_of_breaks) parts hr
  rw [step_of_digit (digit d (List.mem_cons_self ..)), numberStep]
  simp only [whole, behind, plain, value]
  split
  · exact absurd rfl (hr '.' rfl).2
  · rfl

/-- A minus in front of digits is no arrow. -/
theorem spells_negative {a : Int64} (h : 0 ≤ a.toInt) :
    Spells ('-' :: Number.digits a.toInt.natAbs) [.mark .minus, .int a] := by
  have number := spells_digits h
  obtain ⟨d, ds, hd, digit⟩ := Number.exists_digits a.toInt.natAbs
  rw [hd] at number ⊢
  have noArrow : d ≠ '>' := by
    rintro rfl
    cases digit '>' (List.mem_cons_self ..)
  intro rest us hr hrest
  refine Gives.token (n := 0) ?_ (number rest us hr hrest)
  exact if_neg noArrow

/-! ## Strings -/

theorem body_quoteChar {c : Char} (hc : Text.Quotable c) {rest content : List Char} {n : Nat}
    (h : StringLiteral.body '\x22' rest = .closed content n) :
    StringLiteral.body '\x22' (Text.quoteChar c ++ rest) =
      .closed (c :: content) (n + (Text.quoteChar c).length) := by
  by_cases escaped : c ∈ ['\x22', '\\', '\n', '\t']
  · simp only [List.mem_cons, List.not_mem_nil, or_false] at escaped
    obtain rfl | rfl | rfl | rfl := escaped <;>
      simp [Text.quoteChar, StringLiteral.body, StringLiteral.escapeOf?, h,
        StringLiteral.Body.after]
  · have shown : Text.quoteChar c = [c] := hc.resolve_right escaped
    simp only [List.mem_cons, List.not_mem_nil, or_false, not_or] at escaped
    obtain ⟨quote, backslash, lineBreak, -⟩ := escaped
    rw [shown, List.singleton_append, StringLiteral.body_plain _ backslash, if_neg lineBreak,
      if_neg quote, h]
    rfl

theorem body_quote {cs : List Char} (h : ∀ c ∈ cs, Text.Quotable c) (rest : List Char) :
    StringLiteral.body '\x22' (cs.flatMap Text.quoteChar ++ '\x22' :: rest) =
      .closed cs ((cs.flatMap Text.quoteChar).length + 1) := by
  induction cs with
  | nil => rfl
  | cons c cs ih =>
    obtain ⟨hc, hcs⟩ := List.forall_mem_cons.mp h
    rw [List.flatMap_cons, List.append_assoc, body_quoteChar hc (ih hcs), List.length_append]
    congr 1
    omega

theorem spells_quote {s : String} (h : ∀ c ∈ s.toList, Text.Quotable c) :
    Spells (Text.quote s).toList [.str s] := by
  rw [Text.quote, String.toList_ofList, List.cons_append]
  refine .token fun rest _ => ?_
  have body := body_quote h rest
  show stringStep '\x22' _ = _
  rw [stringStep, List.append_assoc, List.singleton_append, body]
  simp

end Scan

/-! ## The tokens of a value -/

mutual

/-- The tokens of a literal for the content; there are none for what no literal stands for. -/
def Data.tokens : Data → List Token
  | .null => [.identifier "Null"]
  | .bool true => [.identifier "True"]
  | .bool false => [.identifier "False"]
  | .int n => if n.toInt < 0 then [.mark .minus, .int (-n)] else [.int n]
  | .str s => [.str s]
  | .array items => .mark .lbracket :: (commaList (Value.tokenLists items) ++ [.mark .rbracket])
  | .tuple items => parenthesized (tupleList (Value.tokenLists items))
  | .dict ⟨entries, _⟩ => braced (commaList (Entry.tokenLists entries))
  | _ => []

def Value.tokens : Value → List Token
  | ⟨data, _⟩ => data.tokens

def Value.tokenLists : List Value → List (List Token)
  | [] => []
  | v :: vs => v.tokens :: Value.tokenLists vs

def Entry.tokenLists : List Entry → List (List Token)
  | [] => []
  | ⟨label, value⟩ :: es =>
    (label.tokens ++ .mark .colon :: value.tokens) :: Entry.tokenLists es

end

def Entry.tokens (e : Entry) : List Token := e.label.tokens ++ .mark .colon :: e.value.tokens

theorem Value.tokenLists_eq (vs : List Value) : Value.tokenLists vs = vs.map Value.tokens := by
  induction vs with
  | nil => rfl
  | cons v vs ih => rw [Value.tokenLists, ih, List.map_cons]

theorem Entry.tokenLists_eq (es : List Entry) : Entry.tokenLists es = es.map Entry.tokens := by
  induction es with
  | nil => rfl
  | cons e es ih =>
    obtain ⟨label, value⟩ := e
    rw [Entry.tokenLists, ih, List.map_cons, Entry.tokens]

/-! ## The text of a value -/

/-- The text of an entry inside a dictionary. -/
def Entry.text (e : Entry) : List Char := e.label.repr.toList ++ ':' :: ' ' :: e.value.repr.toList

theorem Value.toList_reprs (vs : List Value) :
    (Value.reprs vs).toList = Text.join [',', ' '] (vs.map (·.repr.toList)) := by
  induction vs with
  | nil => simp only [Value.reprs, List.map_nil, Text.join, String.toList_empty]
  | cons v vs ih =>
    cases vs with
    | nil => simp only [Value.reprs, List.map_cons, List.map_nil, Text.join]
    | cons w ws =>
      simp only [Value.reprs, List.map_cons, Text.join, String.toList_append] at ih ⊢
      rw [ih]
      rfl

/-- The items of a tuple as they stand between the parentheses: a single one has a comma behind. -/
def Value.tupleText : List Value → List Char
  | [v] => v.repr.toList ++ [',']
  | vs => Text.join [',', ' '] (vs.map (·.repr.toList))

theorem Value.toList_repr_tuple (vs : List Value) (t : Trace) :
    (Value.repr ⟨.tuple vs, t⟩).toList = '(' :: (tupleText vs ++ [')']) := by
  unfold tupleText
  split
  · simp [Value.repr, Data.repr]
  · rename_i several
    rw [Value.repr, Data.repr, String.toList_append, String.toList_append, Value.toList_reprs]
    · rfl
    · exact several

theorem Entry.toList_reprs (es : List Entry) :
    (Entry.reprs es).toList = Text.join [',', ' '] (es.map Entry.text) := by
  induction es with
  | nil => simp only [Entry.reprs, List.map_nil, Text.join, String.toList_empty]
  | cons e es ih =>
    obtain ⟨label, value⟩ := e
    cases es with
    | nil => simp [Entry.reprs, Text.join, Entry.text, String.toList_append]
    | cons e' es =>
      simp only [Entry.reprs, List.map_cons, Text.join, String.toList_append] at ih ⊢
      rw [ih]
      simp [Entry.text]

theorem tupleList_map {vs : List Value} (h : ∀ v, vs ≠ [v]) :
    tupleList (vs.map Value.tokens) = commaList (vs.map Value.tokens) := by
  obtain _ | ⟨v, _ | ⟨w, vs⟩⟩ := vs
  · rfl
  · exact absurd rfl (h v)
  · rfl

open Scan (Spells)

theorem Entry.spells {e : Entry} (hl : Spells e.label.repr.toList e.label.tokens)
    (hv : Spells e.value.repr.toList e.value.tokens) : Spells e.text e.tokens :=
  hl.append (by decide) (.cons (fun _ => rfl) hv.blank)

/-- The text of a value is cut into the tokens of its literal. -/
theorem Value.Readable.spells {v : Value} (h : v.Readable) : Spells v.repr.toList v.tokens := by
  induction h with
  | null =>
    simp only [Value.repr, Data.repr, Value.tokens, Data.tokens]
    exact Scan.spells_name (c := 'N') (by rfl) rfl rfl (by decide)
  | @bool b =>
    cases b with
    | true =>
      simp only [Value.repr, Data.repr, Value.tokens, Data.tokens]
      exact Scan.spells_name (c := 'T') (by rfl) rfl rfl (by decide)
    | false =>
      simp only [Value.repr, Data.repr, Value.tokens, Data.tokens]
      exact Scan.spells_name (c := 'F') (by rfl) rfl rfl (by decide)
  | @int n trace hn =>
    simp only [Value.repr, Data.repr, Number.Word.text, Number.integerText, Value.tokens,
      Data.tokens, String.toList_ofList]
    split
    · have opposite := Number.Word.toInt_neg hn
      have digits := Scan.spells_negative (a := -n) (by omega)
      rw [opposite, Int.natAbs_neg] at digits
      exact digits
    · exact Scan.spells_digits (by omega)
  | str hs =>
    simp only [Value.repr, Data.repr, Value.tokens, Data.tokens]
    exact Scan.spells_quote hs
  | @array items _ _ ih =>
    have inside : Spells (Value.reprs items).toList (commaList (Value.tokenLists items)) := by
      rw [Value.toList_reprs, Value.tokenLists_eq]
      exact .items ih
    have whole := inside.enclosed (o := '[') (c := ']') (fun _ => rfl) (fun _ => rfl) (by decide)
    simpa [Value.repr, Data.repr, Value.tokens, Data.tokens] using whole
  | @tuple items _ _ ih =>
    have inside : Spells (tupleText items) (tupleList (Value.tokenLists items)) := by
      rw [Value.tokenLists_eq]
      unfold tupleText
      split
      · have item := ih _ (List.mem_singleton_self _)
        exact item.append (c := ',') (by decide) (.cons (fun _ => rfl) .nil)
      · rename_i several
        rw [tupleList_map several]
        exact .items ih
    have whole := inside.enclosed (o := '(') (c := ')') (fun _ => rfl) (fun _ => rfl) (by decide)
    rw [Value.toList_repr_tuple]
    simpa [Value.tokens, Data.tokens, parenthesized] using whole
  | @dict d _ _ _ hl hv =>
    obtain ⟨entries, index⟩ := d
    have inside : Spells (Entry.reprs entries).toList (commaList (Entry.tokenLists entries)) := by
      rw [Entry.toList_reprs, Entry.tokenLists_eq]
      exact .items fun e he => Entry.spells (hl e he) (hv e he)
    have whole := inside.enclosed (o := '\x7b') (c := '\x7d') (fun _ => rfl) (fun _ => rfl)
      (by decide)
    simpa [Value.repr, Data.repr, Value.tokens, Data.tokens, braced] using whole

/-! ## Texts that trimming leaves as they are -/

namespace Text

/-- A text without line breaks, and without blanks at its ends. -/
structure OneLine (cs : List Char) : Prop where
  noBreak : '\n' ∉ cs
  first : ∀ c ∈ cs.head?, isBlank c = false
  last : ∀ c ∈ cs.getLast?, isBlank c = false

theorem OneLine.trims {cs : List Char} (h : OneLine cs) : Trims cs [] cs [] :=
  ⟨(List.append_nil cs).symm, List.forall_mem_nil _, List.forall_mem_nil _, h.first, h.last⟩

theorem OneLine.normalize {text : String} (h : OneLine text.toList) :
    Text.normalize text = text := by
  have whole : join ['\n'] ((lines text.toList).map Text.trim) = text.toList := by
    unfold lines
    rw [pieces_of_not_mem h.noBreak]
    by_cases empty : text.toList = []
    · simp [empty, join]
    · simp [empty, join, h.trims.trim_eq]
  rw [Text.normalize, whole, String.ofList_toList]

/-- Items that are on one line are so with commas between them. -/
theorem not_mem_items {ι : Type} {text : ι → List Char} {xs : List ι}
    (h : ∀ x ∈ xs, '\n' ∉ text x) : '\n' ∉ join [',', ' '] (xs.map text) := by
  intro hb
  obtain hb | ⟨p, hp, hb⟩ := mem_join hb
  · revert hb
    decide
  · obtain ⟨x, hx, rfl⟩ := List.mem_map.mp hp
    exact h x hx hb

theorem OneLine.between {o c : Char} {cs : List Char} (ho : isBlank o = false)
    (hc : isBlank c = false) (h : '\n' ∉ cs) : OneLine (o :: (cs ++ [c])) := by
  have different {d : Char} (hd : isBlank d = false) : d ≠ '\n' := by
    rintro rfl
    cases hd
  refine ⟨?_, ?_, ?_⟩
  · simp [h, (different ho).symm, (different hc).symm]
  · rintro d ⟨⟩
    exact ho
  · intro d hd
    rw [← List.cons_append, List.getLast?_concat] at hd
    cases hd
    exact hc

/-- A text with no blanks at all. -/
theorem OneLine.of_forall {cs : List Char} (h : ∀ c ∈ cs, isBlank c = false) : OneLine cs :=
  ⟨fun hb => absurd (h _ hb) (by decide), fun c hc => h c (List.mem_of_head? hc),
    fun c hc => h c (List.mem_of_getLast? hc)⟩

/-- Line breaks are written as escapes. -/
theorem not_mem_quoteChar {c : Char} (h : Quotable c) : '\n' ∉ quoteChar c := by
  intro hb
  obtain shown | escaped := h
  · rw [shown] at hb
    obtain rfl := List.mem_singleton.mp hb
    cases shown
  · simp only [List.mem_cons, List.not_mem_nil, or_false] at escaped
    obtain rfl | rfl | rfl | rfl := escaped
    all_goals exact absurd hb (by decide)

end Text

/-- The text of a value is on one line. -/
theorem Value.Readable.oneLine {v : Value} (h : v.Readable) : Text.OneLine v.repr.toList := by
  induction h with
  | null =>
    simp only [Value.repr, Data.repr]
    exact .of_forall (by simp [Text.isBlank])
  | @bool b =>
    cases b with
    | true =>
      simp only [Value.repr, Data.repr]
      exact .of_forall (by simp [Text.isBlank])
    | false =>
      simp only [Value.repr, Data.repr]
      exact .of_forall (by simp [Text.isBlank])
  | @int n trace hn =>
    simp only [Value.repr, Data.repr, String.toList_ofList, Number.Word.text, Number.integerText]
    have digits (c : Char) (hc : c ∈ Number.digits n.toInt.natAbs) : Text.isBlank c = false :=
      Text.isBlank_of_digit (Number.isDigit_of_mem_digits hc)
    split
    · exact .of_forall (List.forall_mem_cons.mpr ⟨rfl, digits⟩)
    · exact .of_forall digits
  | @str s _ hs =>
    simp only [Value.repr, Data.repr, Text.quote, String.toList_ofList]
    refine .between rfl rfl fun hb => ?_
    obtain ⟨c, hc, hb⟩ := List.mem_flatMap.mp hb
    exact Text.not_mem_quoteChar (hs c hc) hb
  | @array items _ _ ih =>
    have whole := Text.OneLine.between (o := '[') (c := ']') rfl rfl
      (Text.not_mem_items fun v hv => (ih v hv).noBreak)
    rw [← Value.toList_reprs] at whole
    simpa [Value.repr, Data.repr] using whole
  | @tuple items _ _ ih =>
    rw [Value.toList_repr_tuple]
    refine .between rfl rfl ?_
    unfold Value.tupleText
    split
    · simpa using (ih _ (List.mem_singleton_self _)).noBreak
    · exact Text.not_mem_items fun v hv => (ih v hv).noBreak
  | @dict d _ _ _ hl hv =>
    obtain ⟨entries, index⟩ := d
    have inside (e : Entry) (he : e ∈ entries) : '\n' ∉ e.text := by
      simpa [Entry.text] using ⟨(hl e he).noBreak, (hv e he).noBreak⟩
    have whole := Text.OneLine.between (o := '\x7b') (c := '\x7d') rfl rfl
      (Text.not_mem_items inside)
    rw [← Entry.toList_reprs] at whole
    simpa [Value.repr, Data.repr] using whole

end TracedScript
