import Mathlib.Data.List.DropRight
import TracedScript.Proofs.Syntax.Reading
import TracedScript.Proofs.Syntax.SameTokens
import TracedScript.Proofs.Syntax.Written

/-!
# What parsers pass

`Passes pre p r post`: from every cursor of which `pre` holds, the parser `p` gives a result of
which `r` holds, and then `post` holds of the cursor. So nothing is rejected. Mostly `pre` and
`post` say which tokens are ahead: `Cursor.Ahead`. There is one rule for each way to move a cursor
and for each way to put parsers together.
-/

namespace TracedScript

/-! ## The tokens ahead of a cursor -/

/-- What is seen of the tokens ahead: line breaks that do not count are passed over. -/
def LineBreaks.visible : LineBreaks → List Token → List Token
  | .significant, ts => ts
  | .ignored, ts => ts.dropWhile (· = .eol)

namespace Cursor

/-- The tokens from the cursor on. -/
def rest (c : Cursor) : List Token := (c.lexemes.toList.map (·.token)).drop c.index

/-- The cursor stands in brackets with the given treatment of line breaks, and sees the given tokens
up to the end of the program. -/
structure Ahead (mode : LineBreaks) (outer : List LineBreaks) (ts : List Token) (c : Cursor) :
    Prop where
  rest : c.rest = mode.visible ts
  ends : ts.getLast? = some .eof
  mode : c.mode = mode
  outer : c.outer = outer

variable {c : Cursor} {mode mode' : LineBreaks} {outer outer' : List LineBreaks} {t : Token}
  {ts us : List Token}

theorem lt_of_rest (h : c.rest ≠ []) : c.index < c.lexemes.size := by
  have := List.length_pos_iff.mpr h
  simp only [rest, List.length_drop, List.length_map, Array.length_toList] at this
  omega

theorem rest_of_lt (h : c.index < c.lexemes.size) :
    c.rest = c.token :: (c.rewind (c.index + 1)).rest := by
  have place : min c.index (c.lexemes.size - 1) = c.index := by omega
  have here : c.index < (c.lexemes.toList.map (·.token)).length := by simpa using h
  unfold rest
  rw [List.drop_eq_getElem_cons here]
  simp [token, current, rewind, place]

theorem rest_cons (h : c.rest = t :: ts) :
    c.token = t ∧ (c.rewind (c.index + 1)).rest = ts := by
  have bound : c.index < c.lexemes.size := lt_of_rest (h ▸ List.cons_ne_nil t ts)
  rw [rest_of_lt bound] at h
  exact List.cons_eq_cons.mp h

theorem ends_of_cons (h : (t :: ts).getLast? = some .eof) (ht : t ≠ .eof) :
    ts.getLast? = some .eof := by
  cases ts with
  | nil => exact absurd (Option.some.inj h) ht
  | cons u ts => rwa [List.getLast?_cons_cons] at h

/-- The end of the program is behind all line breaks. -/
theorem ends_of_dropWhile (h : ts.getLast? = some .eof) :
    (ts.dropWhile (· = .eol)).getLast? = some .eof := by
  induction ts with
  | nil => exact h
  | cons t ts ih =>
    by_cases ht : t = .eol
    · rw [List.dropWhile_cons_of_pos (by simpa using ht)]
      exact ih (ends_of_cons h (by simp [ht]))
    · rw [List.dropWhile_cons_of_neg (by simpa using ht)]
      exact h

theorem skipBreaks_rest (c : Cursor) (h : c.rest.getLast? = some .eof) :
    c.skipBreaks.rest = c.rest.dropWhile (· = .eol) := by
  have bound : c.index < c.lexemes.size := lt_of_rest (by rintro hr; simp [hr] at h)
  fun_induction skipBreaks c with
  | case1 c hc ih =>
    have next : (c.rewind (c.index + 1)).rest.getLast? = some .eof := by
      rw [rest_of_lt bound, hc.1] at h
      exact ends_of_cons h (by simp)
    rw [rest_of_lt bound, hc.1, List.dropWhile_cons_of_pos (by simp)]
    exact ih next hc.2
  | case2 c hc =>
    rw [rest_of_lt bound] at h ⊢
    by_cases ht : c.token = .eol
    · -- a line break can not be the last token
      have behind : (c.rewind (c.index + 1)).rest ≠ [] := by
        intro hr
        rw [hr, ht] at h
        cases h
      exact absurd ⟨ht, lt_of_rest behind⟩ hc
    · rw [List.dropWhile_cons_of_neg (by simpa using ht)]

namespace Ahead

theorem visible_cons (ht : t = .eol → mode = .significant) :
    mode.visible (t :: ts) = t :: ts := by
  cases mode with
  | significant => rfl
  | ignored =>
    have hne : t ≠ .eol := fun h => nomatch ht h
    rw [LineBreaks.visible, List.dropWhile_cons_of_neg (by simpa using hne)]

theorem token (h : c.Ahead mode outer (t :: ts)) (ht : t = .eol → mode = .significant) :
    c.token = t :=
  (rest_cons (h.rest.trans (visible_cons ht))).1

/-- Passing a token of the program while the brackets around the cursor change. -/
theorem pass (h : c.Ahead mode outer (t :: ts)) (ht : t.isContent = true) :
    Ahead mode' outer' ts (advance { c with mode := mode', outer := outer' }) := by
  have counts : t = .eol → mode = .significant := by
    rintro rfl
    cases ht
  have ends : ts.getLast? = some .eof := by
    refine ends_of_cons h.ends ?_
    rintro rfl
    cases ht
  let d : Cursor := { c with mode := mode', outer := outer' }
  let e : Cursor := d.rewind (d.index + 1)
  have next : e.rest = ts := (rest_cons (h.rest.trans (visible_cons counts))).2
  have bound : d.index + 1 < d.lexemes.size := by
    refine lt_of_rest (c := e) ?_
    rw [next]
    rintro rfl
    cases ends
  have moved : d.advance = e.skipIgnored := congrArg skipIgnored (if_pos bound)
  show Ahead mode' outer' ts d.advance
  rw [moved]
  cases mode' with
  | significant => exact ⟨next, ends, rfl, rfl⟩
  | ignored =>
    show Ahead _ _ _ e.skipBreaks
    refine ⟨?_, ends, ?_, ?_⟩
    · rw [skipBreaks_rest e (by rwa [next]), next]
      rfl
    · rw [skipBreaks_eq]
      rfl
    · rw [skipBreaks_eq]
      rfl

theorem advance (h : c.Ahead mode outer (t :: ts)) (ht : t.isContent = true) :
    c.advance.Ahead mode outer ts := by
  obtain rfl := h.mode
  obtain rfl := h.outer
  exact h.pass ht

theorem enter (h : c.Ahead mode outer (t :: ts)) (ht : t.isContent = true) :
    (c.enter mode').Ahead mode' (mode :: outer) ts := by
  obtain rfl := h.mode
  obtain rfl := h.outer
  exact h.pass ht

theorem leave (h : c.Ahead mode (mode' :: outer) (t :: ts)) (ht : t.isContent = true) :
    c.leave.Ahead mode' outer ts := by
  unfold Cursor.leave
  rw [h.outer]
  exact h.pass ht

theorem skipBreaks (h : c.Ahead mode outer ts) (hu : ts.dropWhile (· = .eol) = us) :
    Ahead mode outer us c.skipBreaks := by
  subst hu
  have ends := ends_of_dropWhile h.ends
  have rest : c.skipBreaks.rest = ts.dropWhile (· = .eol) := by
    have visible := h.rest
    cases mode with
    | significant => rw [skipBreaks_rest c (visible ▸ h.ends), visible]; rfl
    | ignored =>
      rw [skipBreaks_rest c (visible ▸ ends), visible]
      exact List.dropWhile_idempotent _ _
  refine ⟨?_, ends, ?_, ?_⟩
  · rw [rest]
    cases mode with
    | significant => rfl
    | ignored => exact (List.dropWhile_idempotent _ _).symm
  · rw [skipBreaks_eq]
    exact h.mode
  · rw [skipBreaks_eq]
    exact h.outer

/-- The first token that is no line break. -/
theorem skipBreaks_token (h : c.Ahead mode outer ts) :
    (ts.dropWhile (· = .eol)).head? = some c.skipBreaks.token := by
  have behind := h.skipBreaks rfl
  have counts := List.head?_dropWhile_not (fun t => decide (t = .eol)) ts
  cases hd : ts.dropWhile (· = .eol) with
  | nil =>
    rw [hd] at behind
    cases behind.ends
  | cons t us =>
    rw [hd] at behind counts
    have hne : t ≠ .eol := by simpa using counts
    rw [behind.token fun heol => absurd heol hne]
    rfl

end Ahead

end Cursor

/-! ## Parsers -/

namespace Parser

open TracedScript.Cursor (Ahead)

variable {α β σ ι : Type}

def Passes (pre : Cursor → Prop) (p : Parser α) (r : α → Prop) (post : Cursor → Prop) : Prop :=
  ∀ c, pre c → ∃ a d, p c = (.ok a, d) ∧ r a ∧ post d

namespace Passes

variable {pre pre' mid post : Cursor → Prop} {p : Parser α} {r : α → Prop} {q : β → Prop}

/-! ### Putting parsers together -/

theorem weaken (h : Passes pre p r post) (hpre : ∀ c, pre' c → pre c) : Passes pre' p r post :=
  fun c hc => h c (hpre c hc)

theorem imp {r' : α → Prop} (h : Passes pre p r post) (hr : ∀ a, r a → r' a) :
    Passes pre p r' post := by
  intro c hc
  obtain ⟨a, d, hpc, ha, hd⟩ := h c hc
  exact ⟨a, d, hpc, hr a ha, hd⟩

theorem pure {a : α} (h : r a) : Passes pre (pure a) r pre := fun c hc => ⟨a, c, rfl, h, hc⟩

theorem bind (hp : Passes pre p r mid) {f : α → Parser β}
    (hf : ∀ a, r a → Passes mid (f a) q post) : Passes pre (p >>= f) q post := by
  intro c hc
  obtain ⟨a, d, hpc, ha, hd⟩ := hp c hc
  rw [bind_apply, hpc]
  exact hf a ha d hd

theorem orExpected (what : String) (h : Passes pre p r post) :
    Passes pre (orExpected what p) r post := by
  intro c hc
  obtain ⟨a, d, hpc, hr⟩ := h c hc
  refine ⟨a, d, ?_, hr⟩
  unfold Parser.orExpected
  rw [hpc]

theorem cursor {f : Cursor → Parser β} (hf : ∀ c, pre c → Passes (· = c) (f c) q post) :
    Passes pre (Parser.cursor >>= f) q post := fun c hc => hf c hc c rfl

/-- Remembering where the cursor stands, without need. -/
theorem anyCursor {f : Cursor → Parser β} (hf : ∀ c, Passes pre (f c) q post) :
    Passes pre (Parser.cursor >>= f) q post := fun c hc => hf c c hc

/-- Looking past line breaks. -/
theorem lookPast (c : Cursor) :
    Passes (· = c) Parser.skipBreaks (fun _ => True) (· = c.skipBreaks) := by
  rintro _ rfl
  exact ⟨⟨⟩, _, rfl, trivial, rfl⟩

/-- Back to where line breaks were looked past. -/
theorem lookBack {c : Cursor} (hc : post c) :
    Passes (· = c.skipBreaks) (modify fun d => d.rewind c.index : Parser PUnit) (fun _ => True)
      post := by
  rintro _ rfl
  refine ⟨⟨⟩, _, rfl, trivial, ?_⟩
  show post (c.skipBreaks.rewind c.index)
  rwa [c.rewind_skipBreaks]

theorem set (c d : Cursor) : Passes (· = c) (set d : Parser PUnit) (fun _ => True) (· = d) :=
  fun _ _ => ⟨⟨⟩, d, rfl, trivial, rfl⟩

/-! ### Looking at a token -/

theorem isTrue {u : Token} (ht : ∀ c, pre c → c.token = u) {f : Bool → Parser β}
    (h : Passes pre (f true) q post) : Passes pre (Parser.is u >>= f) q post := by
  intro c hc
  show ∃ a d, f (decide (c.token = u)) c = (.ok a, d) ∧ q a ∧ post d
  rw [decide_eq_true (ht c hc)]
  exact h c hc

theorem isFalse {u : Token} (ht : ∀ c, pre c → c.token ≠ u) {f : Bool → Parser β}
    (h : Passes pre (f false) q post) : Passes pre (Parser.is u >>= f) q post := by
  intro c hc
  show ∃ a d, f (decide (c.token = u)) c = (.ok a, d) ∧ q a ∧ post d
  rw [decide_eq_false (ht c hc)]
  exact h c hc

section

variable {mode mode' : LineBreaks} {outer : List LineBreaks} {t u : Token} {ts : List Token}

theorem peek (ht : t = .eol → mode = .significant) {f : Token → Parser β}
    (hf : Passes (Ahead mode outer (t :: ts)) (f t) q post) :
    Passes (Ahead mode outer (t :: ts)) (Parser.peek >>= f) q post := by
  intro c hc
  have found := hf c hc
  rw [← hc.token ht] at found
  exact found

theorem isYes (ht : t = .eol → mode = .significant) {f : Bool → Parser β}
    (h : Passes (Ahead mode outer (t :: ts)) (f true) q post) :
    Passes (Ahead mode outer (t :: ts)) (Parser.is t >>= f) q post :=
  isTrue (fun _ hc => hc.token ht) h

theorem isNo (ht : t = .eol → mode = .significant) (hne : t ≠ u) {f : Bool → Parser β}
    (h : Passes (Ahead mode outer (t :: ts)) (f false) q post) :
    Passes (Ahead mode outer (t :: ts)) (Parser.is u >>= f) q post :=
  isFalse (fun _ hc => hc.token ht ▸ hne) h

theorem testYes (ht : t = .eol → mode = .significant) {x y : Parser β}
    (h : Passes (Ahead mode outer (t :: ts)) x q post) :
    Passes (Ahead mode outer (t :: ts)) (do if ← Parser.is t then x else y) q post := isYes ht h

theorem testNo (ht : t = .eol → mode = .significant) (hne : t ≠ u) {x y : Parser β}
    (h : Passes (Ahead mode outer (t :: ts)) y q post) :
    Passes (Ahead mode outer (t :: ts)) (do if ← Parser.is u then x else y) q post :=
  isNo ht hne h

/-! ### Moving the cursor -/

theorem advance (ht : t.isContent = true) :
    Passes (Ahead mode outer (t :: ts)) Parser.advance (fun _ => True) (Ahead mode outer ts) :=
  fun c hc => ⟨c.current, c.advance, rfl, trivial, hc.advance ht⟩

theorem skipBreaks {us : List Token} (hu : ts.dropWhile (· = .eol) = us) :
    Passes (Ahead mode outer ts) Parser.skipBreaks (fun _ => True) (Ahead mode outer us) :=
  fun c hc => ⟨⟨⟩, c.skipBreaks, rfl, trivial, hc.skipBreaks hu⟩

theorem expect (ht : t.isContent = true) (what : String) :
    Passes (Ahead mode outer (t :: ts)) (Parser.expect t what) (fun _ => True)
      (Ahead mode outer ts) := by
  refine testYes ?_ (advance ht)
  rintro rfl
  cases ht

theorem expectKeyword (k : Keyword) :
    Passes (Ahead mode outer (.keyword k :: ts)) (Parser.expectKeyword k) (fun _ => True)
      (Ahead mode outer ts) := expect rfl _

theorem expectIdentifier (name : String) :
    Passes (Ahead mode outer (.identifier name :: ts)) Parser.expectIdentifier (·.1 = name)
      (Ahead mode outer ts) := by
  intro c hc
  rw [expectIdentifier_apply, hc.token nofun]
  exact ⟨_, _, rfl, rfl, hc.advance rfl⟩

theorem enter (m : Mark) :
    Passes (Ahead mode outer (.mark m :: ts)) (Parser.enter (.mark m) mode') (fun _ => True)
      (Ahead mode' (mode :: outer) ts) := by
  intro c hc
  rw [enter_apply, hc.token nofun, if_pos rfl]
  exact ⟨_, _, rfl, trivial, hc.enter rfl⟩

theorem leave (m : Mark) (what : String) :
    Passes (Ahead mode (mode' :: outer) (.mark m :: ts)) (Parser.leave (.mark m) what)
      (fun _ => True) (Ahead mode' outer ts) := by
  intro c hc
  rw [leave_apply, hc.token nofun, if_pos rfl]
  exact ⟨_, _, rfl, trivial, hc.leave rfl⟩

/-! ### Lists -/

variable {item : σ → Parser σ} {closing : Mark} {w : ι → List Token} {R : List ι → σ → Prop}
  {x : ι} {xs all done : List ι} {acc : σ}

/-- Items between commas, written by `w`: `R` tells what has been collected of those read. The
result tells whether there was a comma. -/
theorem commaSeparated (hclosing : closing ≠ .comma)
    (starts : ∀ x ∈ xs, ∃ t ts, w x = t :: ts ∧ t.isContent = true ∧ t ≠ .mark closing)
    (step : ∀ done x later acc m ts, done ++ x :: later = all → m = .comma ∨ m = closing →
      R done acc → Passes (Ahead mode outer (w x ++ .mark m :: ts)) (item acc) (R (done ++ [x]))
        (Ahead mode outer (.mark m :: ts))) (n : Nat) (hn : xs.length < n) (h : done ++ xs = all)
    (hacc : R done acc) :
    Passes (Ahead mode outer (commaList (xs.map w) ++ .mark closing :: ts))
      (Parser.commaSeparated item closing n acc)
      (fun r => R all r.1 ∧ r.2 = decide (1 < xs.length))
      (Ahead mode outer (.mark closing :: ts)) := by
  induction xs generalizing done acc n with
  | nil =>
    obtain _ | n := n
    · cases hn
    rw [List.append_nil] at h
    exact testYes (by simp) (pure ⟨h ▸ hacc, rfl⟩)
  | cons x xs ih =>
    obtain _ | n := n
    · cases hn
    have later : (done ++ [x]) ++ xs = all := by rw [← h, List.append_assoc]; rfl
    have more := Nat.lt_of_succ_lt_succ hn
    obtain ⟨⟨t, us, hw, ht, hne⟩, starts⟩ := List.forall_mem_cons.mp starts
    have counts : t = .eol → mode = .significant := by
      rintro rfl
      cases ht
    cases xs with
    | nil =>
      have first := step done x [] acc closing ts h (.inr rfl) hacc
      rw [List.map_cons, List.map_nil, commaList, hw, List.cons_append]
      rw [hw, List.cons_append] at first
      refine testNo counts hne (first.bind fun acc hacc => ?_)
      refine testNo (by simp) (by simpa using hclosing) (testYes (by simp) (pure ⟨?_, rfl⟩))
      rwa [← later, List.append_nil]
    | cons y ys =>
      have first := step done x (y :: ys) acc .comma
        (commaList ((y :: ys).map w) ++ .mark closing :: ts) h (.inl rfl) hacc
      have written : commaList ((x :: y :: ys).map w) ++ .mark closing :: ts =
          t :: (us ++ .mark .comma :: (commaList ((y :: ys).map w) ++ .mark closing :: ts)) := by
        simp [commaList, hw]
      rw [written]
      rw [hw, List.cons_append] at first
      refine testNo counts hne (first.bind fun acc hacc => testYes (by simp) ?_)
      refine (advance (by rfl)).bind fun _ _ => (ih starts n more later hacc).bind fun r hr => ?_
      exact pure ⟨hr.1, by simp⟩

/-- A single item with a comma behind it. -/
theorem commaSeparated_single {t : Token} {us : List Token} (hne : t ≠ .mark closing)
    (ht : t.isContent = true) {r : σ → Prop}
    (step : Passes (Ahead mode outer (t :: us ++ .mark .comma :: .mark closing :: ts)) (item acc) r
      (Ahead mode outer (.mark .comma :: .mark closing :: ts))) (n : Nat) (hn : 1 < n) :
    Passes (Ahead mode outer (t :: us ++ .mark .comma :: .mark closing :: ts))
      (Parser.commaSeparated item closing n acc) (fun p => r p.1 ∧ p.2 = true)
      (Ahead mode outer (.mark closing :: ts)) := by
  obtain _ | _ | n := n
  · cases hn
  · exact absurd hn (Nat.lt_irrefl 1)
  have counts : t = .eol → mode = .significant := by
    rintro rfl
    cases ht
  refine testNo counts hne (step.bind fun acc hacc => testYes (by simp) ?_)
  have closed : Passes (Ahead mode outer (.mark closing :: ts))
      (Parser.commaSeparated item closing (n + 1) acc) (fun p => r p.1)
      (Ahead mode outer (.mark closing :: ts)) := testYes (by simp) (pure hacc)
  exact (advance (by rfl)).bind fun _ _ => closed.bind fun p hp => pure ⟨hp, rfl⟩

end

end Passes

end Parser

end TracedScript
