import TracedScript.Proofs.Syntax.PhraseVerdicts

/-!
# Errors point at the first wrong token

What the verdict on a whole program says about `parse`: everything in front of the token where an
error is reported can be continued to a program, and with this token no continuation is one.
-/

namespace TracedScript

open TracedScript.Parser (Anything Within Failing Passing)

/-- The end of the program stands behind everything, and nowhere else. -/
def Terminated (lexemes : List Lexeme) : Prop :=
  ∃ ts, lexemes.map (·.token) = ts ++ [.eof] ∧ .eof ∉ ts

namespace Grammar

/-- In front of everything, outside of all brackets. -/
abbrev top : Brackets := ⟨.significant, []⟩

/-- The parser of a program with any allowance. -/
def programTo (n : Nat) : Parser (List Node) := program ⟨n, readTo n⟩ n

theorem program_verdict {k : Nat} {ts : List Token} (hts : Within k ts) :
    Parser.Verdict id programTo (fun _ => True) 0 Anything (Heads (· = .eof)) top top ts := by
  have line : Parser.JudgesPhrase (k + 1) id fun n => statement ⟨n, readTo n⟩ :=
    statement_judges (ready_readTo fun i => Nat.sub_le i 1)
  have last (us : List Token) : Parser.Follows (.eof :: us) :=
    ⟨⟨_, _, rfl, nofun, nofun, nofun, nofun, nofun⟩, ⟨_, _, rfl, nofun, nofun⟩⟩
  have reads : programTo = fun n => Parser.lines (statement ⟨n, readTo n⟩) .eof "end of line" n :=
    funext fun n => program_eq _ n
  rw [reads]
  exact .lines rfl .eof nofun nofun last line (fun _ => Nat.le_refl _) (fun _ => Nat.le_refl _)
    hts.ends (Nat.le_succ k) hts.dropWhile.short fun _ _ _ => trivial

end Grammar

open Grammar (top programTo)

section

variable {lexemes before after : List Lexeme} {us rest : List Token} {t : Token} {l : Lexeme}
  {what : String} {e : SourceError}

theorem Terminated.ends (h : Terminated lexemes) :
    (lexemes.map (·.token)).getLast? = some .eof := by
  obtain ⟨ts, ht, -⟩ := h
  rw [ht]
  exact List.getLast?_concat

/-- A cursor in front of all lexemes, and the parser that `parse` starts there. -/
theorem exists_start (h : (lexemes.map (·.token)).getLast? = some .eof) : ∃ n c,
    c.On lexemes.toArray top (lexemes.map (·.token)) ∧ (lexemes.map (·.token)).length ≤ n ∧
      parse lexemes = ((programTo n).run c).1 := by
  have some := length_pos_of_ends h
  rw [List.length_map] at some
  have bound : 0 < lexemes.toArray.size := by simpa using some
  refine ⟨lexemes.toArray.size + 1, Cursor.start lexemes.toArray bound,
    ⟨rfl, rfl, h, rfl, rfl⟩, by simp, ?_⟩
  rw [parse, dif_pos bound]
  rfl

/-- What is passed up to the end is a program. -/
theorem parse_of_passing (run : Passing id programTo (fun _ => True) top top us rest)
    (hl : lexemes.map (·.token) = us ++ rest)
    (hends : (lexemes.map (·.token)).getLast? = some .eof) :
    ∃ program, parse lexemes = .ok program := by
  obtain ⟨n, c, hc, long, hp⟩ := exists_start hends
  rw [hl] at hc long
  obtain ⟨program, d, passed, -⟩ := run n _ c long hc
  refine ⟨program, ?_⟩
  rw [hp, Parser.run, passed]

/-- What is rejected is reported at the token, whatever is behind it. -/
theorem parse_of_failing (run : Failing id programTo top us t what)
    (hu : before.map (·.token) = us) (ht : l.token = t)
    (hends : ((before ++ l :: after).map (·.token)).getLast? = some .eof) :
    parse (before ++ l :: after) =
      .error ⟨.grammar, s!"Expected {what}, found {t.describe}", l.span⟩ := by
  obtain ⟨n, c, hc, long, hp⟩ := exists_start hends
  rw [List.map_append, List.map_cons, hu, ht] at hc long
  obtain ⟨d, failed, hd, rest⟩ := run n _ c _ long hc
  have place : d.index = before.length := by
    have behind := congrArg List.length rest
    have inside := Cursor.lt_of_rest (rest ▸ List.cons_ne_nil _ _)
    simp only [Cursor.rest, hd, List.length_drop, List.length_map, List.length_append,
      List.length_cons, List.size_toArray] at behind inside
    omega
  have here : d.current = l := by
    have found : d.lexemes[d.index]? = some l := by simp [hd, place]
    obtain ⟨inside, found⟩ := Array.getElem?_eq_some_iff.mp found
    unfold Cursor.current
    have first : min d.index (d.lexemes.size - 1) = d.index := by omega
    simp only [first, found]
  rw [hp, Parser.run, failed]
  show Except.error (d.unexpected what) = _
  rw [Cursor.unexpected, Cursor.token, Cursor.span, here, ht]

/-- An error is reported at the first wrong token, other than that of a parameter behind an option:
the lexemes in front of it can be continued to a program, and whatever has the same tokens up to
this one is rejected for the same reason at the same place. That includes the end of the program,
behind which nothing stands. -/
theorem errors_at_first_wrong_token (hw : Terminated lexemes) (hp : parse lexemes = .error e)
    (hm : ∀ name : String, e.message ≠ s!"Parameter '{name}' must come before options") :
    ∃ before t after, lexemes = before ++ t :: after ∧ e.span = t.span ∧
      (∃ later program, Terminated (before ++ later) ∧ parse (before ++ later) = .ok program) ∧
      ∀ before' t' after', before'.map (·.token) = before.map (·.token) → t'.token = t.token →
        Terminated (before' ++ t' :: after') →
        parse (before' ++ t' :: after') = .error ⟨e.kind, e.message, t'.span⟩ := by
  have within : Within lexemes.length (lexemes.map (·.token)) :=
    ⟨hw.ends, Nat.le_of_eq (List.length_map _)⟩
  cases Grammar.program_verdict within with
  | passes us rest split inside long run start =>
    have ends := ends_behind (split ▸ hw.ends) inside
    obtain ⟨program, accepted⟩ := parse_of_passing (run rest (.inl (.refl ends))) split hw.ends
    rw [accepted] at hp
    cases hp
  | fails us vs rest t what split inside long run complete stop start =>
    obtain ⟨before, behind, rfl, hus, hbehind⟩ := List.map_eq_append_iff.mp split
    obtain ⟨l, after, rfl, ht, -⟩ := List.map_eq_cons_iff.mp hbehind
    rw [parse_of_failing run hus ht hw.ends] at hp
    cases hp
    refine ⟨before, l, after, rfl, rfl, ?_, fun before' l' after' hus' ht' hw' => ?_⟩
    · let later : List Lexeme := (vs ++ [Token.eof]).map fun t => ⟨t, default⟩
      have tokens : (before ++ later).map (·.token) = (us ++ vs) ++ [.eof] := by
        simp [later, hus, Function.comp_def]
      have whole : Terminated (before ++ later) := ⟨us ++ vs, tokens, inside⟩
      have passed := complete [.eof] ⟨.eof, [], rfl, rfl⟩
      obtain ⟨program, accepted⟩ := parse_of_passing passed tokens whole.ends
      exact ⟨later, program, whole, accepted⟩
    · exact parse_of_failing run (hus'.trans hus) (ht'.trans ht) hw'.ends
  | refuses long run =>
    obtain ⟨n, c, hc, hn, hparse⟩ := exists_start hw.ends
    obtain ⟨d, name, span, refused, -⟩ := run n _ c hn hc
    rw [hparse, Parser.run, refused] at hp
    cases hp
    exact absurd rfl (hm name)

/-- Two operators in a row are reported at the second one. -/
theorem second_operator_rejected : ∃ lexemes e, scan ⟨"main", "x = (1 +\n* 2)"⟩ = .ok lexemes ∧
    Terminated lexemes ∧ parse lexemes = .error e ∧
    (∀ name : String, e.message ≠ s!"Parameter '{name}' must come before options") ∧
    ∃ before t after, lexemes = before ++ t :: after ∧ e.span = t.span ∧
      (∃ later program, Terminated (before ++ later) ∧ parse (before ++ later) = .ok program) ∧
      ∀ before' t' after', before'.map (·.token) = before.map (·.token) → t'.token = t.token →
        Terminated (before' ++ t' :: after') →
        parse (before' ++ t' :: after') = .error ⟨e.kind, e.message, t'.span⟩ := by
  have tokens : (scan ⟨"main", "x = (1 +\n* 2)"⟩).toOption.map (List.map (·.token)) =
      some ([.identifier "x", .mark .equals, .mark .lparen, .int 1, .mark .plus, .eol, .mark .star,
        .int 2, .mark .rparen, .eol] ++ [.eof]) := by decide +kernel
  have message : (scan ⟨"main", "x = (1 +\n* 2)"⟩).toOption.map (fun lexemes =>
      match parse lexemes with
      | .ok _ => ""
      | .error e => e.message) =
      some "Expected value, identifier, '(', '[' or '\x7b', found '*'" := by decide +kernel
  cases hs : scan ⟨"main", "x = (1 +\n* 2)"⟩ with
  | error e =>
    rw [hs] at tokens
    cases tokens
  | ok lexemes =>
    rw [hs] at tokens message
    have whole : Terminated lexemes := ⟨_, Option.some.inj tokens, by decide⟩
    cases hp : parse lexemes with
    | ok program => simp [Except.toOption, hp] at message
    | error e =>
      simp only [Except.toOption, Option.map_some, hp, Option.some.injEq] at message
      have other (name : String) :
          e.message ≠ s!"Parameter '{name}' must come before options" := by
        intro same
        have first := congrArg (fun s => s.toList.head?) (message.symm.trans same)
        simp [toString] at first
      exact ⟨lexemes, e, rfl, whole, hp, other, errors_at_first_wrong_token whole hp other⟩

end

end TracedScript
