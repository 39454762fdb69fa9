import TracedScript.Proofs.Syntax.FirstWrong
import TracedScript.Proofs.Syntax.TwoReadings

/-!
# Two sequences of tokens with one outcome

The allowance of steps is never used up, as every sequence that ends with the end of the program has
a verdict. So `parse` gives the same for two sequences whose readings correspond:
`Parser.Pairing.parse_answers`. That is so for two layouts of the same tokens, wherever they stand:
`parse_same_tokens`.
-/

namespace TracedScript

open TracedScript.Parser (Pairing)
open TracedScript.Grammar (top programTo)

section

variable {lexemes lexemes' : List Lexeme}

/-! ## The end of the program -/

namespace Scan

/-- No text is the end of the program. -/
theorem step_ne_eof {c : Char} {rest : List Char} {n : Nat} : step c rest ≠ .token .eof n := by
  have number : numberStep c rest ≠ .token .eof n := by
    unfold numberStep
    dsimp only
    repeat' split
    all_goals nofun
  have name : nameStep c rest ≠ .token .eof n := by
    unfold nameStep
    dsimp only
    split <;> nofun
  have string : stringStep c rest ≠ .token .eof n := by
    unfold stringStep
    split <;> nofun
  have mark (second : Char) (two one : Mark) : eitherMark second two one rest ≠ .token .eof n := by
    unfold eitherMark
    repeat' split
    all_goals nofun
  have choose {p : Prop} [Decidable p] {s s' : Step} (h : s ≠ .token .eof n)
      (h' : s' ≠ .token .eof n) : (if p then s else s') ≠ .token .eof n := by
    split
    · exact h
    · exact h'
  refine choose nofun <| choose nofun <| choose number <| choose name <| choose string <|
    choose nofun <| choose ?point <| choose (mark _ _ _) <| choose (mark _ _ _) <|
    choose (mark _ _ _) <| choose (mark _ _ _) <| choose (mark _ _ _) ?single
  case point =>
    cases rest with
    | nil => nofun
    | cons d more => exact choose nofun nofun
  case single => cases singleMark? c <;> nofun

theorem eof_not_mem_of_lexemes {source : Source} {start : Nat} {behindNumber : Bool}
    {cs : List Char} {ls : List Lexeme} (h : Scan.lexemes source start behindNumber cs = .ok ls) :
    ∀ l ∈ ls, l.token ≠ .eof := by
  fun_induction Scan.lexemes source start behindNumber cs generalizing ls with
  | case1 =>
    cases h
    exact List.forall_mem_nil _
  | case2 =>
    rename_i ih
    exact ih h
  | case3 start _ c rest t more hs text stop =>
    rename_i ih
    cases hl : Scan.lexemes source stop (endsNumber t) (rest.drop more) with
    | error e =>
      rw [hl] at h
      cases h
    | ok later =>
      rw [hl] at h
      cases h
      refine List.forall_mem_cons.mpr ⟨?_, ih hl⟩
      rintro rfl
      exact step_ne_eof hs
  | case4 start behindNumber c rest more hs text =>
    rename_i ih
    cases hf : fractionLexemes source start behindNumber text with
    | error e =>
      rw [hf] at h
      cases h
    | ok here =>
      cases hl : Scan.lexemes source (start + Text.byteLength text) true (rest.drop more) with
      | error e =>
        rw [hf, hl] at h
        cases h
      | ok later =>
        rw [hf, hl] at h
        cases h
        refine List.forall_mem_append.mpr ⟨?_, ih hl⟩
        simp only [fractionLexemes] at hf
        repeat' split at hf
        all_goals cases hf
        all_goals simp
  | case5 => cases h

end Scan

theorem terminated_of_scan {source : Source} (h : scan source = .ok lexemes) :
    Terminated lexemes := by
  unfold scan at h
  cases hf : Scan.lexemes source 0 false source.chars with
  | error e =>
    rw [hf] at h
    cases h
  | ok found =>
    rw [hf] at h
    cases h
    refine ⟨found.map (·.token) ++ [.eol], by simp, fun hm => ?_⟩
    obtain hm | hm := List.mem_append.mp hm
    · obtain ⟨l, hl, ht⟩ := List.mem_map.mp hm
      exact Scan.eof_not_mem_of_lexemes hf l hl ht
    · cases List.mem_singleton.mp hm

/-! ## The allowance of steps -/

/-- Programs are read or rejected, with every allowance that is not smaller than their length. -/
theorem programTo_ends (hw : Terminated lexemes) {n : Nat} {c : Cursor}
    (hc : c.On lexemes.toArray top (lexemes.map (·.token))) (hn : lexemes.length ≤ n) :
    (programTo n c).1 ≠ .error .exhausted := by
  have long : (lexemes.map (·.token)).length ≤ n := by simpa using hn
  cases Grammar.program_verdict (k := lexemes.length) ⟨hw.ends, Nat.le_of_eq (List.length_map _)⟩ with
  | passes us rest split inside _ run =>
    rw [split] at hc long
    have ends := ends_behind (split ▸ hw.ends) inside
    obtain ⟨program, d, passed, -⟩ := run rest (.inl (.refl ends)) n _ c long hc
    simp [passed]
  | fails us vs rest t what split _ _ run =>
    rw [split] at hc long
    obtain ⟨d, failed, -⟩ := run n _ c rest long hc
    simp [failed]
  | refuses _ run =>
    obtain ⟨d, name, span, refused, -⟩ := run n _ c long hc
    simp [refused]

theorem Terminated.size_pos (hw : Terminated lexemes) : 0 < lexemes.toArray.size := by
  simpa using length_pos_of_ends hw.ends

/-- Sequences whose readings correspond have the same outcome; the second one may be longer. -/
theorem Parser.Pairing.parse_answers (P : Pairing) (hw : Terminated lexemes)
    (hlen : lexemes.length ≤ lexemes'.length)
    (start : ∀ h h', P.cursor (.start lexemes.toArray h) (.start lexemes'.toArray h')) :
    P.Answers (List.Forall₂ Node.SameTree) (parse lexemes) (parse lexemes') := by
  have size : 0 < lexemes.toArray.size := hw.size_pos
  have size' : 0 < lexemes'.toArray.size := Nat.lt_of_lt_of_le size (by simpa using hlen)
  have allowance : lexemes.toArray.size + 1 ≤ lexemes'.toArray.size + 1 := by simpa using hlen
  have here : (Cursor.start lexemes.toArray size).On lexemes.toArray top
      (lexemes.map (·.token)) := ⟨rfl, rfl, hw.ends, rfl, rfl⟩
  have ends := programTo_ends hw here (n := lexemes.toArray.size + 1) (by simp)
  rw [parse, parse, dif_pos size, dif_pos size']
  exact (Grammar.program_beside (Grammar.repeats_readTo P allowance) allowance).run
    (start size size') ends

/-- The program that a sequence of lexemes consists of does not depend on where they stand. -/
theorem parse_same_tokens (hw : Terminated lexemes)
    (h : lexemes.map (·.token) = lexemes'.map (·.token)) :
    Pairing.sameTokens.Answers (List.Forall₂ Node.SameTree) (parse lexemes) (parse lexemes') := by
  have length : lexemes.length = lexemes'.length := by simpa using congrArg List.length h
  refine Pairing.sameTokens.parse_answers hw (Nat.le_of_eq length) fun _ _ => ?_
  exact ⟨by simpa [Cursor.start] using h, rfl, rfl, rfl⟩

end

end TracedScript
