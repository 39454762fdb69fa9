import TracedScript.Proofs.Run.SideBySide

/-!
# How programs end alike

What two programs end with, up to what corresponds: values one by one, the errors of texts that can
not be read, or the failures of programs that run. Programs whose statements correspond end so,
from states that are alike: `Machine.run_like`.
-/

namespace TracedScript

/-- What a program ends with. -/
abbrev Outcome := Except ProgramError (List Value)

/-- The failure that a program ended with. -/
def Outcome.failure? : Outcome → Option Failure
  | .error (.failure e) => some e
  | _ => none

/-- Two programs end in the same way, with what is related. -/
inductive Outcome.Like (source : SourceError → SourceError → Prop) (value : Value → Value → Prop)
    (failure : Failure → Failure → Prop) : Outcome → Outcome → Prop where
  | values {vs vs' : List Value} : List.Forall₂ value vs vs' →
    Like source value failure (.ok vs) (.ok vs')
  | source {e e' : SourceError} : source e e' →
    Like source value failure (.error (.source e)) (.error (.source e'))
  | failure {e e' : Failure} : failure e e' →
    Like source value failure (.error (.failure e)) (.error (.failure e'))
  | unfinished : Like source value failure (.error .unfinished) (.error .unfinished)

variable {source : SourceError → SourceError → Prop} {value value' : Value → Value → Prop}
  {failure failure' : Failure → Failure → Prop}

theorem Outcome.Like.weaken {r r' : Outcome} (h : Like source value failure r r')
    (hv : ∀ v w, value v w → value' v w) (hf : ∀ e e', failure e e' → failure' e e') :
    Like source value' failure' r r' := by
  cases h with
  | values h => exact .values (h.imp hv)
  | source h => exact .source h
  | failure h => exact .failure (hf _ _ h)
  | unfinished => exact .unfinished

namespace Ending.Like

variable {K : Likeness}

theorem ofStop {s s' : Stop} (h : s.Like K s') :
    Outcome.Like source value (Failure.Like K) (.error (.ofStop s)) (.error (.ofStop s')) := by
  have escaped := h.escaped
  unfold ProgramError.ofStop
  generalize s.escaped = t at escaped ⊢
  generalize s'.escaped = t' at escaped ⊢
  cases escaped with
  | failed he => exact .failure he
  | returned | broke | continued | exhausted => exact .unfinished

theorem attempt {m m' : Machine} {x y : Eval (List Value)}
    (h : Ending.Like K (List.Forall₂ (Value.Like K)) (x m) (y m')) :
    Outcome.Like source (Value.Like K) (Failure.Like K) (m.attempt x).1 (m'.attempt y).1 ∧
      (m.attempt x).2.Like K (m'.attempt y).2 := by
  unfold Machine.attempt
  generalize x m = r at h ⊢
  generalize y m' = r' at h ⊢
  cases h with
  | ok hvs hm => exact ⟨.values hvs, hm⟩
  | error hs hm => exact ⟨ofStop hs, hm⟩

end Ending.Like

/-- Programs whose statements correspond end alike, and leave states that are alike. -/
theorem Machine.run_like {K : Likeness} {around around' : Surroundings}
    (ho : K.forever.Around around around') {m m' : Machine} (hm : m.Like K m') (n : Nat)
    {name text name' text' : String} {statements statements' : List Node}
    (hp : (Source.mk name (Text.normalize text)).program = .ok statements)
    (hp' : (Source.mk name' (Text.normalize text')).program = .ok statements')
    (hs : List.Forall₂ K.code statements statements') :
    Outcome.Like source (Value.Like K) (Failure.Like K) (m.run around n name text).1
        (m'.run around' n name' text').1 ∧
      (m.run around n name text).2.Like K (m'.run around' n name' text').2 := by
  rw [run_of_program m around n hp, run_of_program m' around' n hp']
  exact ((Comparison.beside_program ho n hs).ending hm).attempt

end TracedScript
