import Mathlib.Data.List.DropRight
import TracedScript.Proofs.Value.Throughout

/-!
# Where a value has been, in order

A move puts the place that a value had behind its former ones, and drops the oldest of these if they
get too many. So however often a value moves, of all the places that it has had it remembers the
last ones, in order: `last_moves_remembered`. Each move keeps two things: the value has a place, and
it has no more former places than it can remember.
-/

namespace TracedScript

/-- What is taken from the end does not depend on what is dropped in front before. -/
theorem rtake_rtake_append {α : Type} (xs ys : List α) (n : Nat) :
    (xs.rtake n ++ ys).rtake n = (xs ++ ys).rtake n := by
  rw [List.rtake_eq_reverse_take_reverse, List.rtake_eq_reverse_take_reverse,
    List.rtake_eq_reverse_take_reverse, List.reverse_append, List.reverse_append,
    List.reverse_reverse, List.take_append, List.take_append, List.take_take,
    Nat.min_eq_left (Nat.sub_le n _)]

namespace Trace

theorem remember_eq {origin : List Hop} (h : origin.length ≤ limit) (hop : Hop) :
    remember origin hop = (origin ++ [hop]).rtake limit := by
  have length : (origin ++ [hop]).length = origin.length + 1 := List.length_append
  rw [remember, List.rtake, length]
  by_cases full : origin.length = limit
  · have room : 1 ≤ origin.length := full ▸ (by decide)
    have oldest : origin.length + 1 - limit = 1 := by omega
    rw [if_pos full, oldest, List.drop_append_of_le_length room]
  · have none : origin.length + 1 - limit = 0 := by omega
    rw [if_neg full, none, List.drop_zero]

end Trace

namespace Value

/-- The value has a place, and no more former ones than it can remember. -/
structure Placed (v : Value) : Prop where
  span : v.span.isSome = true
  owner : v.trace.owner.isSome = true
  recent : v.Recent

/-- Moves the value from place to place. -/
def relocateAll (v : Value) (moves : List Hop) : Value :=
  moves.foldl (fun w hop => w.relocate hop.span hop.display) v

variable {v : Value}

theorem Placed.provenance_eq (h : v.Placed) :
    ∃ hop : Hop, v.span = some hop.span ∧ v.trace.owner = some hop.display ∧
      v.provenance = v.origin ++ [hop] := by
  obtain ⟨span, hs⟩ := Option.isSome_iff_exists.mp h.span
  obtain ⟨owner, ho⟩ := Option.isSome_iff_exists.mp h.owner
  refine ⟨⟨span, owner⟩, hs, ho, ?_⟩
  have hs : v.trace.span = some span := hs
  rw [provenance, Trace.provenance, hs, ho]
  rfl

theorem Placed.relocate (h : v.Placed) (span : Span) (owner : String) :
    (v.relocate span owner).Placed := ⟨rfl, rfl, h.recent.relocate span owner⟩

/-- A move is remembered behind the places before it. -/
theorem Placed.provenance_relocate (h : v.Placed) (hop : Hop) :
    (v.relocate hop.span hop.display).provenance =
      (v.provenance ++ [hop]).rtake (Trace.limit + 1) := by
  obtain ⟨last, hs, ho, known⟩ := h.provenance_eq
  have former : (v.relocate hop.span hop.display).origin = Trace.remember v.origin last := by
    have hs : v.trace.span = some last.span := hs
    rw [origin, Value.relocate, Trace.relocate, hs, ho]
    rfl
  have now : (v.relocate hop.span hop.display).provenance =
      (v.relocate hop.span hop.display).origin ++ [hop] := rfl
  rw [now, former, Trace.remember_eq h.recent, known, List.rtake_concat_succ]

theorem Placed.provenance_relocateAll (h : v.Placed) (moves : List Hop) :
    (v.relocateAll moves).provenance = (v.provenance ++ moves).rtake (Trace.limit + 1) := by
  induction moves generalizing v with
  | nil =>
    obtain ⟨last, -, -, known⟩ := h.provenance_eq
    have few : v.provenance.length ≤ Trace.limit + 1 := by
      rw [known, List.length_append]
      exact Nat.add_le_add_right h.recent 1
    have all : v.provenance.length - (Trace.limit + 1) = 0 := Nat.sub_eq_zero_of_le few
    rw [List.append_nil, List.rtake, all, List.drop_zero]
    rfl
  | cons hop moves ih =>
    have later := ih (h.relocate hop.span hop.display)
    rw [h.provenance_relocate, rtake_rtake_append, List.append_assoc, List.singleton_append]
      at later
    exact later

/-- What one move leaves as it is, all moves do. -/
theorem relocateAll_keeps {α : Type} {f : Value → α}
    (hf : ∀ v span owner, f (relocate v span owner) = f v) (v : Value) (moves : List Hop) :
    f (v.relocateAll moves) = f v := by
  induction moves generalizing v with
  | nil => rfl
  | cons hop moves ih => exact (ih _).trans (hf v hop.span hop.display)

/-- No move makes a value reserved, and the first one takes the mark off. -/
theorem relocateAll_unreserved (v : Value) {moves : List Hop}
    (h : v.isReserved = false ∨ moves ≠ []) : (v.relocateAll moves).isReserved = false := by
  induction moves generalizing v with
  | nil => exact h.resolve_right (fun hne => hne rfl)
  | cons hop moves ih => exact ih _ (.inl rfl)

end Value

/-- Let a value with a place and at most 16 former places move any number of times. Then it
remembers the last 17 of all these places, the former and the first ones and those that it has moved
to, in order, each as often as it has been there. Its content and its name stay what they were, and
once it has moved it is not reserved. -/
theorem last_moves_remembered {v : Value} (hspan : v.span ≠ none) (howner : v.trace.owner ≠ none)
    (hrecent : v.origin.length ≤ 16) (moves : List Hop) :
    (v.relocateAll moves).provenance = (v.provenance ++ moves).rtake 17 ∧
    (v.relocateAll moves).data = v.data ∧ (v.relocateAll moves).name = v.name ∧
    (moves ≠ [] → (v.relocateAll moves).isReserved = false) := by
  have placed : v.Placed :=
    ⟨Option.isSome_iff_ne_none.mpr hspan, Option.isSome_iff_ne_none.mpr howner, hrecent⟩
  refine ⟨placed.provenance_relocateAll moves, ?_, ?_, ?_⟩
  · exact Value.relocateAll_keeps (f := Value.data) (fun _ _ _ => rfl) v moves
  · exact Value.relocateAll_keeps (f := Value.name) (fun _ _ _ => rfl) v moves
  · exact fun hmoved => v.relocateAll_unreserved (.inr hmoved)

/-- Of nineteen places the first two are forgotten. -/
theorem first_of_nineteen_forgotten :
    let v : Value := ⟨.bool true, ⟨some default, some "0", [], some "True", true⟩⟩
    let moves : List Hop := (List.range 18).map fun n => ⟨default, (n + 1).repr⟩
    (v.relocateAll moves).provenance.map (·.display) = (List.range 17).map (fun n => (n + 2).repr) ∧
      (v.relocateAll moves).isReserved = false := by
  intro v moves
  have span : v.span ≠ none := nofun
  have owner : v.trace.owner ≠ none := nofun
  obtain ⟨places, -, -, unreserved⟩ := last_moves_remembered span owner (by decide) moves
  constructor
  · rw [places]
    rfl
  · exact unreserved (by decide)

end TracedScript
