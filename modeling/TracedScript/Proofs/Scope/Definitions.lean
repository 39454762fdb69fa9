import TracedScript.Proofs.Scope.Store

/-!
# Definitions one after another

What a list of definitions makes of the names that a scope has: a name that is new is added at the
end, and one that is there keeps its place and has the last of the values that it is given. Main
lemma: `Bindings.setAll_renewed`, for names that are defined and then given values anew.
-/

namespace TracedScript

namespace Bindings

variable {bs new : Bindings} {name : String}

/-- Gives names their values, from first to last. -/
def setAll (bs new : Bindings) : Bindings := new.foldl (fun bs b => bs.set b.1 b.2) bs

/-- The value that is given to a name last. -/
def last? (bs : Bindings) (name : String) : Option Value :=
  (bs.findRev? fun b => b.1 = name).map (·.2)

theorem last?_cons (b : String × Value) (bs : Bindings) (name : String) :
    last? (b :: bs) name = (bs.last? name).or (if b.1 = name then some b.2 else none) := by
  unfold last?
  rw [List.findRev?]
  by_cases h : b.1 = name <;> cases bs.findRev? fun b => b.1 = name <;> simp [h]

theorem last?_of_not_mem (h : name ∉ bs.map (·.1)) : bs.last? name = none := by
  induction bs with
  | nil => rfl
  | cons b bs ih =>
    rw [List.map_cons, List.mem_cons, not_or] at h
    rw [last?_cons, ih h.2, if_neg (Ne.symm h.1)]
    rfl

theorem set_of_not_mem (h : name ∉ bs.map (·.1)) (v : Value) :
    bs.set name v = bs ++ [(name, v)] := by
  induction bs with
  | nil => rfl
  | cons b bs ih =>
    rw [List.map_cons, List.mem_cons, not_or] at h
    rw [set, if_neg (Ne.symm h.1), ih h.2, List.cons_append]

theorem set_of_mem (hd : (bs.map (·.1)).Nodup) (h : name ∈ bs.map (·.1)) (v : Value) :
    bs.set name v = bs.map fun b => if b.1 = name then (b.1, v) else b := by
  induction bs with
  | nil => cases h
  | cons b bs ih =>
    rw [List.map_cons, List.nodup_cons] at hd
    rw [List.map_cons, set]
    split
    · rename_i first
      have others : ∀ c ∈ bs, (if c.1 = name then (c.1, v) else c) = c := by
        intro c hc
        apply if_neg
        rintro rfl
        exact hd.1 (first ▸ List.mem_map_of_mem hc)
      rw [first, List.map_congr_left others, List.map_id'']
      exact fun _ => rfl
    · rename_i first
      obtain h | h := List.mem_cons.mp h
      · exact absurd h.symm first
      · rw [ih hd.2 h]

theorem setAll_of_new (h : ((bs ++ new).map (·.1)).Nodup) : bs.setAll new = bs ++ new := by
  induction new generalizing bs with
  | nil => exact (List.append_nil bs).symm
  | cons b new ih =>
    have fresh : b.1 ∉ bs.map (·.1) := by
      rw [List.map_append, List.map_cons, List.nodup_append] at h
      exact fun hb => h.2.2 _ hb _ (List.mem_cons_self ..) rfl
    rw [setAll, List.foldl_cons, set_of_not_mem fresh]
    have next : bs ++ [(b.1, b.2)] ++ new = bs ++ b :: new := List.append_assoc ..
    rw [← next]
    exact ih (next ▸ h)

/-- Names that are there keep their places, and each has the value that it is given last. -/
theorem setAll_of_known (hd : (bs.map (·.1)).Nodup) (h : ∀ b ∈ new, b.1 ∈ bs.map (·.1)) :
    bs.setAll new = bs.map fun b => (b.1, (new.last? b.1).getD b.2) := by
  induction new generalizing bs with
  | nil => exact (List.map_id'' (fun _ => rfl) bs).symm
  | cons b new ih =>
    obtain ⟨hb, hnew⟩ := List.forall_mem_cons.mp h
    have set := set_of_mem hd hb b.2
    have names : (bs.set b.1 b.2).map (·.1) = bs.map (·.1) := by
      rw [set, List.map_map]
      apply List.map_congr_left
      intro c _
      dsimp only [Function.comp]
      split <;> rfl
    rw [setAll, List.foldl_cons]
    refine (ih (names ▸ hd) (names ▸ hnew)).trans ?_
    rw [set, List.map_map]
    apply List.map_congr_left
    intro c _
    rw [last?_cons, Function.comp_apply]
    by_cases same : c.1 = b.1
    · rw [if_pos same, if_pos same.symm]
      cases last? new c.1 <;> rfl
    · rw [if_neg same, if_neg (Ne.symm same), Option.or_none]

/-- Values given anew to some of the names concern no other ones. -/
theorem setAll_renewed {others : Bindings} (hd : ((others ++ bs).map (·.1)).Nodup)
    (h : ∀ b ∈ new, b.1 ∈ bs.map (·.1)) :
    setAll [] (others ++ bs ++ new) =
      others ++ bs.map fun b => (b.1, (last? new b.1).getD b.2) := by
  have two : setAll [] (others ++ bs ++ new) = (setAll [] (others ++ bs)).setAll new :=
    List.foldl_append
  have first : setAll [] (others ++ bs) = others ++ bs := setAll_of_new hd
  have known : ∀ b ∈ new, b.1 ∈ (others ++ bs).map (·.1) := by
    intro b hb
    rw [List.map_append]
    exact List.mem_append_right _ (h b hb)
  have kept : ∀ b ∈ others, (b.1, (last? new b.1).getD b.2) = b := by
    intro b hb
    have apart := List.nodup_append.mp (List.map_append ▸ hd)
    have absent : b.1 ∉ new.map (·.1) := by
      intro hn
      obtain ⟨c, hc, same⟩ := List.mem_map.mp hn
      exact apart.2.2 _ (List.mem_map_of_mem hb) _ (h c hc) same.symm
    rw [last?_of_not_mem absent]
    rfl
  rw [two, first, setAll_of_known hd known, List.map_append, List.map_congr_left kept,
    List.map_id'' fun _ => rfl]

end Bindings

namespace Store

theorem bindings_defineAll_self (s : Store) {id : ScopeId} (h : id < s.next) (bs : Bindings) :
    (s.defineAll id bs).bindings id = (s.bindings id).setAll bs := by
  induction bs generalizing s with
  | nil => rfl
  | cons b bs ih =>
    have later := ih (s.define id b.1 b.2) (by rwa [next_define])
    rwa [bindings_define_self s h] at later

end Store

end TracedScript
