import TracedScript.Proofs.Control.Visits

/-!
# Where a difference comes from

If a construct or a program ends differently under two evaluators, it makes a visit that the two end
differently: `Visit.exists_makes` and `exists_statement`. So a difference between two runs can be
followed inwards, visit by visit, to where it arises.

To find the visit, let an evaluator stop dead wherever the two differ, and leave a state there that
tells the visits apart. What such a run leaves is the first visit in which the two differ.
-/

namespace TracedScript

/-- What a run does beyond what its evaluator does for it can not tell evaluators apart: runs under
two that agree, but for ways to be stuck, agree but for these. -/
def Follows {α : Type} (run : Evaluator → Ending α) : Prop :=
  ∀ (P : Parting) (eval other : Evaluator), (∀ e m, ¬ P.stuck (.failed e) m) →
    (∀ names node stack inLoop, ((Contract.lenient P).terms names).Agree (Contract.lenient P).value
      ((Contract.lenient P).stop stack inLoop) (eval node stack inLoop)
      (other node stack inLoop)) →
    run eval = run other ∨ ∃ s, (run eval).1 = .error s ∧ P.stuck s (run eval).2

theorem Visit.follows (around : Surroundings) (n : Nat) (v : Visit) :
    Follows (v.construct around n) := by
  intro P eval other hfailed agree
  have whole : ((Contract.lenient P).terms v.machine.including).Agree (Contract.lenient P).value
      ((Contract.lenient P).stop v.stack v.inLoop)
      (Eval.construct around n eval v.node v.stack v.inLoop)
      (Eval.construct around n other v.node v.stack v.inLoop) := by
    apply Contract.agree_construct
    · trivial
    · trivial
    · exact fun b c _ => agree _ c v.stack b
    · exact fun name scope span _ _ c _ => agree _ c _ false
    · exact fun _ => ⟨trivial, fun name _ _ path text statements scope span _ _ _ c _ =>
        agree _ c _ false⟩
    · exact fun _ e m hs => absurd hs (hfailed e m)
    · exact fun _ => ⟨trivial, Nat.le_refl _, .inl rfl⟩
  exact (whole v.machine (Contract.lenient_state _)).imp_left And.left

theorem Eval.follows_program (statements : List Node) (m : Machine) :
    Follows fun eval => Eval.program eval statements m := by
  intro P eval other hfailed agree
  have whole : ((Contract.lenient P).terms m.including).Agree _ _ (Eval.program eval statements)
      (Eval.program other statements) :=
    Contract.agree_program trivial (fun _ _ c _ => agree _ c _ false)
      (.root "<program>" Machine.preludeScope .program) false
  exact (whole m (Contract.lenient_state m)).imp_left And.left

namespace Visit

/-! ## States that tell visits apart -/

/-- A state from which the visit can be told: its own state, with another number for the next
function and with one more scope, in which there are values that hold all the rest. -/
def mark (k : Nat) (w : Visit) : Machine :=
  let loop : ScopeId := if w.inLoop then 1 else 0
  let modules : List Parameter := w.machine.including.map fun name => ⟨name, none⟩
  let code : Value := .ofData (.func ⟨w.machine.nextId, modules, [], none, [w.node], loop⟩)
  let place : Value := .ofData (.exception 0 ⟨.panic, "", none, some w.stack, []⟩)
  { w.machine with
    store := ⟨w.machine.store.scopes.push ⟨[("code", code), ("place", place)], none⟩⟩
    nextId := k }

theorem eq_of_mark {k : Nat} {w u : Visit} (ha : w.allowance = u.allowance)
    (h : (w.mark k).store = (u.mark k).store) (hp : (w.mark k).printed = (u.mark k).printed) :
    w = u := by
  obtain ⟨node, stack, inLoop, ⟨⟨scopes⟩, printed, including, nextId⟩, allowance⟩ := w
  obtain ⟨node', stack', inLoop', ⟨⟨scopes'⟩, printed', including', nextId'⟩, allowance'⟩ := u
  obtain rfl : allowance = allowance' := ha
  obtain rfl : printed = printed' := hp
  obtain ⟨hscope, rfl⟩ := Array.push_eq_push.mp (Store.mk.inj h)
  simp only [Value.ofData, Scope.mk.injEq, List.cons.injEq, Prod.mk.injEq, Value.mk.injEq,
    Data.func.injEq, Function.mk.injEq, Data.exception.injEq, Failure.mk.injEq, Option.some.injEq,
    and_true, true_and] at hscope
  obtain ⟨⟨rfl, hmodules, rfl, hloop⟩, rfl⟩ := hscope
  obtain rfl : including = including' :=
    (List.map_inj_right fun _ _ h => (Parameter.mk.inj h).1).mp hmodules
  obtain rfl : inLoop = inLoop' := by
    cases inLoop <;> cases inLoop' <;> first | rfl | cases hloop
  rfl

open Classical in
/-- The evaluator that stops dead in the given visits, leaving their marks, and else does the
same. -/
noncomputable def marking (wrong : Visit → Prop) (k n : Nat) (eval : Evaluator) : Evaluator :=
  fun node stack inLoop m =>
    let w : Visit := ⟨node, stack, inLoop, m, n⟩
    if wrong w then (.error .exhausted, w.mark k) else eval node stack inLoop m

/-- By stopping dead with the mark of one of the given visits. -/
def marked (wrong : Visit → Prop) (k n : Nat) : Parting where
  stuck s m := s = .exhausted ∧
    ∃ w, wrong w ∧ w.allowance = n ∧ m.store = (w.mark k).store ∧ m.printed = (w.mark k).printed ∧
      m.nextId = k
  stuck_no_jump := by
    rintro s m ⟨rfl, -⟩
    exact id
  stuck_complete := by
    rintro s m stack span ⟨rfl, h⟩
    exact ⟨rfl, h⟩
  stuck_including _ h := h

section Marking

variable {around : Surroundings} {n k : Nat} {wrong : Visit → Prop}

/-- It agrees, but for some of the visits it stops in, with an evaluator that does the same as it
does in all the other ones. -/
theorem agree_marking {some : Visit → Prop} (hsome : ∀ w, some w → wrong w) {other : Evaluator}
    (ho : ∀ w : Visit, w.allowance = n → ¬ some w →
      w.under other = w.under (marking wrong k n (evaluate around n)))
    (names : List String) (node : Node) (stack : CallStack) (inLoop : Bool) :
    ((Contract.lenient (marked some k n)).terms names).Agree
      (Contract.lenient (marked some k n)).value
      ((Contract.lenient (marked some k n)).stop stack inLoop)
      (marking wrong k n (evaluate around n) node stack inLoop) (other node stack inLoop) := by
  intro m hm
  let w : Visit := ⟨node, stack, inLoop, m, n⟩
  have same : ¬ some w → other node stack inLoop m =
      marking wrong k n (evaluate around n) node stack inLoop m := ho w rfl
  by_cases hw : wrong w
  · have ends : marking wrong k n (evaluate around n) node stack inLoop m =
        (.error .exhausted, w.mark k) := if_pos hw
    rw [Terms.AgreeFrom, ends]
    by_cases hs : some w
    · exact .inr ⟨.exhausted, rfl, rfl, w, hs, rfl, rfl, rfl, rfl⟩
    · refine .inl ⟨?_, ⟨(Contract.lenient_state _).1, hm.2⟩, fun _ hv => ?_, fun _ hr => ?_⟩
      · rw [same hs, ends]
      · cases hv
      · cases hr
        trivial
  · have ends : marking wrong k n (evaluate around n) node stack inLoop m =
        evaluate around n node stack inLoop m := if_neg hw
    obtain ⟨-, fair⟩ | ⟨s, -, hs⟩ := Contract.free_evaluate around n node stack inLoop m
      (Contract.lenient_state m)
    · rw [Terms.AgreeFrom, same fun hs => hw (hsome w hs), ends]
      exact .inl ⟨rfl, ⟨(Contract.lenient_state _).1, fair.state.2.trans hm.2⟩, fair.value,
        fair.stop⟩
    · exact hs.elim

end Marking

end Visit

/-! ## The first difference -/

/-- If a run ends differently under another evaluator, it makes a visit that the other one ends
differently. -/
theorem Follows.exists_needs {α : Type} {run : Evaluator → Ending α} (hrun : Follows run)
    {around : Surroundings} {n : Nat} {other : Evaluator}
    (hne : run other ≠ run (evaluate around n)) :
    ∃ w : Visit, w.allowance = n ∧ w.under other ≠ w.ending around ∧
      Needs run (evaluate around n) w := by
  let eval := evaluate around n
  let wrong (w : Visit) : Prop := w.under other ≠ w.under eval
  -- a number that shows that a run has ended with a mark
  let k := (run eval).2.nextId + 1
  have nofail (some : Visit → Prop) (e : Failure) (m : Machine) :
      ¬ (Visit.marked some k n).stuck (.failed e) m := fun h => by cases h.1
  have follow (some : Visit → Prop) (other' : Evaluator) (hsome : ∀ w, some w → wrong w)
      (ho : ∀ w : Visit, w.allowance = n → ¬ some w →
        w.under other' = w.under (Visit.marking wrong k n eval)) :=
    hrun (Visit.marked some k n) (Visit.marking wrong k n eval) other' (nofail some)
      (Visit.agree_marking hsome ho)
  have right {w : Visit} (hn : w.allowance = n) (hw : ¬ wrong w) :
      w.under (Visit.marking wrong k n eval) = w.under eval := by
    subst hn
    exact if_neg hw
  have stops : ∃ s, (run (Visit.marking wrong k n eval)).1 = .error s ∧
      (Visit.marked wrong k n).stuck s (run (Visit.marking wrong k n eval)).2 := by
    have whole := follow wrong eval (fun _ => id) fun w hn hw => (right hn hw).symm
    have whole' := follow wrong other (fun _ => id) fun w hn hw =>
      (Classical.not_not.mp hw).trans (right hn hw).symm
    obtain heq | hstop := whole
    · obtain heq' | hstop := whole'
      · exact absurd (heq'.symm.trans heq) hne
      · exact hstop
    · exact hstop
  obtain ⟨s, hs, rfl, w, hw, rfl, hstore, hprinted, hid⟩ := stops
  have alike : AlikeBut w (Visit.marking (· = w) k w.allowance eval) eval :=
    fun _ _ _ _ hv => if_neg hv
  refine ⟨w, rfl, hw, _, alike, fun heq => ?_⟩
  -- stopping in this visit alone does the same, as any other one would have left another mark
  have whole := follow (fun u => wrong u ∧ u ≠ w) (Visit.marking (· = w) k w.allowance eval)
    (fun _ h => h.1) fun u hn hu => by
      obtain ⟨node, stack, inLoop, m, allowance⟩ := u
      obtain rfl : allowance = w.allowance := hn
      by_cases huw : (⟨node, stack, inLoop, m, w.allowance⟩ : Visit) = w
      · have here : wrong ⟨node, stack, inLoop, m, w.allowance⟩ := huw.symm ▸ hw
        exact (if_pos huw).trans (if_pos here).symm
      · have fine : ¬ wrong ⟨node, stack, inLoop, m, w.allowance⟩ := fun h => hu ⟨h, huw⟩
        exact (if_neg huw).trans (if_neg fine).symm
  obtain hsame | ⟨s, -, -, u, hu, hn, hstore', hprinted', -⟩ := whole
  · have later : (run eval).2.nextId = k := by
      rw [← hid, hsame, ← heq]
    exact Nat.succ_ne_self _ later.symm
  · exact hu.2 (Visit.eq_of_mark hn (hstore'.symm.trans hstore) (hprinted'.symm.trans hprinted))

/-- A construct that ends differently under another evaluator makes a visit that the other one ends
differently. -/
theorem Visit.exists_makes {around : Surroundings} {n : Nat} {v : Visit} {other : Evaluator}
    (hn : v.allowance = n + 1)
    (hne : v.construct around n other ≠ v.construct around n (evaluate around n)) :
    ∃ w, v.Makes around w ∧ w.under other ≠ w.ending around := by
  obtain ⟨w, rfl, hw, needs⟩ := (v.follows around n).exists_needs hne
  exact ⟨w, ⟨hn, needs⟩, hw⟩

/-- So does a program. -/
theorem exists_statement {around : Surroundings} {n : Nat} {statements : List Node} {m : Machine}
    {other : Evaluator}
    (hne : Eval.program other statements m ≠ Eval.program (evaluate around n) statements m) :
    ∃ w : Visit, w.allowance = n ∧ w.under other ≠ w.ending around ∧
      Needs (fun eval => Eval.program eval statements m) (evaluate around n) w :=
  (Eval.follows_program statements m).exists_needs hne

end TracedScript
