import TracedScript.Proofs.Control.Tracebacks
import TracedScript.Proofs.Run.Collections
import TracedScript.Proofs.Syntax.SourceOrder

/-!
# Failures point into the node that fails

The value of a node stands within the node, wherever its content was built. So a failure that arises
in the frame of a node points into the node, as it points at the node, at a node inside or at the
value of one. There is one exception: a tuple that is used as a key but has an item that can not be
hashed. The failure points at the item then, wherever that was produced. Main statement:
`failures_point_inside`.
-/

namespace TracedScript

/-! ## Nodes that have been read -/

/-- The node stands in a program that has been read from a source. -/
def Node.Parsed (n : Node) : Prop :=
  ∃ (source : Source) (statements : List Node), source.program = .ok statements ∧
    ∃ s ∈ statements, n.Inside s

theorem Node.Inside.of_child {n c s : Node} (hn : n.Inside s) (hc : c ∈ n.children) :
    c.Inside s := Node.Inside.trans (.child hc .refl) hn

namespace Node.Parsed

variable {n c : Node}

theorem child (h : n.Parsed) (hc : c ∈ n.children) : c.Parsed := by
  obtain ⟨source, statements, hp, s, hs, hn⟩ := h
  exact ⟨source, statements, hp, s, hs, hn.of_child hc⟩

/-- A node contains all spans that it points at by itself. -/
theorem owns (h : n.Parsed) : n.Owns n.span.Contains := by
  obtain ⟨source, statements, hp, s, hs, hn⟩ := h
  obtain ⟨t, tidy⟩ := Source.tidy_of_program hp
  have laid : n.Laid t := tidy s hs n hn
  have listed : ∀ list ∈ n.kind.lists, list.span.Within n.span.start.index n.span.stop.index ∧
      ∀ a ∈ list.named, a.span.Within n.span.start.index n.span.stop.index := by
    intro list hl
    have rows := laid.rows
    cases hk : n.kind with
    | call callee lists =>
      rw [hk] at hl rows
      refine ⟨(rows _ (.head _)).within _ (.tail _ (List.mem_map_of_mem hl)), fun a ha => ?_⟩
      have row : list.named.map (·.span) ∈ list.rows := .tail _ (.head _)
      exact (rows _ (.tail _ (List.mem_flatMap.mpr ⟨list, hl, row⟩))).within _
        (List.mem_map_of_mem ha)
    | _ =>
      rw [hk] at hl
      cases hl
  refine ⟨.refl _, fun c hc => ?_, fun list hl => ?_, fun list hl a ha => ?_,
    fun _ _ => .through⟩
  · exact laid.covers.contains (tidy s hs c (hn.of_child hc)).covers (laid.child hc)
  · exact laid.covers.contains (laid.lists list hl).1 (listed list hl).1
  · exact laid.covers.contains ((laid.lists list hl).2 a ha) ((listed list hl).2 a ha)

end Node.Parsed

/-! ## States and frames -/

namespace Visit

variable {around : Surroundings} {u w : Visit} {v : Value} {e : Failure}

/-- The visit is made as runs make them: with the built-in names in place, with nothing bound but
well-formed collections, and with scopes for all frames. -/
structure Settled (u : Visit) : Prop where
  prelude : u.machine.store.KeepsPrelude
  bindings : u.machine.store.WellFormed
  frames : ∀ f ∈ u.stack.frames, Machine.preludeScope ≠ f.scope

namespace Settled

theorem meets (h : u.Settled) : Discipline.wellFormed.Meets u.machine.store u where
  grows := .refl _
  sound := ⟨h.prelude, fun id _ b hb _ _ => (h.bindings id b hb).of_data rfl,
    fun _ _ _ _ => trivial, trivial⟩
  code := trivial
  standing := h.frames

theorem of_meets {s : Store} (h : Discipline.wellFormed.Meets s u) : u.Settled :=
  ⟨h.sound.prelude, h.sound.wellFormed, h.standing⟩

theorem makes (h : u.Settled) (hm : u.Makes around w) : w.Settled :=
  of_meets (h.meets.makes Discipline.covers_wellFormed hm)

theorem wellFormed (h : u.Settled) (hv : (u.ending around).1 = .ok v) : v.data.WellFormed := by
  have outcome : Discipline.wellFormed.Outcome u.machine.store _ (u.ending around) :=
    h.meets.ending Discipline.covers_wellFormed
  exact (outcome.value v hv).self

end Settled

/-- All visits that runs make are settled. -/
theorem settled_of_visits {m : Machine} (hm : m.Reached) {n : Nat} {name text : String}
    (h : m.Visits around n name text u) : u.Settled :=
  .of_meets (h.meets Discipline.covers_wellFormed (Discipline.wellFormed_reached hm)
    Discipline.reads_wellFormed)

/-! ## Where values stand -/

theorem exists_construct_of_ok (h : (u.ending around).1 = .ok v) : ∃ n, u.allowance = n + 1 ∧
    (u.construct around n (evaluate around n)).1 = .ok v := by
  obtain ⟨node, stack, inLoop, m, allowance⟩ := u
  cases allowance with
  | zero => cases h
  | succ n =>
    rw [ending, under, evaluate, Eval.completed, Eval.adapt_apply] at h
    cases hr : (Eval.construct around n (evaluate around n) node stack inLoop m).1 with
    | ok w =>
      rw [hr] at h
      cases h
      exact ⟨n, rfl, hr⟩
    | error s =>
      rw [hr] at h
      cases h

theorem fair_of_value {p : Value → Prop} (h : ∀ v, (u.ending around).1 = .ok v → p v) :
    Terms.any.Fair p (Stop.Fails fun _ => True) (u.ending around) := by
  refine ⟨trivial, h, fun s _ => ?_⟩
  cases s <;> trivial

/-- The value of a node stands within the node. -/
theorem Settled.stands (h : u.Settled) (hn : u.node.Parsed) (hv : (u.ending around).1 = .ok v) :
    v.Stands u.node.span.Contains := by
  generalize ha : u.allowance = n
  induction n generalizing u v with
  | zero =>
    obtain ⟨n, ha', -⟩ := exists_construct_of_ok hv
    omega
  | succ n ih =>
    have owns := hn.owns
    obtain ⟨n', ha', hc⟩ := exists_construct_of_ok hv
    obtain rfl : n' = n := by omega
    let bad (w : Visit) : Prop := w.node ∈ u.node.children ∧
      ∃ v, (w.ending around).1 = .ok v ∧ ¬ v.Given u.node.span.Contains
    obtain ⟨w, hw, hchild, v, hgives, hbad⟩ | fair :=
      u.makes_or_ends around u.node.span.Contains
        (V := fun _ v => v.Given u.node.span.Contains) (q := fun _ => True) ha' bad owns
        (fun _ _ hv => hv) (fun _ _ => trivial) (fun _ _ _ _ _ _ _ _ => trivial)
        (fun c hc b m hgood => fair_of_value fun v hv =>
          Classical.byContradiction fun hbad => hgood ⟨hc, v, hv, hbad⟩)
        (fun _ _ _ _ _ _ _ => fair_of_value fun _ _ => trivial)
    · have settled := h.makes hw
      have smaller := hw.1
      have stands := ih settled (hn.child hchild) hgives (by omega)
      refine absurd ⟨fun s hs => ?_, .inl (settled.wellFormed hgives)⟩ hbad
      exact (owns.child _ hchild).trans (stands s hs)
    · exact fair.value v hc

/-! ## Where failures point -/

/-- The failure is that of a tuple which is used as a key, by the node or inside of it, but has an
item that can not be hashed, and this item stands outside of the node that uses the tuple. -/
def BlamesItem (around : Surroundings) (u : Visit) (e : Failure) : Prop :=
  ∃ w path k v items e', Leads around u path w ∧ w.stack = u.stack ∧ w.Makes around k ∧
    k.stack = w.stack ∧ k.node ∈ w.node.kind.keys ∧ (k.ending around).1 = .ok v ∧
    v.data = .tuple items ∧ v.asKey = .error e' ∧ e = e'.complete w.stack w.node.span ∧
    ¬ v.unhashable.Stands w.node.span.Contains

theorem BlamesItem.inside (h : w.BlamesItem around e) (hm : u.Makes around w)
    (hs : w.stack = u.stack) : u.BlamesItem around e := by
  obtain ⟨w', path, k, v, items, e', hl, hw, rest⟩ := h
  exact ⟨w', u :: path, k, v, items, e', .inside hm hl, hw.trans hs, rest⟩

/-- A failure that comes from a frame further in has not arisen here. -/
theorem Fails.stack_ne (h : w.Fails around e) {name : String} {scope : ScopeId} {site : Span}
    {kind : FrameKind} (hs : w.stack = u.stack.call name scope site kind) :
    e.stack ≠ some u.stack := by
  intro he
  obtain ⟨stack, made, traced⟩ := h.exists_traced
  obtain rfl : stack = u.stack := Option.some.inj (traced.recorded.symm.trans he)
  have longer := congrArg List.length traced.frames
  rw [hs, CallStack.frames_call, List.length_append, List.length_cons] at longer
  omega

/-- A failure that has arisen in the frame of a visit points into its node. -/
theorem Settled.points_inside (h : u.Settled) (hn : u.node.Parsed) (he : u.Fails around e)
    (hs : e.stack = some u.stack) (hb : ¬ u.BlamesItem around e) :
    ∀ span, e.span = some span → u.node.span.Contains span := by
  generalize ha : u.allowance = n
  induction n generalizing u with
  | zero =>
    obtain ⟨n, -, ha', -⟩ := he.exists_construct
    omega
  | succ n ih =>
    refine Classical.byContradiction fun outside => ?_
    obtain ⟨n', e₀, ha', hc, hcomplete⟩ := he.exists_construct
    obtain rfl : n' = n := by omega
    have owns := hn.owns
    let own := u.node.span.Contains
    let q (e' : Failure) : Prop := e'.complete u.stack u.node.span ≠ e
    have local_ne (e' : Failure) (hl : e'.Local u.stack own) : q e' := by
      rintro rfl
      exact outside (hl.complete owns.self)
    let V (c : Node) (v : Value) : Prop := v.Given own ∧ (c ∈ u.node.kind.keys →
      ∀ e', v.asKey = .error e' → e = e'.complete u.stack u.node.span → v.unhashable.Stands own)
    let bad (w : Visit) : Prop :=
      w.node ∈ u.node.children ∧ w.stack = u.stack ∧
          ((∃ v, (w.ending around).1 = .ok v ∧ ¬ V w.node v) ∨ w.Fails around e) ∨
        (∃ name scope site kind, w.stack = u.stack.call name scope site kind) ∧ w.Fails around e
    obtain ⟨w, hw, hbad⟩ | fair :=
      u.makes_or_ends around own (V := V) (q := q) ha' bad owns
        (fun _ _ hv => hv.1) local_ne
        (fun k hk v _ e' hv _ hkey heq => by
          have stands := hv.2 hk e' hkey heq.symm
          exact local_ne e' ((Value.raw_of_asKey hkey stands).locally u.stack) heq)
        (fun c hc b m hgood => ⟨trivial,
          fun v hv => Classical.byContradiction fun hbad =>
            hgood (.inl ⟨hc, rfl, .inl ⟨v, hv, hbad⟩⟩),
          Visit.stop_ne (fun hf => hgood (.inl ⟨hc, rfl, .inr hf⟩)) _ _⟩)
        (fun f _ name scope c m hgood => ⟨trivial, fun _ _ => trivial,
          Visit.stop_ne (fun hf => hgood (.inr ⟨⟨name, scope, f.1, f.2, rfl⟩, hf⟩)) _ _⟩)
    · have settled := h.makes hw
      have smaller := hw.1
      obtain ⟨hchild, hstack, ⟨v, hgives, hv⟩ | hf⟩ | ⟨⟨_, _, _, _, hframe⟩, hf⟩ := hbad
      · -- the value is as it should be, but for one that is used as a key
        have within (s : Span) (hs : w.node.span.Contains s) : own s :=
          (owns.child _ hchild).trans hs
        have given : v.Given own :=
          ⟨fun s hs => within s (settled.stands (hn.child hchild) hgives s hs),
            .inl (settled.wellFormed hgives)⟩
        refine hv ⟨given, fun hkey e' hfails heq => Classical.byContradiction fun elsewhere => ?_⟩
        by_cases ht : ∃ items, v.data = .tuple items
        · obtain ⟨items, hd⟩ := ht
          exact hb ⟨u, [], w, v, items, e', .here u, rfl, hw, hstack, hkey, hgives, hd, hfails,
            heq, elsewhere⟩
        · rw [Value.unhashable_eq fun items hd => ht ⟨items, hd⟩] at elsewhere
          exact elsewhere given.stands
      · have inner := ih settled (hn.child hchild) hf (hstack ▸ hs)
          (fun hi => hb (hi.inside hw hstack)) (by omega)
        exact outside fun s hspan => (owns.child _ hchild).trans (inner s hspan)
      · exact hf.stack_ne hframe hs
    · exact fair.stop _ hc hcomplete

end Visit

/-- If a failure leaves a node of a program and has arisen in the very frame that the node is
evaluated in, it points into the node, whatever state the evaluation starts from; all evaluations
that a run makes are such. Excepted is the failure of a tuple that is used as a key, if its item
that can not be hashed stands elsewhere. -/
theorem failures_point_inside (around : Surroundings) :
    (∀ (u : Visit) (e : Failure), u.node.Parsed → u.Settled → u.Fails around e →
      e.stack = some u.stack → ¬ u.BlamesItem around e →
      ∃ span, e.span = some span ∧ u.node.span.Contains span) ∧
    ∀ m : Machine, m.Reached → ∀ n name text u, m.Visits around n name text u → u.Settled := by
  refine ⟨fun u e hn hu he hs hb => ?_, fun m hm n name text u h => Visit.settled_of_visits hm h⟩
  obtain ⟨span, hspan⟩ := Option.isSome_iff_exists.mp he.complete.1
  exact ⟨span, hspan, hu.points_inside hn he hs hb span hspan⟩

/-- What the first statement of a program fails with, if it does. -/
def firstFailure? (around : Surroundings) (n : Nat) (name text : String) : Option Failure :=
  match (Source.mk name (Text.normalize text)).program with
  | .ok (c :: _) =>
    let root : CallStack := .root "<program>" Machine.initial.store.next .program
    match (evaluate around n c root false
        { Machine.initial with
          store := Machine.initial.store.add (some Machine.preludeScope) }).1 with
    | .error (.failed e) => some e
    | _ => none
  | _ => none

theorem Value.kind_of_asKey {v : Value} {e : Failure} (h : v.asKey = .error e) :
    e.kind = .value := by
  unfold asKey at h
  split at h
  · cases h
  · cases h
    exact Failure.kind_withOrigin _ _

/-- An operator that does not fit its operands fails within the statement that it stands in. -/
theorem operation_points_inside :
    let around : Surroundings := ⟨.standard, .empty [], none⟩
    ∃ u e span, Machine.initial.Visits around 9 "main" "[1] + 2" u ∧ u.node.Parsed ∧ u.Settled ∧
      u.Fails around e ∧ e.stack = some u.stack ∧ e.span = some span ∧
      u.node.span.Contains span := by
  intro around
  have fails : (firstFailure? around 9 "main" "[1] + 2").any (fun e =>
      e.stack = some (.root "<program>" Machine.initial.store.next .program) ∧
        e.kind = .operation) = true := by decide +kernel
  unfold firstFailure? at fails
  cases hp : (Source.mk "main" (Text.normalize "[1] + 2")).program with
  | error e =>
    rw [hp] at fails
    cases fails
  | ok statements =>
    rw [hp] at fails
    cases statements with
    | nil => cases fails
    | cons c rest =>
      let u : Visit := ⟨c, .root "<program>" Machine.initial.store.next .program, false,
        { Machine.initial with store := Machine.initial.store.add (some Machine.preludeScope) }, 9⟩
      have visits : Machine.initial.Visits around 9 "main" "[1] + 2" u :=
        Machine.initial.visits_first around 9 hp
      have parsed : u.node.Parsed := ⟨_, _, hp, c, List.mem_cons_self .., .refl⟩
      have settled : u.Settled :=
        (failures_point_inside around).2 .initial .initial 9 "main" "[1] + 2" u visits
      dsimp only at fails
      split at fails
      · rename_i e he
        obtain ⟨hs, hkind⟩ := of_decide_eq_true fails
        have other : ¬ u.BlamesItem around e := by
          rintro ⟨w, path, k, v, items, e', -, -, -, -, -, -, -, hkey, rfl, -⟩
          have key := Value.kind_of_asKey hkey
          have kept : (e'.complete w.stack w.node.span).kind = e'.kind := rfl
          rw [kept, key] at hkind
          cases hkind
        obtain ⟨span, hspan, inside⟩ :=
          (failures_point_inside around).1 u e parsed settled he hs other
        exact ⟨u, e, span, visits, parsed, settled, he, hs, hspan, inside⟩
      · cases fails

/-- Of two statements the second one fails in the frame of the program, and the failure points in
front of it. -/
def secondPointsBack (around : Surroundings) (n : Nat) (name text : String) : Bool :=
  match (Source.mk name (Text.normalize text)).program with
  | .ok [c, d] =>
    let root : CallStack := .root "<program>" Machine.initial.store.next .program
    match evaluate around n c root false
        { Machine.initial with
          store := Machine.initial.store.add (some Machine.preludeScope) } with
    | (.ok _, m) =>
      match (evaluate around n d root false m).1 with
      | .error (.failed e) => e.stack = some root ∧ c.span.start.index < d.span.start.index ∧
        e.span.any (fun s => s.start.index < d.span.start.index) = true
      | _ => false
    | _ => false
  | _ => false

/-- A dictionary that uses a tuple with an array in it as a key fails where the array was written,
which may be in front of the dictionary. -/
theorem key_fails_elsewhere :
    let around : Surroundings := ⟨.standard, .empty [], none⟩
    let text := "var t = ([1],)\n\x7bt: 1\x7d"
    ∃ u e, Machine.initial.Visits around 9 "main" text u ∧ u.node.Parsed ∧ u.Settled ∧
      u.Fails around e ∧ e.stack = some u.stack ∧
      ¬ ∃ span, e.span = some span ∧ u.node.span.Contains span := by
  intro around text
  have back : secondPointsBack around 9 "main" text = true := by decide +kernel
  unfold secondPointsBack at back
  split at back
  · rename_i c d hp
    dsimp only at back
    split at back
    · rename_i v m hc
      split at back
      · rename_i e he
        obtain ⟨hs, hlt, hspan⟩ := of_decide_eq_true back
        let u : Visit := ⟨d, .root "<program>" Machine.initial.store.next .program, false, m, 9⟩
        have visits : Machine.initial.Visits around 9 "main" text u := by
          have split : (Source.mk "main" (Text.normalize text)).program = .ok ([c] ++ d :: []) := hp
          have other : d ∉ [c] := by
            intro hm
            rw [List.mem_singleton.mp hm] at hlt
            exact Nat.lt_irrefl _ hlt
          have first : ([c].mapM fun b => evaluate around 9 b
              (.root "<program>" Machine.initial.store.next .program) false)
              { Machine.initial with
                store := Machine.initial.store.add (some Machine.preludeScope) } =
              (.ok [v], m) := by
            rw [List.mapM_cons, Eval.bind_apply, hc]
            rfl
          exact Machine.initial.visits_statement around 9 split other first
        refine ⟨u, e, visits, ⟨_, _, hp, d, by simp, .refl⟩, .of_meets (visits.meets
          Discipline.covers_wellFormed (Discipline.wellFormed_reached .initial)
          Discipline.reads_wellFormed), he, hs, ?_⟩
        rintro ⟨span, hfound, inside⟩
        rw [hfound] at hspan
        exact Nat.not_lt.mpr inside.le_start (of_decide_eq_true hspan)
      · cases back
    · cases back
  · cases back

end TracedScript
