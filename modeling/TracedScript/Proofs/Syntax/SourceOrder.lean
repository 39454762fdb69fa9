import TracedScript.Proofs.Syntax.Reading
import TracedScript.Proofs.Syntax.Rows

/-!
# The order of nodes in the source

The grammar stores nodes in the order in which they stand in the source, but for argument lists:
there the options are stored behind all positional arguments, wherever they stand. So whatever is
read from a source is laid out as `Node.Tidy` says. In particular an operand that is stored before
another one also stands before it, unless it is a positional argument and the other one an option
that stands before it in the same list: `Source.sorted_of_program`. The proof follows the grammar:
each parser builds nodes from what it reads between two places.
-/

namespace TracedScript

/-! ## Blocks -/

namespace Grammar

variable {t : Tape} {g : Grammar} {i j : Nat}

/-- Whatever is read inside a construct stands where it was read, and all nodes inside are laid. -/
def Lays (t : Tape) (g : Grammar) : Prop :=
  ∀ (p : Phrase) (i : Nat), Parser.Reads t i (g.read p) (Node.Fits t i)

open TracedScript.Parser (Reads)

theorem lines_row {line : Parser Node} {last : Token} {what : String}
    (hline : ∀ i, Reads t i line (Node.Fits t i)) (n : Nat) :
    Reads t i (Parser.lines line last what n) (Node.Row t i) := by
  induction n generalizing i with
  | zero => exact .exhausted
  | succ n ih =>
    refine Reads.skipBreaks.bind fun j _ hj => .look (fun _ => rfl) fun finished => ?_
    split
    · exact .pure (.nil hj)
    refine (hline j).bind fun k first hf => ?_
    refine .look (fun _ => rfl) fun ended => .look (fun _ => rfl) fun finished => ?_
    split
    · exact ih.bind fun l rest hr => .pure (.cons (hf.widen hj (Nat.le_refl k)) hr)
    · exact .unexpected

theorem statements_row (hg : g.Lays t) (n : Nat) : Reads t i (statements g n) (Node.Row t i) := by
  rw [statements_eq]
  exact lines_row (hg .statement) n

/-- Nodes stand in a row up to a closing brace. -/
structure BlockFits (t : Tape) (i j : Nat) (body : List Node) (close : Span) : Prop where
  row : Node.Row t i close.start.index body
  stands : t.Stands close.start.index j close

namespace BlockFits

variable {h k : Nat} {body before : List Node} {close : Span}

theorem append (hs : Node.Row t i j before) (hb : BlockFits t j k body close) :
    BlockFits t i k (before ++ body) close :=
  ⟨hs.append hb.row, hb.stands⟩

/-- The nodes in front of what follows the brace. -/
theorem passed (hb : BlockFits t i j body close) : Node.Row t i j body :=
  hb.row.widen (Nat.le_refl i) hb.stands.le

end BlockFits

theorem block_fits (hg : g.Lays t) : Reads t i (block g) fun j r => BlockFits t i j r.1 r.2 := by
  refine Reads.skipBreaks.bind fun j _ hj => Reads.enter.bind fun k _ hopen => ?_
  refine (statements_row hg _).bind fun l body hb => Reads.leave.bind fun m close hclose => .pure ?_
  exact ⟨hb.widen (Nat.le_trans hj hopen.le) hclose.within.le_start, hclose.fromStart⟩

theorem condition_fits (hg : g.Lays t) : Reads t i (condition g) (Node.Fits t i) := by
  refine Reads.enter.bind fun j _ hopen => (hg .expression j).bind fun k test ht => ?_
  refine Reads.leave.bind fun l _ hclose => .pure ?_
  exact ht.widen hopen.le hclose.le

theorem target_le : Reads t i target fun j _ => i ≤ j := by
  refine .look (fun _ => rfl) fun declares => ?_
  have name : ∀ k, i ≤ k → Reads t k
      (Parser.expectIdentifier >>= fun r => return (⟨r.1, declares⟩ : Target))
      fun j _ => i ≤ j := by
    intro k hk
    exact Reads.expectIdentifier.bind fun j r hr => .pure (Nat.le_trans hk hr.le)
  split
  · exact Reads.advance.bind fun k _ hvar => name k hvar.le
  · exact name i (Nat.le_refl i)

theorem branch_fits (hg : g.Lays t) :
    Reads t i (branch g) fun j r => BlockFits t i j r.1.children r.2 := by
  refine (condition_fits hg).bind fun j test ht => (block_fits hg).bind fun k r hr => .pure ?_
  exact hr.append (.one ht)

/-! ## Function literals -/

/-- The types and defaults of what a parameter list has collected. -/
def signatureNodes (acc : List ParameterLiteral × List OptionLiteral) : List Node :=
  acc.1.flatMap (·.type.toList) ++ acc.2.map (·.default)

/-- What a parameter list has collected stands in a row, and so do the nodes in it. -/
structure SignatureFits (t : Tape) (i j : Nat)
    (acc : List ParameterLiteral × List OptionLiteral) : Prop where
  items : Span.Row i j (acc.1.map (·.span) ++ acc.2.map (·.span))
  nodes : Node.Row t i j (signatureNodes acc)

theorem SignatureFits.widen {h k : Nat} {acc : List ParameterLiteral × List OptionLiteral}
    (ha : SignatureFits t i j acc) (hi : h ≤ i) (hj : j ≤ k) : SignatureFits t h k acc :=
  ⟨ha.items.widen hi hj, ha.nodes.widen hi hj⟩

/-- An option may stand behind all that was collected, a parameter only where there is no option
yet. -/
theorem parameter_fits (hg : g.Lays t) {acc : List ParameterLiteral × List OptionLiteral}
    (h : SignatureFits t i j acc) : Reads t j (parameter g acc) (SignatureFits t i) := by
  obtain ⟨params, options⟩ := acc
  refine Reads.expectIdentifier.bind fun k r hr => .look (fun _ => rfl) fun isOption => ?_
  split
  · refine Reads.advance.bind fun l _ hequals => (hg .expression l).bind fun m default hd => ?_
    have default := hd.widen hequals.le (Nat.le_refl m)
    have items := h.items.append (.one (hr.through default.stands).within)
    have nodes := h.nodes.append (.one (default.widen hr.le (Nat.le_refl m)))
    exact .pure ⟨by simpa using items, by simpa [signatureNodes] using nodes⟩
  cases options with
  | cons option options =>
    -- a parameter behind an option is rejected
    exact Reads.throw.bind (P := fun _ _ => False) fun _ _ h => h.elim
  | nil =>
    have items := h.items.append (.one hr.within)
    have nodes := h.nodes.widen (Nat.le_refl i) hr.le
    refine .look (fun _ => rfl) fun isTyped => ?_
    split
    · refine Reads.advance.bind fun l _ hcolon => (hg .expression l).bind fun m type ht => .pure ?_
      have items := items.widen (Nat.le_refl i) (Nat.le_trans hcolon.le ht.le)
      have nodes := nodes.append (.one (ht.widen hcolon.le (Nat.le_refl m)))
      exact ⟨by simpa using items, by simpa [signatureNodes] using nodes⟩
    · exact .pure ⟨by simpa using items, by simpa [signatureNodes] using nodes⟩

theorem returnType_row (hg : g.Lays t) :
    Reads t i (returnType g) fun j r => Node.Row t i j r.toList := by
  refine Reads.get.bind ?_
  rintro _ before ⟨hb, rfl, rfl⟩
  refine Reads.skipBreaks.bind fun j _ hj => .look (fun _ => rfl) fun isArrow => ?_
  split
  · refine Reads.advance.bind fun k _ harrow => Reads.skipBreaks.bind fun l _ hl => ?_
    refine (hg .expression l).bind fun m type ht => .pure ?_
    exact .one (ht.widen (Nat.le_trans hj (Nat.le_trans harrow.le hl)) (Nat.le_refl m))
  · -- the line breaks that were passed are given back
    refine (Reads.rewind hb).bind ?_
    rintro _ - rfl
    exact .pure (.nil (Nat.le_refl _))

/-- The value of a lambda stands in place of a statement that returns it. -/
theorem lambdaBody_fits (hg : g.Lays t) :
    Reads t i (lambdaBody g) fun j r => BlockFits t i j r.1 r.2 := by
  refine Reads.skipBreaks.bind fun j _ hj => Reads.enter.bind fun k _ hopen => ?_
  refine (hg .expression k).bind fun l value hv => Reads.leave.bind fun m close hclose => .pure ?_
  have inside := hv.widen (Nat.le_trans hj hopen.le) hclose.within.le_start
  refine ⟨.one (.of_row rfl inside.stands (.one ?_)), hclose.fromStart⟩
  exact inside.fromStart.toStop

theorem function_fits (hg : g.Lays t) : Reads t i (function g) (Node.Fits t i) := by
  refine .look (fun _ => rfl) fun isLambda => Reads.advance.bind fun j start hstart => ?_
  refine Reads.enter.bind fun k _ hopen => ?_
  have nothing : SignatureFits t k k ([], []) := ⟨.nil (Nat.le_refl k), .nil (Nat.le_refl k)⟩
  refine (Reads.commaSeparated (SignatureFits t k) (fun h hle => h.widen (Nat.le_refl k) hle)
    (parameter_fits hg) _ nothing).bind ?_
  rintro l ⟨⟨params, options⟩, comma⟩ hcollected
  refine Reads.leave.bind fun m _ hclose => (returnType_row hg).bind fun n returns hreturns => ?_
  have signature := hcollected.widen hopen.le hclose.le
  have built : ∀ o (r : List Node × Span), BlockFits t n o r.1 r.2 →
      Node.Fits t i o ⟨.function ⟨params, options, returns, r.1⟩, start.span.through r.2⟩ := by
    intro o r hbody
    have row := (signature.nodes.append hreturns).append hbody.row
    have first := hstart.within.start_le
    have last := hbody.stands.within.le_stop
    have spans := hstart.through (hbody.stands.widen row.le (Nat.le_refl o))
    refine ⟨spans, .of_children ⟨spans.covers, ?_, Node.sorted_of_apart row.apart,
      List.forall_mem_nil _⟩ row.tidy⟩
    intro r hr
    obtain rfl | rfl : r = _ ∨ r = _ := by simpa [NodeKind.rows] using hr
    · have behind := Nat.le_trans hreturns.le hbody.row.le
      exact signature.items.widen first (Nat.le_trans behind last)
    · exact row.spans.widen first last
  split
  · exact (lambdaBody_fits hg).bind fun o r hbody => .pure (built o r hbody)
  · exact (block_fits hg).bind fun o r hbody => .pure (built o r hbody)

/-! ## What owns blocks -/

theorem handler_fits (hg : g.Lays t) : Reads t i (handler g) (Node.Fits t i) := by
  refine Reads.expectKeyword.bind fun j start hstart => (block_fits hg).bind fun k r hr => .pure ?_
  exact .enclosed rfl hstart hr.row hr.stands

/-- The nodes of all branches and of the last block. -/
def branchNodes (branches : List Branch) (otherwise : Option (List Node)) : List Node :=
  branches.flatMap Branch.children ++ otherwise.getD []

/-- Where no branch follows, the last closing brace stays the one behind what was read before. -/
theorem alternatives_fits (hg : g.Lays t) (n : Nat) {before : List Node} {stop : Span}
    (hs : BlockFits t i j before stop) : Reads t j (alternatives g n stop)
      fun k r => BlockFits t i k (before ++ branchNodes r.1 r.2.1) r.2.2 := by
  induction n generalizing j before stop with
  | zero => exact .exhausted
  | succ n ih =>
    refine Reads.get.bind ?_
    rintro _ c ⟨hb, rfl, rfl⟩
    refine Reads.skipBreaks.bind fun j _ hj => .look (fun _ => rfl) fun isElif => ?_
    split
    · refine Reads.advance.bind fun k _ helif => (branch_fits hg).bind fun l r hr => ?_
      have upTo := hs.passed.widen (Nat.le_refl i) (Nat.le_trans hj helif.le)
      refine (ih (hr.append upTo)).bind fun m rest hrest => .pure ?_
      simpa [branchNodes] using hrest
    refine .look (fun _ => rfl) fun isElse => ?_
    split
    · refine Reads.advance.bind fun k _ helse => (block_fits hg).bind fun l r hr => .pure ?_
      have upTo := hs.passed.widen (Nat.le_refl i) (Nat.le_trans hj helse.le)
      simpa [branchNodes] using hr.append upTo
    · refine (Reads.rewind hb).bind ?_
      rintro _ - rfl
      exact .pure (by simpa [branchNodes] using hs)

theorem conditional_fits (hg : g.Lays t) : Reads t i (conditional g) (Node.Fits t i) := by
  refine Reads.expectKeyword.bind fun j start hstart => (branch_fits hg).bind fun k first hf => ?_
  refine (alternatives_fits hg _ hf).bind fun l r hr => .pure ?_
  refine .enclosed rfl hstart ?_ hr.stands
  simpa [NodeKind.children, branchNodes] using hr.row

theorem cases_row (hg : g.Lays t) (n : Nat) :
    Reads t i (cases g n) fun j branches => Node.Row t i j (branches.flatMap Branch.children) := by
  induction n generalizing i with
  | zero => exact .exhausted
  | succ n ih =>
    refine .look (fun _ => rfl) fun isWhen => ?_
    split
    · refine Reads.advance.bind fun j _ hwhen => (branch_fits hg).bind fun k r hr => ?_
      refine ih.bind fun l rest hrest => .pure ?_
      have first := hr.passed.widen hwhen.le (Nat.le_refl k)
      simpa using first.append hrest
    · exact .pure (.nil (Nat.le_refl i))

theorem switch_fits (hg : g.Lays t) : Reads t i (switch g) (Node.Fits t i) := by
  refine Reads.expectKeyword.bind fun j start hstart => Reads.enter.bind fun k _ hopen => ?_
  refine target_le.bind fun l bound hbound => Reads.expectKeyword.bind fun m _ has => ?_
  refine (hg .expression m).bind fun n subject hsubject => Reads.leave.bind fun o _ hclose => ?_
  refine Reads.skipBreaks.bind fun p _ hp => Reads.enter.bind fun q _ hbrace => ?_
  refine (cases_row hg _).bind fun r branches hbranches => .look (fun _ => rfl) fun isElse => ?_
  have before := Nat.le_trans hopen.le (Nat.le_trans hbound has.le)
  have behind := Nat.le_trans hclose.le (Nat.le_trans hp hbrace.le)
  have upTo : Node.Row t j r (subject :: branches.flatMap Branch.children) :=
    .cons (hsubject.widen before behind) hbranches
  have ended : ∀ s (otherwise : Option (List Node)), Node.Row t r s (otherwise.getD []) →
      Reads t s (do
        let close ← Parser.leave (.mark .rbrace) "'when', 'else' or '\x7d'"
        return (⟨.switch bound subject branches otherwise, start.span.through close.span⟩ : Node))
        (Node.Fits t i) := by
    intro s otherwise ho
    exact Reads.leave.bind fun u close hend => .pure (.enclosed rfl hstart (upTo.append ho) hend)
  split
  · refine Reads.advance.bind fun s _ helse => (block_fits hg).bind fun u b hb => ?_
    exact ended u (some b.1) (hb.passed.widen helse.le (Nat.le_refl u))
  · exact ended r none (.nil (Nat.le_refl r))

theorem forLoop_fits (hg : g.Lays t) : Reads t i (forLoop g) (Node.Fits t i) := by
  refine Reads.expectKeyword.bind fun j start hstart => Reads.enter.bind fun k _ hopen => ?_
  refine target_le.bind fun l bound hbound => Reads.expectKeyword.bind fun m _ hin => ?_
  refine (hg .expression m).bind fun n iterable hi => Reads.leave.bind fun o _ hclose => ?_
  refine (block_fits hg).bind fun p r hr => .pure ?_
  have before := Nat.le_trans hopen.le (Nat.le_trans hbound hin.le)
  exact .enclosed rfl hstart (.cons (hi.widen before hclose.le) hr.row) hr.stands

theorem whileLoop_fits (hg : g.Lays t) : Reads t i (whileLoop g) (Node.Fits t i) := by
  refine Reads.expectKeyword.bind fun j start hstart => (condition_fits hg).bind fun k test ht => ?_
  refine (block_fits hg).bind fun l r hr => .pure ?_
  exact .enclosed rfl hstart (.cons ht hr.row) hr.stands

/-! ## Argument lists -/

/-- What an argument list has collected: the positional arguments stand in a row, the options too,
and no positional argument overlaps with an option. -/
structure Arguments.Laid (t : Tape) (i j : Nat) (acc : Arguments) : Prop where
  positional : Node.Row t i j acc.1
  named : Node.Row t i j (acc.2.map (·.value))
  items : Span.Row i j (acc.2.map (·.span))
  covers : ∀ a ∈ acc.2, t.Covers a.span
  apart : ∀ a ∈ acc.1, ∀ b ∈ acc.2.map (·.value), a.span.Before b.span ∨ b.span.Before a.span

namespace Arguments.Laid

variable {h k : Nat} {acc : Arguments} {n : Node}

theorem widen (ha : Laid t i j acc) (hi : h ≤ i) (hj : j ≤ k) : Laid t h k acc :=
  ⟨ha.positional.widen hi hj, ha.named.widen hi hj, ha.items.widen hi hj, ha.covers, ha.apart⟩

theorem push (ha : Laid t i j acc) (hn : n.Fits t j k) : Laid t i k (acc.1 ++ [n], acc.2) := by
  refine ⟨ha.positional.append (.one hn), ha.named.widen (Nat.le_refl i) hn.le,
    ha.items.widen (Nat.le_refl i) hn.le, ha.covers, ?_⟩
  intro a hm b hb
  obtain hm | hm := List.mem_append.mp hm
  · exact ha.apart a hm b hb
  · obtain rfl := List.mem_singleton.mp hm
    exact .inr ((ha.named.fits hb).stands.within.before hn.stands.within)

theorem pushNamed (ha : Laid t i j acc) {argument : NamedArgument}
    (hs : t.Stands j k argument.span) (hn : argument.value.Fits t j k) :
    Laid t i k (acc.1, acc.2 ++ [argument]) := by
  refine ⟨ha.positional.widen (Nat.le_refl i) hn.le, ?_, ?_, ?_, ?_⟩
  · simpa using ha.named.append (.one hn)
  · simpa using ha.items.append (.one hs.within)
  · intro a hm
    obtain hm | hm := List.mem_append.mp hm
    · exact ha.covers a hm
    · obtain rfl := List.mem_singleton.mp hm
      exact hs.covers
  · intro a hm b hb
    obtain hb | rfl : b ∈ acc.2.map (·.value) ∨ b = argument.value := by simpa using hb
    · exact ha.apart a hm b hb
    · exact .inl ((ha.positional.fits hm).stands.within.before hn.stands.within)

end Arguments.Laid

theorem namedStart_stands {c d : Cursor} {name : String} {span : Span}
    (hc : c.lexemes = t.lexemes) (h : namedStart? c = some (name, span, d)) :
    d.lexemes = t.lexemes ∧ t.Stands c.offset d.offset span := by
  unfold namedStart? at h
  split at h
  · dsimp only at h
    split at h
    · cases h
      have kept := c.advance_lexemes.trans hc
      refine ⟨c.advance.advance_lexemes.trans kept, ?_⟩
      exact (Cursor.advance_stands hc).widen (Nat.le_refl _) (Cursor.advance_stands kept).le
    · cases h
  · cases h

theorem argument_laid (hg : g.Lays t) {acc : Arguments} (h : acc.Laid t i j) :
    Reads t j (argument g acc) (Arguments.Laid t i) := by
  refine Reads.get.bind ?_
  rintro _ c ⟨hc, rfl, rfl⟩
  split
  · rename_i name span behind hn
    obtain ⟨kept, passed⟩ := namedStart_stands hc hn
    refine (Reads.set kept).bind ?_
    rintro _ - rfl
    refine (hg .expression _).bind fun k value hv => .pure ?_
    exact h.pushNamed (passed.through hv.stands) (hv.widen passed.le (Nat.le_refl k))
  · exact (hg .expression _).bind fun k value hv => .pure (h.push hv)

/-- An argument list stands where it was read, around all that it collected. -/
structure ListFits (t : Tape) (i j : Nat) (list : ArgumentList) : Prop where
  stands : t.Stands i j list.span
  laid : Arguments.Laid t list.span.start.index list.span.stop.index (list.positional, list.named)

theorem arguments_fits (hg : g.Lays t) : Reads t i (arguments g) (ListFits t i) := by
  refine Reads.enter.bind fun j start hstart => ?_
  have nothing : Arguments.Laid t j j ([], []) :=
    ⟨.nil (Nat.le_refl j), .nil (Nat.le_refl j), .nil (Nat.le_refl j), List.forall_mem_nil _,
      by simp⟩
  refine (Reads.commaSeparated (Arguments.Laid t j) (fun h hle => h.widen (Nat.le_refl j) hle)
    (argument_laid hg) _ nothing).bind ?_
  rintro k ⟨⟨positional, named⟩, comma⟩ hcollected
  refine Reads.leave.bind fun l close hclose => .pure ⟨?_, ?_⟩
  · exact hstart.through (hclose.widen hcollected.items.le (Nat.le_refl l))
  · exact hcollected.widen hstart.within.start_le hclose.within.le_stop

namespace ListFits

variable {list : ArgumentList}

theorem sorted (h : ListFits t i j list) :
    list.children.Pairwise fun a b => a.span.Before b.span ∨ list.Defers b a := by
  refine List.pairwise_append.mpr ⟨h.laid.positional.apart.imp .inl,
    h.laid.named.apart.imp .inl, fun a ha b hb => ?_⟩
  by_cases before : a.span.Before b.span
  · exact .inl before
  · exact .inr ⟨hb, ha, (h.laid.apart a ha b hb).resolve_left before, before⟩

theorem tidy (h : ListFits t i j list) : ∀ c ∈ list.children, c.Tidy t := by
  intro c hc
  obtain hc | hc := List.mem_append.mp hc
  · exact h.laid.positional.tidy c hc
  · exact h.laid.named.tidy c hc

theorem rows (h : ListFits t i j list) :
    ∀ row ∈ list.rows, Span.Row list.span.start.index list.span.stop.index row := by
  have named := h.laid.named.spans
  rw [List.map_map] at named
  intro row hr
  obtain rfl | rfl | rfl : row = _ ∨ row = _ ∨ row = _ := by
    simpa [ArgumentList.rows] using hr
  · exact h.laid.positional.spans
  · exact h.laid.items
  · exact named

theorem children_within (h : ListFits t i j list) :
    ∀ c ∈ list.children, c.span.Within i j := by
  intro c hc
  have inside : c.span.Within list.span.start.index list.span.stop.index := by
    obtain hc | hc := List.mem_append.mp hc
    · exact (h.laid.positional.fits hc).stands.within
    · exact (h.laid.named.fits hc).stands.within
  exact inside.widen h.stands.within.le_start h.stands.within.stop_le

end ListFits

/-! ## Calls, indices and attributes -/

/-- One more argument list behind all that a call consists of. -/
theorem call_push {k : Nat} {callee : Node} {lists : List ArgumentList} {list : ArgumentList}
    {s : Span} (hn : Node.Fits t i j ⟨.call callee lists, s⟩) (hl : ListFits t j k list) :
    Node.Fits t i k ⟨.call callee (lists ++ [list]), s.through list.span⟩ := by
  have children : (NodeKind.call callee (lists ++ [list])).children =
      (NodeKind.call callee lists).children ++ list.children := by
    simp [NodeKind.children]
  have laid := hn.tidy.self
  have behind : s.stop.index ≤ list.span.start.index :=
    hn.stands.within.before hl.stands.within
  have stands := hn.stands.through hl.stands
  refine ⟨stands, .of_children ⟨stands.covers, fun row hr => ?_, fun operands ho => ?_,
    fun l hm => ?_⟩ ?_⟩
  · have first := hn.stands.within.forward
    have last := hl.stands.within.forward
    obtain rfl | hr | hr := NodeKind.mem_rows_push hr
    · exact (laid.rows _ (.head _)).append (.one ⟨behind, last, Nat.le_refl _⟩)
    · exact (laid.rows row hr).widen (Nat.le_refl _) (Nat.le_trans behind last)
    · exact (hl.rows row hr).widen (Nat.le_trans first behind) (Nat.le_refl _)
  · obtain rfl : (NodeKind.call callee lists).children ++ list.children = operands := by
      rw [← children]
      exact Option.some.inj ho
    refine List.pairwise_append.mpr ⟨(laid.sorted _ rfl).imp ?_, hl.sorted.imp ?_, ?_⟩
    · rintro a b (before | ⟨l, hm, defers⟩)
      · exact .inl before
      · exact .inr ⟨l, List.mem_append_left _ hm, defers⟩
    · rintro a b (before | defers)
      · exact .inl before
      · exact .inr ⟨list, by simp, defers⟩
    · intro a ha b hb
      have inside := (laid.child ha).widen hn.stands.within.le_start hn.stands.within.stop_le
      exact .inl (inside.before (hl.children_within b hb))
  · obtain hm | hm := List.mem_append.mp hm
    · exact laid.lists l hm
    · obtain rfl := List.mem_singleton.mp hm
      exact ⟨hl.stands.covers, hl.laid.covers⟩
  · intro c hc
    rw [Node.children, children] at hc
    obtain hc | hc := List.mem_append.mp hc
    · exact hn.tidy.child hc
    · exact hl.tidy c hc

/-- Whether the list is one more of a call or the first one of a new call. -/
theorem callNode_fits {k : Nat} {callee : Node} {chaining : Bool} {list : ArgumentList}
    (hn : callee.Fits t i j) (hl : ListFits t j k list) :
    (callNode callee chaining list).Fits t i k := by
  obtain ⟨kind, span⟩ := callee
  unfold callNode
  split
  · rename_i inner lists hk
    dsimp only at hk
    subst hk
    exact call_push hn hl
  · have alone : Node.Fits t i j ⟨.call ⟨kind, span⟩ [], span⟩ :=
      .of_row rfl hn.stands (.one hn.fromStart.toStop)
    exact call_push alone hl

theorem trailers_fits (hg : g.Lays t) (n : Nat) {node : Node} {chaining : Bool}
    (hn : node.Fits t i j) : Reads t j (trailers g n node chaining) (Node.Fits t i) := by
  induction n generalizing j node chaining with
  | zero => exact .exhausted
  | succ n ih =>
    refine .look (fun _ => rfl) fun token => ?_
    split
    · exact (arguments_fits hg).bind fun k list hl => ih (callNode_fits hn hl)
    · refine Reads.enter.bind fun k _ hopen => (hg .expression k).bind fun l index hi => ?_
      refine Reads.leave.bind fun m close hclose => ih ?_
      have last := hclose.widen (Nat.le_trans hopen.le hi.le) (Nat.le_refl m)
      refine .of_row rfl (hn.stands.through last) (.cons hn.fromStart (.one ?_))
      exact hi.widen hopen.le hclose.within.le_stop
    · refine Reads.advance.bind fun k _ hperiod => Reads.expectIdentifier.bind fun l r hr => ih ?_
      have last := hr.widen hperiod.le (Nat.le_refl l)
      refine .of_row rfl (hn.stands.through last) (.one ?_)
      exact hn.fromStart.widen (Nat.le_refl _) last.within.le_stop
    · exact .pure hn

/-! ## Innermost forms -/

theorem expressions_row (hg : g.Lays t) (closing : Mark) :
    Reads t i (expressions g closing) fun j r => Node.Row t i j r.1 := by
  refine Reads.commaSeparated (Node.Row t i) (fun h hle => h.widen (Nat.le_refl i) hle) ?_ _
    (.nil (Nat.le_refl i))
  intro j acc h
  exact (hg .expression j).bind fun k n hn => .pure (h.append (.one hn))

theorem nameOrAssignment_fits (hg : g.Lays t) (name : String) :
    Reads t i (nameOrAssignment g name) (Node.Fits t i) := by
  refine Reads.advance.bind fun j start hstart => .look (fun _ => rfl) fun assigns => ?_
  split
  · refine Reads.advance.bind fun k _ hequals => (hg .expression k).bind fun l value hv => .pure ?_
    exact .prefixed rfl rfl hstart (hv.widen hequals.le (Nat.le_refl l))
  · exact .pure (.alone rfl rfl hstart)

theorem group_fits (hg : g.Lays t) : Reads t i (group g) (Node.Fits t i) := by
  refine Reads.enter.bind fun j start hstart => (expressions_row hg .rparen).bind fun k r hr => ?_
  refine Reads.leave.bind fun l close hclose => ?_
  obtain ⟨items, comma⟩ := r
  dsimp only
  split
  · exact .pure (.regroup hstart (hr.fits (List.mem_singleton.mpr rfl)) hclose)
  · exact .pure (.enclosed rfl hstart hr hclose)

theorem array_fits (hg : g.Lays t) : Reads t i (array g) (Node.Fits t i) := by
  refine Reads.enter.bind fun j start hstart => (expressions_row hg .rbracket).bind fun k r hr => ?_
  exact Reads.leave.bind fun l close hclose => .pure (.enclosed rfl hstart hr hclose)

/-- Keys and values in the order in which they are stored. -/
def entryNodes (entries : List (Node × Node)) : List Node := entries.flatMap fun e => [e.1, e.2]

theorem entry_row (hg : g.Lays t) {acc : List (Node × Node)} (h : Node.Row t i j (entryNodes acc)) :
    Reads t j (entry g acc) fun k acc => Node.Row t i k (entryNodes acc) := by
  refine (hg .expression j).bind fun k key hk => Reads.expect.bind fun l _ hcolon => ?_
  refine (hg .expression l).bind fun m value hv => .pure ?_
  have pair := (Node.Row.one hk).append (.one (hv.widen hcolon.le (Nat.le_refl m)))
  simpa [entryNodes] using h.append pair

theorem dictionary_fits (hg : g.Lays t) : Reads t i (dictionary g) (Node.Fits t i) := by
  refine Reads.enter.bind fun j start hstart => ?_
  refine (Reads.commaSeparated (fun k acc => Node.Row t j k (entryNodes acc))
    (fun h hle => h.widen (Nat.le_refl j) hle) (entry_row hg) _ (.nil (Nat.le_refl j))).bind ?_
  intro k r hr
  exact Reads.leave.bind fun l close hclose => .pure (.enclosed rfl hstart hr hclose)

theorem literal_fits {kind : NodeKind} (hk : kind.rows = [kind.children.map (·.span)])
    (hc : kind.children = []) : Reads t i (literal kind) (Node.Fits t i) :=
  Reads.advance.bind fun _ _ hhere => .pure (.alone hk hc hhere)

theorem atom_fits (hg : g.Lays t) : Reads t i (atom g) (Node.Fits t i) := by
  refine .look (fun _ => rfl) fun token => ?_
  cases token with
  | int | float | str => exact literal_fits rfl rfl
  | identifier name => exact nameOrAssignment_fits hg name
  | mark m =>
    cases m with
    | lparen => exact group_fits hg
    | lbracket => exact array_fits hg
    | lbrace => exact dictionary_fits hg
    | _ => exact .unexpected
  | keyword word =>
    cases word with
    | func | lambda => exact function_fits hg
    | handler => exact handler_fits hg
    | «if» => exact conditional_fits hg
    | switch => exact switch_fits hg
    | «for» => exact forLoop_fits hg
    | «while» => exact whileLoop_fits hg
    | _ => exact .unexpected
  | eol | eof => exact .unexpected

theorem operand_fits (hg : g.Lays t) : Reads t i (operand g) (Node.Fits t i) :=
  (atom_fits hg).bind fun _ _ hn => trailers_fits hg _ hn

/-! ## Operators -/

theorem factor_fits (hg : g.Lays t) : Reads t i (factor g) (Node.Fits t i) := by
  refine .look (fun _ => rfl) fun token => ?_
  split
  · refine Reads.advance.bind fun j start hstart => (hg .factor j).bind fun k n hn => .pure ?_
    exact .prefixed rfl rfl hstart hn
  · refine Reads.advance.bind fun j start hstart => (hg .factor j).bind fun k n hn => .pure ?_
    exact .prefixed rfl rfl hstart hn
  · exact operand_fits hg

theorem chainRest_fits {ops : List BinaryOperator} {operand : Parser Node}
    (ho : ∀ k, Reads t k operand (Node.Fits t k)) (n : Nat) {left : Node} (hl : left.Fits t i j) :
    Reads t j (chainRest ops operand n left) (Node.Fits t i) := by
  induction n generalizing j left with
  | zero => exact .exhausted
  | succ n ih =>
    refine .look (fun _ => rfl) fun token => ?_
    split
    · exact .pure hl
    split
    · refine Reads.advance.bind fun k _ hop => (ho k).bind fun l right hr => ih ?_
      have behind := hr.widen hop.le (Nat.le_refl l)
      exact .of_row rfl (hl.stands.through behind.stands) (.cons hl.fromStart (.one behind.toStop))
    · exact .pure hl

/-- A chain of operands of one strength. -/
theorem chain_fits {ops : List BinaryOperator} {first operand : Parser Node} (n : Nat)
    (hf : ∀ k, Reads t k first (Node.Fits t k)) (ho : ∀ k, Reads t k operand (Node.Fits t k)) :
    Reads t i (do chainRest ops operand n (← first)) (Node.Fits t i) :=
  (hf i).bind fun _ _ hl => chainRest_fits ho n hl

theorem raised_fits (hg : g.Lays t) (k : Nat) : Reads t k (raised g (factor g)) (Node.Fits t k) :=
  chain_fits _ (fun _ => factor_fits hg) (hg .term)

theorem term_fits (hg : g.Lays t) (k : Nat) : Reads t k (term g (factor g)) (Node.Fits t k) :=
  chain_fits _ (raised_fits hg) (raised_fits hg)

theorem sum_fits (hg : g.Lays t) (k : Nat) : Reads t k (sum g (factor g)) (Node.Fits t k) :=
  chain_fits _ (term_fits hg) (term_fits hg)

theorem comparison_fits (hg : g.Lays t) (k : Nat) :
    Reads t k (comparison g (factor g)) (Node.Fits t k) := by
  refine .look (fun _ => rfl) fun negates => ?_
  split
  · refine Reads.advance.bind fun j start hstart => (hg .comparison j).bind fun l n hn => .pure ?_
    exact .prefixed rfl rfl hstart hn
  · exact .orExpected (chain_fits _ (sum_fits hg) (sum_fits hg))

theorem logical_fits (hg : g.Lays t) : Reads t i (logical g (factor g)) (Node.Fits t i) :=
  chain_fits _ (comparison_fits hg) (comparison_fits hg)

/-! ## Statements and programs -/

theorem declaration_fits (hg : g.Lays t) : Reads t i (declaration g) (Node.Fits t i) := by
  refine Reads.expectKeyword.bind fun j start hstart => Reads.expectIdentifier.bind fun k r hr => ?_
  refine .look (fun _ => rfl) fun assigns => ?_
  split
  · refine Reads.advance.bind fun l _ hequals => (hg .expression l).bind fun m value hv => .pure ?_
    exact .prefixed rfl rfl hstart (hv.widen (Nat.le_trans hr.le hequals.le) (Nat.le_refl m))
  · exact .pure (.alone rfl rfl (hstart.through hr))

theorem expression_fits (hg : g.Lays t) : Reads t i (expression g) (Node.Fits t i) := by
  refine .look (fun _ => rfl) fun declares => ?_
  split
  · exact declaration_fits hg
  · exact .orExpected (logical_fits hg)

/-- What stands in the parentheses of a statement is all that it consists of. -/
theorem keywordStatement_fits {inside : Parser NodeKind}
    (h : ∀ i, Reads t i inside fun j kind =>
      kind.rows = [kind.children.map (·.span)] ∧ Node.Row t i j kind.children) :
    Reads t i (keywordStatement inside) (Node.Fits t i) := by
  refine Reads.advance.bind fun j start hstart => Reads.enter.bind fun k _ hopen => ?_
  refine (h k).bind fun l kind hkind => Reads.leave.bind fun m close hclose => .pure ?_
  exact .enclosed hkind.1 hstart (hkind.2.widen hopen.le (Nat.le_refl l)) hclose

theorem statement_fits (hg : g.Lays t) : Reads t i (statement g) (Node.Fits t i) := by
  refine .look (fun _ => rfl) fun token => ?_
  split
  · refine keywordStatement_fits fun i => .look (fun _ => rfl) fun empty => ?_
    split
    · exact .pure ⟨rfl, .nil (Nat.le_refl i)⟩
    · exact (hg .expression i).bind fun j value hv => .pure ⟨rfl, .one hv⟩
  · exact keywordStatement_fits fun i => (hg .expression i).bind fun j module hm =>
      .pure ⟨rfl, .one hm⟩
  · exact keywordStatement_fits fun i => .pure ⟨rfl, .nil (Nat.le_refl i)⟩
  · exact keywordStatement_fits fun i => .pure ⟨rfl, .nil (Nat.le_refl i)⟩
  · exact expression_fits hg

theorem phrase_fits (hg : g.Lays t) (p : Phrase) : Reads t i (phrase g p) (Node.Fits t i) := by
  cases p with
  | expression => exact expression_fits hg
  | statement => exact statement_fits hg
  | comparison => exact comparison_fits hg i
  | term => exact term_fits hg i
  | factor => exact factor_fits hg

/-- The grammar lays out nodes to every depth. -/
theorem lays_readTo (t : Tape) (allowance n : Nat) : Lays t ⟨allowance, readTo n⟩ := by
  induction n generalizing allowance with
  | zero => exact fun p i => .exhausted
  | succ n ih => exact fun p i => phrase_fits (ih n) p

theorem program_row (hg : g.Lays t) (n : Nat) : Reads t i (program g n) (Node.Row t i) := by
  rw [program_eq]
  exact lines_row (fun _ => statement_fits hg) n

end Grammar

/-- All statements of a program stand in a row. -/
theorem row_of_parse {lexemes : List Lexeme} {t : Tape} {statements : List Node}
    (ht : t.lexemes = lexemes.toArray) (h : parse lexemes = .ok statements) :
    ∃ i j, Node.Row t i j statements := by
  unfold parse at h
  split at h
  · rename_i nonempty
    dsimp only at h
    have reads := Grammar.program_row (i := (Cursor.start lexemes.toArray nonempty).offset)
      (Grammar.lays_readTo t (lexemes.toArray.size + 1) (lexemes.toArray.size + 1))
      (lexemes.toArray.size + 1) (Cursor.start lexemes.toArray nonempty) ht.symm rfl
    unfold Parser.run at h
    split at h
    · rename_i hp
      cases h
      exact ⟨_, _, (reads _ _ hp).2⟩
    · cases h
    · cases h
  · cases h
    exact ⟨0, 0, .nil (Nat.le_refl 0)⟩

/-- All nodes of a program are laid out on the lexemes of its source. -/
theorem Source.tidy_of_program {source : Source} {statements : List Node}
    (h : source.program = .ok statements) : ∃ t : Tape, ∀ c ∈ statements, c.Tidy t := by
  unfold Source.program at h
  cases hs : scan source with
  | error e =>
    rw [hs] at h
    cases h
  | ok found =>
    rw [hs] at h
    obtain ⟨t, ht⟩ := exists_tape_of_scan hs
    obtain ⟨i, j, row⟩ := row_of_parse ht h
    exact ⟨t, row.tidy⟩

/-- Everywhere in a program, operands are stored in source order, but for options before positional
arguments. -/
theorem Source.sorted_of_program {source : Source} {statements : List Node}
    (h : source.program = .ok statements) : ∀ c ∈ statements, c.All NodeKind.Sorted := by
  obtain ⟨t, tidy⟩ := Source.tidy_of_program h
  exact fun c hc d hd => (tidy c hc d hd).sorted

end TracedScript
