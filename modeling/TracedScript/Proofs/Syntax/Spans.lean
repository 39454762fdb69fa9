import TracedScript.Text.Source

/-!
# The order of spans

Spans that lie between two bytes, and rows of spans that do not overlap. All of it is about byte
offsets only, but for spans that lie within others: these are of the same source, too.
-/

namespace TracedScript

namespace Span

/-- The span lies between the bytes `i` and `j`. -/
structure Within (i j : Nat) (s : Span) : Prop where
  le_start : i ≤ s.start.index
  forward : s.start.index ≤ s.stop.index
  stop_le : s.stop.index ≤ j

/-- The first span ends before the second one starts. -/
def Before (s t : Span) : Prop := s.stop.index ≤ t.start.index

instance (s t : Span) : Decidable (s.Before t) :=
  inferInstanceAs (Decidable (s.stop.index ≤ t.start.index))

/-- The second span lies within the first one: in the same source, it does not start before that
and does not end behind it. -/
structure Contains (s t : Span) : Prop where
  start_source : t.start.source = s.start.source
  stop_source : t.stop.source = s.stop.source
  le_start : s.start.index ≤ t.start.index
  stop_le : t.stop.index ≤ s.stop.index

namespace Contains

variable {r s t : Span}

theorem refl (s : Span) : s.Contains s := ⟨rfl, rfl, Nat.le_refl _, Nat.le_refl _⟩

theorem trans (hs : r.Contains s) (ht : s.Contains t) : r.Contains t :=
  ⟨ht.start_source.trans hs.start_source, ht.stop_source.trans hs.stop_source,
    Nat.le_trans hs.le_start ht.le_start, Nat.le_trans ht.stop_le hs.stop_le⟩

theorem through (hs : r.Contains s) (ht : r.Contains t) : r.Contains (s.through t) :=
  ⟨hs.start_source, ht.stop_source, hs.le_start, ht.stop_le⟩

end Contains

namespace Within

variable {h i j k : Nat} {s t : Span}

theorem le (hs : s.Within i j) : i ≤ j :=
  Nat.le_trans hs.le_start (Nat.le_trans hs.forward hs.stop_le)

theorem start_le (hs : s.Within i j) : s.start.index ≤ j := Nat.le_trans hs.forward hs.stop_le

theorem le_stop (hs : s.Within i j) : i ≤ s.stop.index := Nat.le_trans hs.le_start hs.forward

theorem widen (hs : s.Within i j) (hi : h ≤ i) (hj : j ≤ k) : s.Within h k :=
  ⟨Nat.le_trans hi hs.le_start, hs.forward, Nat.le_trans hs.stop_le hj⟩

theorem before (hs : s.Within i j) (ht : t.Within j k) : s.Before t :=
  Nat.le_trans hs.stop_le ht.le_start

theorem through (hs : s.Within i j) (ht : t.Within j k) : (s.through t).Within i k :=
  ⟨hs.le_start, Nat.le_trans hs.forward (Nat.le_trans (hs.before ht) ht.forward), ht.stop_le⟩

end Within

/-- The spans lie between the bytes `i` and `j`, one behind the other. -/
structure Row (i j : Nat) (spans : List Span) : Prop where
  le : i ≤ j
  within : ∀ s ∈ spans, s.Within i j
  apart : spans.Pairwise Before

namespace Row

variable {h i j k : Nat} {s : Span} {ss ts : List Span}

theorem nil (h : i ≤ j) : Row i j [] := ⟨h, List.forall_mem_nil _, .nil⟩

theorem one (hs : s.Within i j) : Row i j [s] :=
  ⟨hs.le, by simpa using hs, List.pairwise_singleton ..⟩

theorem widen (hs : Row i j ss) (hi : h ≤ i) (hj : j ≤ k) : Row h k ss :=
  ⟨Nat.le_trans hi (Nat.le_trans hs.le hj), fun s hm => (hs.within s hm).widen hi hj, hs.apart⟩

theorem append (hs : Row i j ss) (ht : Row j k ts) : Row i k (ss ++ ts) where
  le := Nat.le_trans hs.le ht.le
  within := by
    intro s hm
    obtain hm | hm := List.mem_append.mp hm
    · exact (hs.within s hm).widen (Nat.le_refl i) ht.le
    · exact (ht.within s hm).widen hs.le (Nat.le_refl k)
  apart := List.pairwise_append.mpr ⟨hs.apart, ht.apart, fun a ha b hb =>
    (hs.within a ha).before (ht.within b hb)⟩

end Row

end Span

end TracedScript
