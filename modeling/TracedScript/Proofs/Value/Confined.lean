import TracedScript.Proofs.Value.Throughout

/-!
# Confined values

`v.Confined code scope`: of all functions and namespaces inside `v`, however deep, the bodies are
made of nodes that `code` allows and the scopes are among those that `scope` allows. This is a
modest condition, so what operations on values give is as confined as what they are given.
-/

namespace TracedScript

/-- What is asked of a content itself. -/
def Data.Allowed (code : Node → Prop) (scope : ScopeId → Prop) : Data → Prop
  | .func f => (∀ n ∈ f.body, code n) ∧ scope f.closure
  | .namespace _ id => scope id
  | _ => True

namespace Value

def Confined (code : Node → Prop) (scope : ScopeId → Prop) (v : Value) : Prop :=
  ∀ w : Value, w.Inside v → w.data.Allowed code scope

variable {code : Node → Prop} {scope : ScopeId → Prop}

theorem modest_allowed : Modest fun v => v.data.Allowed code scope where
  moved hv hd _ _ := hd ▸ hv
  plain {d} hd _ := by cases d <;> trivial

theorem confined_iff {v : Value} :
    v.Confined code scope ↔
      v.data.Allowed code scope ∧ ∀ u ∈ v.data.parts, u.Confined code scope := throughout_iff

/-- Confinement does not look at where a value has been. -/
theorem confined_of_data {v w : Value} (h : v.Confined code scope) (hd : w.data = v.data) :
    w.Confined code scope := by
  rw [confined_iff] at h ⊢
  rwa [hd]

theorem Made.confined {v : Value} (h : v.Made) : v.Confined code scope := modest_allowed.made h

namespace Confined

variable {v : Value}

theorem place (h : v.Confined code scope) (span : Span) (owner : String) :
    (v.place span owner).Confined code scope := modest_allowed.place h span owner

theorem relocate (h : v.Confined code scope) (span : Span) (owner : String) :
    (v.relocate span owner).Confined code scope := modest_allowed.relocate h span owner

theorem named (h : v.Confined code scope) (name : String) :
    (v.named name).Confined code scope := modest_allowed.named h name

theorem body {f : Function} (h : v.Confined code scope) (hd : v.data = .func f) :
    (∀ n ∈ f.body, code n) ∧ scope f.closure := by
  have := (confined_iff.mp h).1
  rwa [hd] at this

theorem default {f : Function} (h : v.Confined code scope) (hd : v.data = .func f)
    {o : OptionValue} (ho : o ∈ f.options) : o.default.Confined code scope :=
  Throughout.default h hd ho

end Confined

theorem Confined.namespace {v : Value} {name : String} {id : ScopeId}
    (h : v.Confined code scope) (hd : v.data = .namespace name id) : scope id := by
  have := (confined_iff.mp h).1
  rwa [hd] at this

end Value

/-- All values bound are confined. -/
def Bindings.Confined (code : Node → Prop) (scope : ScopeId → Prop) (bs : Bindings) : Prop :=
  ∀ b ∈ bs, b.2.Confined code scope

theorem Bindings.Confined.get? {code : Node → Prop} {scope : ScopeId → Prop} {bs : Bindings}
    (h : bs.Confined code scope) {name : String} {v : Value} (hv : bs.get? name = some v) :
    v.Confined code scope := by
  obtain ⟨b, hb, rfl⟩ := exists_mem_of_get? hv
  exact h b hb

end TracedScript
