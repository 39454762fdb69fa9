import TracedScript.Value.Basic

/-!
# Scopes

Levels of names, each with an enclosing one. Scopes are kept in one store and known by number, as
functions and namespaces go on using a scope that they share. A scope is made after the one that
encloses it, so every chain of enclosing scopes ends.
-/

namespace TracedScript

/-- Names with their values, in order of first definition. -/
abbrev Bindings := List (String × Value)

namespace Bindings

def get? : Bindings → String → Option Value
  | [], _ => none
  | (n, v) :: rest, name => if n = name then some v else get? rest name

/-- Gives a name a value, in the place of its former one. -/
def set : Bindings → String → Value → Bindings
  | [], name, value => [(name, value)]
  | (n, v) :: rest, name, value =>
    if n = name then (name, value) :: rest else (n, v) :: set rest name value

theorem get?_set (bs : Bindings) (name other : String) (v : Value) :
    (bs.set name v).get? other = if name = other then some v else bs.get? other := by
  induction bs with
  | nil => simp [set, get?]
  | cons b bs ih =>
    obtain ⟨n, w⟩ := b
    by_cases h : n = name
    · subst h
      by_cases ho : n = other <;> simp [set, get?, ho]
    · by_cases ho : n = other
      · subst ho
        simp [set, get?, h, Ne.symm h]
      · simp [set, get?, h, ho, ih]

/-- The names by code point. -/
def names (bs : Bindings) : List String := (bs.map (·.1)).mergeSort fun a b => !decide (b < a)

end Bindings

structure Scope where
  bindings : Bindings
  /-- The enclosing scope. -/
  parent : Option ScopeId

/-- All scopes made so far. -/
structure Store where
  scopes : Array Scope

namespace Store

def empty : Store := ⟨#[]⟩

/-- The number that the next scope will have. -/
def next (s : Store) : ScopeId := s.scopes.size

/-- Adds an empty scope. -/
def add (s : Store) (parent : Option ScopeId) : Store := ⟨s.scopes.push ⟨[], parent⟩⟩

/-- The names defined in the scope itself. -/
def bindings (s : Store) (id : ScopeId) : Bindings :=
  match s.scopes[id]? with
  | some scope => scope.bindings
  | none => []

def parent? (s : Store) (id : ScopeId) : Option ScopeId := s.scopes[id]?.bind (·.parent)

/-- The value of a name in the scope itself. -/
def local? (s : Store) (id : ScopeId) (name : String) : Option Value := (s.bindings id).get? name

/-- The scope and those that enclose it, innermost first. An enclosing scope is an older one. -/
def chain (s : Store) (id : ScopeId) : List ScopeId :=
  match s.parent? id with
  | some p => if _h : p < id then id :: chain s p else [id]
  | none => [id]
termination_by id

/-- The value of the nearest binding of a name. -/
def get? (s : Store) (id : ScopeId) (name : String) : Option Value :=
  (s.chain id).findSome? fun i => s.local? i name

/-- The scope that holds the nearest binding of a name. -/
def owner? (s : Store) (id : ScopeId) (name : String) : Option ScopeId :=
  (s.chain id).find? fun i => (s.local? i name).isSome

/-- Gives a name a value in the scope itself. -/
def define (s : Store) (id : ScopeId) (name : String) (value : Value) : Store :=
  ⟨s.scopes.modify id fun scope => { scope with bindings := scope.bindings.set name value }⟩

/-- Defines several names, from first to last. -/
def defineAll (s : Store) (id : ScopeId) (names : List (String × Value)) : Store :=
  names.foldl (fun s b => s.define id b.1 b.2) s

/-- The names of the scope itself, by code point. -/
def names (s : Store) (id : ScopeId) : List String := (s.bindings id).names

end Store

end TracedScript
