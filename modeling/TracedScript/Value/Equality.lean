import TracedScript.Value.Collection

/-!
# Equality of values

Values are equal if their kinds and contents are; where they have been does not matter.
Dictionaries are equal if each entry of one has an equal value under the same key of the other, and
both have as many entries. Functions, exceptions and namespaces are equal only to themselves.
-/

namespace TracedScript

mutual

def Data.same : Data → Data → Bool
  | .null, .null => true
  | .int a, .int b => a == b
  | .float x, .float y => x == y
  | .str s, .str t => s == t
  | .bool a, .bool b => a == b
  | .array xs, .array ys => Value.sameAll xs ys
  | .tuple xs, .tuple ys => Value.sameAll xs ys
  | .dict ⟨xs, _⟩, .dict d => xs.length == d.entries.length && Entry.sameIn xs d
  | .func f, .func g => f.id == g.id
  | .builtin f, .builtin g => f == g
  | .exception i _, .exception j _ => i == j
  | .namespace _ s, .namespace _ t => s == t
  | _, _ => false

/-- The operator `==`. -/
def Value.same : Value → Value → Bool
  | ⟨x, _⟩, w => x.same w.data

def Value.sameAll : List Value → List Value → Bool
  | [], [] => true
  | x :: xs, y :: ys => x.same y && Value.sameAll xs ys
  | _, _ => false

/-- Each entry has an equal value under its key in `d`. Which of the two values is compared with the
other does not matter: `Value.same_dict_turned`. -/
def Entry.sameIn : List Entry → Dictionary → Bool
  | [], _ => true
  | ⟨label, value⟩ :: xs, d =>
    (match label.key?.bind d.find? with
      | some other => value.same other.value
      | none => false) && Entry.sameIn xs d

end

end TracedScript
