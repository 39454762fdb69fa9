import Mathlib.Data.List.Basic
import TracedScript.Proofs.Syntax.Enclosed

/-!
# How operators group

What a row of operands with operators between them means, as a tree that is told from the whole row:
the last operator of the weakest strength splits it, and the first `^` takes everything behind it as
its exponent. The tree has the operands and operators of the row in their order: `listed_ofRow`.
-/

namespace TracedScript

/-- Operands that are grouped by operators. An operand may itself be an operation in parentheses. -/
inductive Grouping where
  | operand (e : Node)
  | operation (left : Grouping) (op : BinaryOperator) (right : Grouping)

/-- Operators, each with the operand behind it. -/
abbrev Operations := List (BinaryOperator × Node)

namespace Grouping

def node : Grouping → Node
  | operand e => e
  | operation left op right => Grammar.binaryNode left.node op right.node

/-- The first operand, and what is behind it, from left to right. -/
def listed : Grouping → Node × Operations
  | operand e => (e, [])
  | operation left op right =>
    (left.listed.1, left.listed.2 ++ (op, right.listed.1) :: right.listed.2)

/-! ## Splitting a row -/

/-- The last operator of which the condition holds, with what is before it, the operand behind it
and what is behind that. -/
def splitLast? (p : BinaryOperator → Bool) :
    Operations → Option (Operations × BinaryOperator × Node × Operations)
  | [] => none
  | (op, e) :: rest =>
    match splitLast? p rest with
    | some (before, op', e', behind) => some ((op, e) :: before, op', e', behind)
    | none => if p op then some ([], op, e, rest) else none

/-- At the last `and` or `or`, else at the last comparison, else at the last `+` or `-`. -/
def splitWeakest? (rest : Operations) : Option (Operations × BinaryOperator × Node × Operations) :=
  [0, 1, 2].findSome? fun strength => splitLast? (·.strength == strength) rest

/-- What is before the first `^`, the operand behind it and what is behind that. -/
def splitPower? : Operations → Option (Operations × Node × Operations)
  | [] => none
  | (op, e) :: rest =>
    if op = .power then some ([], e, rest)
    else (splitPower? rest).map fun (before, e', behind) => ((op, e) :: before, e', behind)

variable {p : BinaryOperator → Bool} {before behind rest : Operations} {op : BinaryOperator}
  {e e' : Node}

theorem eq_of_splitLast? (h : splitLast? p rest = some (before, op, e, behind)) :
    rest = before ++ (op, e) :: behind := by
  induction rest generalizing before with
  | nil => cases h
  | cons o rest ih =>
    rw [splitLast?] at h
    split at h
    · rename_i found
      cases h
      rw [ih found]
      rfl
    · split at h <;> cases h
      rfl

theorem splitLast?_eq_none (h : ∀ o ∈ rest, p o.1 = false) : splitLast? p rest = none := by
  induction rest with
  | nil => rfl
  | cons o rest ih =>
    obtain ⟨first, later⟩ := List.forall_mem_cons.mp h
    rw [splitLast?, ih later]
    simp [first]

theorem splitLast?_append (hop : p op = true) (h : ∀ o ∈ behind, p o.1 = false) :
    splitLast? p (before ++ (op, e) :: behind) = some (before, op, e, behind) := by
  induction before with
  | nil =>
    rw [List.nil_append, splitLast?, splitLast?_eq_none h]
    simp [hop]
  | cons o before ih =>
    rw [List.cons_append, splitLast?, ih]

theorem eq_of_splitWeakest? (h : splitWeakest? rest = some (before, op, e, behind)) :
    rest = before ++ (op, e) :: behind := by
  obtain ⟨strength, -, found⟩ := List.exists_of_findSome?_eq_some h
  exact eq_of_splitLast? found

/-- An operator splits the row if nothing before it binds more weakly, and everything behind it
binds more strongly. -/
theorem splitWeakest?_append (hop : op.strength ≤ 2) (hb : ∀ o ∈ before, op.strength ≤ o.1.strength)
    (hl : ∀ o ∈ behind, op.strength < o.1.strength) :
    splitWeakest? (before ++ (op, e) :: behind) = some (before, op, e, behind) := by
  have here : splitLast? (·.strength == op.strength) (before ++ (op, e) :: behind) =
      some (before, op, e, behind) := by
    refine splitLast?_append (by simp) fun o ho => ?_
    have := hl o ho
    simp
    omega
  have weaker (s : Nat) (hs : s < op.strength) :
      splitLast? (·.strength == s) (before ++ (op, e) :: behind) = none := by
    refine splitLast?_eq_none fun o ho => ?_
    simp only [List.mem_append, List.mem_cons] at ho
    obtain ho | rfl | ho := ho
    · have := hb o ho
      simp
      omega
    · simp
      omega
    · have := hl o ho
      simp
      omega
  unfold splitWeakest?
  generalize op.strength = s at hop here weaker
  obtain rfl | rfl | rfl : s = 0 ∨ s = 1 ∨ s = 2 := by omega
  · simp [here]
  · simp [here, weaker]
  · simp [here, weaker]

theorem splitWeakest?_eq_none (h : ∀ o ∈ rest, 3 ≤ o.1.strength) : splitWeakest? rest = none := by
  have none (s : Nat) (hs : s ≤ 2) : splitLast? (·.strength == s) rest = none := by
    refine splitLast?_eq_none fun o ho => ?_
    have := h o ho
    simp
    omega
  simp [splitWeakest?, none]

theorem eq_of_splitPower? (h : splitPower? rest = some (before, e, behind)) :
    rest = before ++ (.power, e) :: behind := by
  induction rest generalizing before with
  | nil => cases h
  | cons o rest ih =>
    rw [splitPower?] at h
    split at h
    · rename_i hop
      cases h
      rw [List.nil_append, ← hop]
    · obtain ⟨⟨later, e', behind'⟩, found, h⟩ := Option.map_eq_some_iff.mp h
      cases h
      rw [ih found]
      rfl

theorem splitPower?_eq_none (h : ∀ o ∈ rest, o.1 ≠ .power) : splitPower? rest = none := by
  induction rest with
  | nil => rfl
  | cons o rest ih =>
    obtain ⟨first, later⟩ := List.forall_mem_cons.mp h
    rw [splitPower?, if_neg first, ih later]
    rfl

theorem splitPower?_append (h : ∀ o ∈ before, o.1 ≠ .power) :
    splitPower? (before ++ (.power, e) :: behind) = some (before, e, behind) := by
  induction before with
  | nil => rfl
  | cons o before ih =>
    obtain ⟨first, later⟩ := List.forall_mem_cons.mp h
    rw [List.cons_append, splitPower?, if_neg first, ih later]
    rfl

/-! ## The tree of a row -/

/-- Grouped to the left. -/
def leftward (left : Grouping) (rest : Operations) : Grouping :=
  rest.foldl (fun left o => .operation left o.1 (.operand o.2)) left

/-- Grouped to the left, the last operand raised to a power. -/
def leftwardRaised (e : Node) (before : Operations) (power : Grouping) : Grouping :=
  match before.getLast? with
  | none => .operation (.operand e) .power power
  | some (op, base) =>
    .operation (leftward (.operand e) before.dropLast) op (.operation (.operand base) .power power)

theorem leftwardRaised_concat (e : Node) (before : Operations) (op : BinaryOperator) (base : Node)
    (power : Grouping) : leftwardRaised e (before ++ [(op, base)]) power =
      .operation (leftward (.operand e) before) op (.operation (.operand base) .power power) := by
  simp [leftwardRaised]

/-- The tree of operands and operators. -/
def ofRow (e : Node) (rest : Operations) : Grouping :=
  match _weakest : splitWeakest? rest with
  | some (before, op, e', behind) => .operation (ofRow e before) op (ofRow e' behind)
  | none =>
    match _power : splitPower? rest with
    | some (before, e', behind) => leftwardRaised e before (ofRow e' behind)
    | none => leftward (.operand e) rest
termination_by rest.length
decreasing_by
  · rw [eq_of_splitWeakest? _weakest, List.length_append, List.length_cons]
    omega
  · rw [eq_of_splitWeakest? _weakest, List.length_append, List.length_cons]
    omega
  · rw [eq_of_splitPower? _power, List.length_append, List.length_cons]
    omega

theorem ofRow_weakest (hop : op.strength ≤ 2) (hb : ∀ o ∈ before, op.strength ≤ o.1.strength)
    (hl : ∀ o ∈ behind, op.strength < o.1.strength) :
    ofRow e (before ++ (op, e') :: behind) =
      .operation (ofRow e before) op (ofRow e' behind) := by
  have found := splitWeakest?_append (e := e') hop hb hl
  rw [ofRow]
  split
  · rename_i h
    cases found.symm.trans h
    rfl
  · rename_i h
    cases found.symm.trans h

theorem ofRow_power (h : ∀ o ∈ before ++ (.power, e') :: behind, 3 ≤ o.1.strength)
    (hb : ∀ o ∈ before, o.1 ≠ .power) :
    ofRow e (before ++ (.power, e') :: behind) = leftwardRaised e before (ofRow e' behind) := by
  have none := splitWeakest?_eq_none h
  have found : splitPower? (before ++ (.power, e') :: behind) = some (before, e', behind) :=
    splitPower?_append hb
  rw [ofRow]
  split
  · rename_i h
    cases none.symm.trans h
  · split
    · rename_i h
      cases found.symm.trans h
      rfl
    · rename_i h
      cases found.symm.trans h

theorem ofRow_leftward (h : ∀ o ∈ rest, 3 ≤ o.1.strength) (hp : ∀ o ∈ rest, o.1 ≠ .power) :
    ofRow e rest = leftward (.operand e) rest := by
  have none := splitWeakest?_eq_none h
  have noPower := splitPower?_eq_none hp
  rw [ofRow]
  split
  · rename_i h
    cases none.symm.trans h
  · split
    · rename_i h
      cases noPower.symm.trans h
    · rfl

theorem ofRow_nil (e : Node) : ofRow e [] = .operand e :=
  ofRow_leftward (List.forall_mem_nil _) (List.forall_mem_nil _)

/-! ## Nothing is lost, doubled or moved -/

theorem listed_leftward (left : Grouping) (rest : Operations) :
    (leftward left rest).listed = (left.listed.1, left.listed.2 ++ rest) := by
  induction rest generalizing left with
  | nil => simp [leftward]
  | cons o rest ih =>
    have step : leftward left (o :: rest) = leftward (.operation left o.1 (.operand o.2)) rest :=
      rfl
    rw [step, ih]
    simp [listed]

theorem listed_leftwardRaised (e : Node) (before : Operations) (power : Grouping) :
    (leftwardRaised e before power).listed =
      (e, before ++ (.power, power.listed.1) :: power.listed.2) := by
  unfold leftwardRaised
  split
  · rename_i h
    rw [List.getLast?_eq_none_iff.mp h]
    rfl
  · rename_i op base h
    have whole : before.dropLast ++ [(op, base)] = before := List.dropLast_append_getLast? _ h
    simp only [listed, listed_leftward, List.nil_append]
    rw [← whole]
    simp

/-- The tree of a row has the operands and operators of the row, in their order. -/
theorem listed_ofRow (e : Node) (rest : Operations) : (ofRow e rest).listed = (e, rest) := by
  fun_induction ofRow e rest with
  | case1 e rest before op e' behind h ih ih' =>
    rw [listed, ih, ih', eq_of_splitWeakest? h]
  | case2 e rest _ before e' behind h ih =>
    rw [listed_leftwardRaised, ih, eq_of_splitPower? h]
  | case3 e rest => simp [listed_leftward, listed]

end Grouping

end TracedScript
