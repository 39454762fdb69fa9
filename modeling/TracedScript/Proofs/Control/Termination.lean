import Mathlib
import TracedScript.Proofs.Files.ScriptNames
import TracedScript.Proofs.Run.Prelude

/-!
# Only `while` runs for ever

Without `while` in a program or in any script that it could include, some allowance is enough for
the program, whatever it does. Main statement: `run_ends`. An evaluation gets smaller in one of
three ways: what is evaluated inside a node is smaller than the node, a call uses up some of the
depth of calls, and an include uses up a name. The last two may bring in code of any size, but only
of the program and the scripts, so all of it is bounded.
-/

namespace TracedScript

def Node.WhileFree (n : Node) : Prop := n.All fun kind => ¬ kind.IsWhile

namespace Surroundings

/-- How much code the script of a name has. -/
noncomputable def scriptSize (around : Surroundings) (name : String) : Nat :=
  match Module.findScript around.files around.settings.directories name with
  | none => 0
  | some (path, text) =>
    match (Source.mk path (Text.normalize text)).program with
    | .error _ => 0
    | .ok statements => sizeOf statements

/-- No less than the size of any node of a script. -/
noncomputable def codeSize (around : Surroundings) : Nat :=
  ((Module.candidates around.files).map around.scriptSize).sum

/-- The names under which scripts can still be included. -/
def pending (around : Surroundings) (names : List String) : Nat :=
  ((Module.candidates around.files).filter fun name => name ∉ names).length

theorem sizeOf_script {around : Surroundings} {name path text : String} {statements : List Node}
    (hv : Module.isValidName name = true)
    (hf : Module.findScript around.files around.settings.directories name = some (path, text))
    (hp : (Source.mk path (Text.normalize text)).program = .ok statements) {c : Node}
    (hc : c ∈ statements) : sizeOf c ≤ around.codeSize := by
  have size : around.scriptSize name = sizeOf statements := by
    unfold scriptSize
    rw [hf]
    dsimp only
    rw [hp]
  have candidate := Module.mem_candidates_of_findScript hv hf
  have bound : around.scriptSize name ≤ around.codeSize :=
    List.single_le_sum (fun _ _ => Nat.zero_le _) _ (List.mem_map_of_mem candidate)
  have smaller := List.sizeOf_lt_of_mem hc
  omega

theorem pending_append {around : Surroundings} {names : List String} {name : String}
    (hm : name ∈ Module.candidates around.files) (hn : name ∉ names) :
    around.pending (names ++ [name]) < around.pending names := by
  unfold pending
  have both : ((Module.candidates around.files).filter fun n => n ∉ names ++ [name]) =
      (((Module.candidates around.files).filter fun n => n ∉ names).filter fun n => n ≠ name) := by
    rw [List.filter_filter]
    apply List.filter_congr
    intro n _
    simp [and_comm]
  rw [both, List.length_filter_lt_length_iff_exists]
  refine ⟨name, List.mem_filter.mpr ⟨hm, by simpa using hn⟩, by simp⟩

/-- How much may be needed for code that a frame brings in, if no code has more than `size`: for
each call that may be inside and each module that may be included. -/
noncomputable def reserve (around : Surroundings) (size : Nat) (names : List String)
    (stack : CallStack) : Nat :=
  size * (around.settings.maxDepth - stack.top.depth + around.pending names)

variable {around : Surroundings} (size : Nat) {names : List String} (stack : CallStack)

/-- A call takes what it needs out of the reserve of its caller. -/
theorem reserve_call (names : List String) (h : stack.top.depth < around.settings.maxDepth)
    (name : String) (scope : ScopeId) (span : Span) :
    size + around.reserve size names (stack.call name scope span .function) ≤
      around.reserve size names stack := by
  have depth : (stack.call name scope span .function).top.depth = stack.top.depth + 1 := rfl
  have less : around.settings.maxDepth - stack.top.depth + around.pending names =
      (around.settings.maxDepth - (stack.top.depth + 1) + around.pending names) + 1 := by omega
  have parts : around.reserve size names stack =
      around.reserve size names (stack.call name scope span .function) + size := by
    unfold reserve
    rw [depth, less, Nat.mul_succ]
  omega

/-- So does an include, out of that of the frame it stands in. -/
theorem reserve_module {name : String} (hm : name ∈ Module.candidates around.files)
    (hn : name ∉ names) (display : String) (scope : ScopeId) (span : Span) :
    size + around.reserve size (names ++ [name]) (stack.call display scope span .module) ≤
      around.reserve size names stack := by
  have depth : (stack.call display scope span .module).top.depth = stack.top.depth := rfl
  have fewer := pending_append hm hn
  unfold reserve
  rw [depth]
  generalize around.settings.maxDepth - stack.top.depth = calls
  calc
    size + size * (calls + around.pending (names ++ [name]))
      = size * (calls + around.pending (names ++ [name]) + 1) := by
        rw [Nat.mul_succ, Nat.add_comm]
    _ ≤ size * (calls + around.pending names) := by
        apply Nat.mul_le_mul_left
        omega

end Surroundings

/-- Scripts that can be read have no `while` in them. -/
def Surroundings.WhileFree (around : Surroundings) : Prop :=
  ∀ path text statements, around.files.read path = .ok text →
    (Source.mk path (Text.normalize text)).program = .ok statements →
    ∀ c ∈ statements, c.WhileFree

namespace Invariant

/-- Allows code without `while` and of limited size, in the scopes made from some time on and with
the built-in names around them. Nothing may use up its allowance. -/
def bounded (size : Nat) (base : ScopeId) : Invariant where
  code n := n.WhileFree ∧ sizeOf n ≤ size
  scope id := id = Machine.preludeScope ∨ base ≤ id
  frame id := base ≤ id
  store s := base ≤ s.next
  exhaustion := False
  code_child h hc := ⟨h.1.child hc, Nat.le_trans (Nat.le_of_lt (Node.sizeOf_child hc)) h.2⟩
  scope_frame := .inr
  frame_next := id
  store_open h _ := by
    rw [Store.next_defineAll, Store.next_add]
    exact Nat.le_succ_of_le h
  store_assign h _ _ _ _ _ _ := by
    rw [Store.next_define]
    exact h
  store_declare h _ _ _ _ _ := by
    rw [Store.next_define]
    exact h

/-- Of the scopes made from now on there is none yet, and the built-in names can run no code. -/
theorem bounded_sound {s : Store} (h : s.KeepsPrelude) (size : Nat) :
    (bounded size s.next).alone.Sound s := by
  refine ⟨fun id hid => ?_, fun id p hid hp => ?_, Nat.le_refl _⟩
  · obtain rfl | hid := hid
    · rw [h.bindings]
      exact Machine.confined_prelude
    · rw [Store.bindings_of_next_le s hid]
      exact List.forall_mem_nil _
  · obtain rfl | hid := hid
    · rw [h.parent] at hp
      cases hp
    · rw [Store.parent?_of_next_le s hid] at hp
      cases hp

variable {around : Surroundings} {size : Nat} {base : ScopeId}

/-- An evaluation does not use up an allowance that covers the size of the node and what the frame
may need besides. -/
theorem bounded_evaluate (hs : around.WhileFree) (hsize : around.codeSize ≤ size) {n : Nat}
    {names : List String} {node : Node} {stack : CallStack} {inLoop : Bool}
    (hc : (bounded size base).code node) (hf : base ≤ stack.top.scope)
    (hn : sizeOf node + around.reserve size names stack ≤ n) :
    ((bounded size base).alone.terms names).Agree (bounded size base).alone.value
      ((bounded size base).alone.stop stack inLoop) (evaluate around n node stack inLoop)
      (evaluate around n node stack inLoop) := by
  have positive (d : Node) : 0 < sizeOf d := by
    cases d
    simp only [Node.mk.sizeOf_spec]
    omega
  induction n generalizing names node stack inLoop with
  | zero =>
    have := positive node
    omega
  | succ n ih =>
    have := positive node
    unfold evaluate
    apply Contract.agree_completed
    apply Contract.agree_construct hc hf
    · intro b c hm
      have smaller := Node.sizeOf_child hm
      exact ih ((bounded size base).code_child hc hm) hf (by omega)
    · intro name scope span hscope hdepth c hcode
      have room := Surroundings.reserve_call size stack names hdepth name scope span
      have small : sizeOf c ≤ size := hcode.2
      exact ih hcode hscope (by omega)
    · refine fun _ => ⟨.inl rfl, ?_⟩
      intro name hvalid hname path text statements scope span hfind hprogram hscope c hm
      have candidate := Module.mem_candidates_of_findScript hvalid hfind
      have room := Surroundings.reserve_module size stack candidate hname s!"<module {name}>" scope
        span
      have small := Surroundings.sizeOf_script hvalid hfind hprogram hm
      obtain ⟨hread, -⟩ := Module.read_of_findScript hfind
      have free := hs path text statements hread hprogram c hm
      exact ih ⟨free, Nat.le_trans small hsize⟩ hscope (by omega)
    · exact fun _ _ _ => False.elim
    · exact fun hwhile => absurd hwhile hc.1.self

end Invariant

/-- An allowance for a program: for its statements, the calls and the modules. -/
noncomputable def Surroundings.allowance (around : Surroundings) (names : List String)
    (statements : List Node) : Nat :=
  let size := around.codeSize + sizeOf statements
  size + size * (around.settings.maxDepth + around.pending names)

namespace Machine

variable {m : Machine} {around : Surroundings} {name text : String} {statements : List Node}

theorem finished_of_allowance (hm : m.Reached) (hs : around.WhileFree)
    (hp : (Source.mk name (Text.normalize text)).program = .ok statements)
    (hf : ∀ c ∈ statements, c.WhileFree) :
    (m.run around (around.allowance m.including statements) name text).1 ≠ .error .unfinished := by
  let size := around.codeSize + sizeOf statements
  let Γ := (Invariant.bounded size m.store.next).alone
  have agree : (Γ.terms m.including).Agree (fun vs => ∀ v ∈ vs, Γ.value v)
      (Γ.stop (.root "<program>" preludeScope .program) false)
      (Eval.program (evaluate around (around.allowance m.including statements)) statements)
      (Eval.program (evaluate around (around.allowance m.including statements)) statements) := by
    apply Contract.agree_program
    · exact .inl rfl
    · intro scope hscope c hc
      have small := List.sizeOf_lt_of_mem hc
      have fits : sizeOf c ≤ size := by omega
      refine Invariant.bounded_evaluate hs (Nat.le_add_right _ _) ⟨hf c hc, fits⟩ hscope ?_
      exact Nat.add_le_add_right fits _
  intro hu
  rw [run_of_program m around _ hp, attempt_unfinished] at hu
  obtain ⟨s, hstop, hescaped⟩ := hu
  have fair := Invariant.fair agree ⟨Invariant.bounded_sound hm.prelude size, rfl⟩
  have stop := fair.stop s hstop
  cases s with
  | returned v span => exact hescaped _ rfl
  | broke span => exact hescaped _ rfl
  | continued span => exact hescaped _ rfl
  | failed e => exact hescaped _ rfl
  | exhausted => exact stop

end Machine

/-- Without `while` in a program and in the scripts that can be read, the program comes to an end:
with some allowance it ends with the values of its statements or with an error, and it ends in the
same way with any larger one. This goes for all settings and files, and for every state that earlier
programs, with or without `while`, may have left. -/
theorem run_ends {m : Machine} (hm : m.Reached) (around : Surroundings) (name text : String)
    (hp : ∀ statements, (Source.mk name (Text.normalize text)).program = .ok statements →
      ∀ c ∈ statements, c.WhileFree)
    (hs : ∀ path text statements, around.files.read path = .ok text →
      (Source.mk path (Text.normalize text)).program = .ok statements →
      ∀ c ∈ statements, c.WhileFree) :
    ∃ (bound : Nat) (ending : Except ProgramError (List Value) × Machine),
      ending.1 ≠ .error .unfinished ∧
      ∀ allowance, bound ≤ allowance → m.run around allowance name text = ending := by
  have enough : ∃ bound, (m.run around bound name text).1 ≠ .error .unfinished := by
    cases hprogram : (Source.mk name (Text.normalize text)).program with
    | error e =>
      refine ⟨0, ?_⟩
      rw [Machine.run, hprogram]
      intro h
      cases h
    | ok statements =>
      exact ⟨_, Machine.finished_of_allowance hm hs hprogram (hp statements hprogram)⟩
  obtain ⟨bound, finished⟩ := enough
  refine ⟨bound, m.run around bound name text, finished, fun allowance hle => ?_⟩
  exact Machine.run_of_le m around hle finished

def NodeKind.isWhile : NodeKind → Bool
  | .while _ _ => true
  | _ => false

/-- Checks the nodes of a text, if it can be read, up to a depth of `k`. -/
def Source.isWhileFree (s : Source) (k : Nat) : Bool :=
  match s.program with
  | .error _ => true
  | .ok statements => statements.all (Node.allTo (fun kind => !kind.isWhile) k)

theorem whileFree_of_isWhileFree {s : Source} {k : Nat} (h : s.isWhileFree k = true)
    {statements : List Node} (hp : s.program = .ok statements) :
    ∀ c ∈ statements, c.WhileFree := by
  intro c hc d hd hwhile
  unfold Source.isWhileFree at h
  rw [hp] at h
  have checked := Node.all_of_allTo (List.all_eq_true.mp h c hc) d hd
  cases hk : d.kind <;> rw [hk] at hwhile checked
  case «while» => cases checked
  all_goals exact hwhile

/-- Includes a script and calls a function that calls itself. -/
def loopingProgram : String := "include(\"notes\")\nvar f = func() \x7b f() \x7d\nf()"

def notes : String := "# Nothing to run."

/-- The looping program comes to an end. -/
theorem looping_program_ends :
    ∃ (bound : Nat) (ending : Except ProgramError (List Value) × Machine),
      ending.1 ≠ .error .unfinished ∧ ∀ allowance, bound ≤ allowance →
        Machine.initial.run
          ⟨.standard, ⟨["home"], [(["home", "notes.peri"], .file notes.toUTF8)]⟩, none⟩ allowance
          "main" loopingProgram = ending := by
  apply run_ends .initial
  · intro statements hp
    exact whileFree_of_isWhileFree (k := 9) (by decide +kernel) hp
  · intro path text statements hr hp
    obtain ⟨e, he, bytes, hfile, htext⟩ := FileTree.exists_entry_of_read hr
    obtain rfl := List.mem_singleton.mp he
    cases hfile
    have decoded : String.fromUTF8? notes.toUTF8 = some notes := dif_pos notes.isValidUTF8
    obtain rfl := Option.some.inj (decoded.symm.trans htext)
    exact whileFree_of_isWhileFree (k := 9) (by cbv) hp

end TracedScript
