import TracedScript.Proofs.Files.ScriptNames
import TracedScript.Proofs.Number.Numerals
import TracedScript.Proofs.Scope.Inclusion

/-!
# How modules are found

A name that modules can have spells identifiers, and they are the way from a search directory to the
script, which so stands inside of the directory. Of the search directories the first one counts in
which there is a file that can be read; what else may stand there under the name hides nothing in
the directories behind. Main statement: `module_names_resolve`.
-/

namespace TracedScript

namespace Module

/-! ## Names -/

/-- A letter of ASCII, or an underscore. -/
def IsLetter (c : Char) : Prop := 'a' ≤ c ∧ c ≤ 'z' ∨ 'A' ≤ c ∧ c ≤ 'Z' ∨ c = '_'

/-- What can stand behind the first letter of an identifier. -/
def IsLetterOrDigit (c : Char) : Prop := IsLetter c ∨ '0' ≤ c ∧ c ≤ '9'

/-- A letter, then letters and digits. -/
inductive Identifier : List Char → Prop
  | mk {c : Char} {cs : List Char} (head : IsLetter c) (tail : ∀ d ∈ cs, IsLetterOrDigit d) :
      Identifier (c :: cs)

/-- The name is made of these identifiers, of which there is at least one, with single points
between them. -/
structure Spells (ids : List (List Char)) (name : String) : Prop where
  ne_nil : ids ≠ []
  identifiers : ∀ id ∈ ids, Identifier id
  joined : name.toList = Text.join ['.'] ids

theorem isLetter_iff {c : Char} : Scan.isNameStart c = true ↔ IsLetter c := by
  have letter : Scan.isNameStart c =
      ((decide ('A' ≤ c ∧ c ≤ 'Z') || (decide ('a' ≤ c) && decide (c ≤ 'z'))) ||
        decide (c = '_')) := rfl
  rw [letter, Bool.or_eq_true, Bool.or_eq_true, Bool.and_eq_true, decide_eq_true_iff,
    decide_eq_true_iff, decide_eq_true_iff, decide_eq_true_iff, or_comm (a := 'A' ≤ c ∧ _),
    or_assoc, IsLetter]

theorem isLetterOrDigit_iff {c : Char} : Scan.isNamePart c = true ↔ IsLetterOrDigit c := by
  have digit : c.isDigit = (decide ('0' ≤ c) && decide (c ≤ '9')) := rfl
  rw [Scan.isNamePart, Bool.or_eq_true, isLetter_iff, Number.isDigit_iff, digit, Bool.and_eq_true,
    decide_eq_true_iff, decide_eq_true_iff, IsLetterOrDigit]

theorem isIdentifier_iff {cs : List Char} : isIdentifier cs = true ↔ Identifier cs := by
  cases cs with
  | nil => constructor <;> intro h <;> cases h
  | cons c cs =>
    rw [isIdentifier, Bool.and_eq_true, isLetter_iff, List.all_eq_true]
    constructor
    · rintro ⟨head, tail⟩
      exact .mk head fun d hd => isLetterOrDigit_iff.mp (tail d hd)
    · rintro ⟨head, tail⟩
      exact ⟨head, fun d hd => isLetterOrDigit_iff.mpr (tail d hd)⟩

namespace Spells

variable {ids front : List (List Char)} {last : List Char} {name : String}

theorem plain (h : Spells ids name) : ∀ id ∈ ids, Path.Plain id ∧ '.' ∉ id :=
  fun id hid => plain_of_isIdentifier (isIdentifier_iff.mpr (h.identifiers id hid))

theorem parts (h : Spells ids name) : parts name = ids := by
  unfold Module.parts
  rw [h.joined]
  exact Path.split_join h.ne_nil fun id hid => (h.plain id hid).2

/-- The identifiers are the parts of the path, and all of them lead inwards. -/
theorem split_path (h : Spells (front ++ [last]) name) :
    Path.split '/' (relativePath name).toList = front ++ [last ++ '.' :: ending] ∧
      ∀ p ∈ front ++ [last ++ '.' :: ending], Path.Plain p :=
  split_relativePath h.parts h.plain

end Spells

theorem isValidName_iff {name : String} : isValidName name = true ↔ ∃ ids, Spells ids name := by
  constructor
  · intro h
    refine ⟨parts name, Path.split_ne_nil _, fun id hid => ?_, (Path.join_split _).symm⟩
    exact isIdentifier_iff.mp (List.all_eq_true.mp h id hid)
  · rintro ⟨ids, h⟩
    rw [isValidName, h.parts, List.all_eq_true]
    exact fun id hid => isIdentifier_iff.mpr (h.identifiers id hid)

theorem relativePath_injective {name other : String} (h : isValidName name = true)
    (h' : isValidName other = true) (same : relativePath name = relativePath other) :
    name = other := by
  obtain ⟨tail, split, -, joined⟩ := exists_split_relativePath h
  obtain ⟨tail', split', -, joined'⟩ := exists_split_relativePath h'
  obtain rfl : tail = tail' := by rw [← split, ← split', same]
  exact String.toList_inj.mp (List.append_cancel_right (joined.symm.trans joined'))

/-! ## Scripts -/

/-- The directory has a script of that name: the path of it leads to a file with the text in UTF-8.
-/
def HasScript (files : FileTree) (name directory text : String) : Prop :=
  files.find (scriptPath directory name) = .ok (.file text.toUTF8)

/-- The path and the text are those of the script in the first directory that has one. -/
def FirstScript (files : FileTree) (directories : List String) (name path text : String) : Prop :=
  ∃ before directory after, directories = before ++ directory :: after ∧
    path = scriptPath directory name ∧ HasScript files name directory text ∧
    ∀ earlier ∈ before, ∀ other, ¬HasScript files name earlier other

/-- None of the directories has a script of that name. -/
def NoScript (files : FileTree) (directories : List String) (name : String) : Prop :=
  ∀ directory ∈ directories, ∀ text, ¬HasScript files name directory text

variable {files : FileTree} {directories : List String} {name path text : String}

theorem readScript_scriptPath_iff (directory : String) :
    readScript files (scriptPath directory name) = some (path, text) ↔
      path = scriptPath directory name ∧ HasScript files name directory text := by
  rw [readScript_eq_some_iff, FileTree.read_eq_ok_iff, HasScript]

theorem readScript_eq_none_iff (directory : String) :
    readScript files (scriptPath directory name) = none ↔
      ∀ text, ¬HasScript files name directory text := by
  rw [Option.eq_none_iff_forall_ne_some]
  constructor
  · intro h text script
    exact h _ ((readScript_scriptPath_iff directory).mpr ⟨rfl, script⟩)
  · intro h found hfound
    exact h found.2 ((readScript_scriptPath_iff directory).mp hfound).2

theorem findScript_eq_some_iff :
    findScript files directories name = some (path, text) ↔
      FirstScript files directories name path text := by
  unfold findScript FirstScript
  rw [List.findSome?_eq_some_iff]
  simp only [readScript_scriptPath_iff, readScript_eq_none_iff, and_assoc]

theorem findScript_eq_none_iff :
    findScript files directories name = none ↔ NoScript files directories name := by
  unfold findScript NoScript
  rw [List.findSome?_eq_none_iff]
  simp only [readScript_eq_none_iff]

/-- The script of a module stands inside of the directory that it is found in, behind the identifiers
of its name. -/
theorem entry?_of_hasScript {front : List (List Char)} {last : List Char} {directory : String}
    (h : Spells (front ++ [last]) name) (script : HasScript files name directory text) :
    files.entry? (files.place directory ++
      (front ++ [last ++ '.' :: ending]).map String.ofList) = some (.file text.toUTF8) := by
  obtain ⟨split, plain⟩ := h.split_path
  have stands := FileTree.entry?_of_find_join files (by rwa [split]) script
  rwa [split] at stands

end Module

/-- The path leads along these parts, each of which leads inwards. -/
structure Path.LeadsAlong (path : List Char) (parts : List (List Char)) : Prop where
  split : Path.split '/' path = parts
  relative : path.head? ≠ some '/'
  inward : ∀ p ∈ parts, p ≠ [] ∧ p ≠ ['.'] ∧ p ≠ ['.', '.']

theorem Module.Spells.leadsAlong {front : List (List Char)} {last : List Char} {name : String}
    (h : Spells (front ++ [last]) name) :
    Path.LeadsAlong (relativePath name).toList (front ++ [last ++ '.' :: ending]) := by
  obtain ⟨split, plain⟩ := h.split_path
  exact ⟨split, Path.head_ne_slash (by rwa [split]), fun p hp => (plain p hp).inward⟩

/-! ## Includes -/

namespace Eval

/-- What an include of a module of that name opens: the script of the first directory that has one.
If none has one, and only then, it is the module of the language. -/
inductive Opens (around : Surroundings) (eval : Evaluator) (name : String) (stack : CallStack)
    (span : Span) : Eval ScopeId → Prop
  | script {path text : String}
      (first : Module.FirstScript around.files around.settings.directories name path text) :
      Opens around eval name stack span (runScript eval name ⟨path, Text.normalize text⟩ stack span)
  | native {bindings : Bindings}
      (absent : Module.NoScript around.files around.settings.directories name)
      (known : Module.native? around.settings.directories name = some bindings) :
      Opens around eval name stack span (nativeScope bindings)
  | missing (absent : Module.NoScript around.files around.settings.directories name)
      (unknown : Module.native? around.settings.directories name = none) :
      Opens around eval name stack span (fail ((Fault.missingModule name).failAt span))

/-- What an include does with the scope that it opens. -/
def bindModule (name : String) (stack : CallStack) (span : Span) (opened : Eval ScopeId) :
    Eval Value :=
  completed stack span (opened >>= fun scope => declare (Module.bindingName name)
    ((Value.ofData (.namespace name scope)).place span stack.display) stack span)

theorem moduleScope_opens (around : Surroundings) (eval : Evaluator) (name : String)
    (stack : CallStack) (span : Span) :
    Opens around eval name stack span (moduleScope around eval name stack span) := by
  unfold moduleScope
  dsimp only
  cases found : Module.findScript around.files around.settings.directories name with
  | some script => exact .script (Module.findScript_eq_some_iff.mp found)
  | none =>
    have absent := Module.findScript_eq_none_iff.mp found
    cases known : Module.native? around.settings.directories name with
    | some bindings => exact .native absent known
    | none => exact .missing absent known

/-- An include comes to open the module of that name in the state `m'`. -/
structure Asks (around : Surroundings) (n : Nat) (node : Node) (stack : CallStack) (inLoop : Bool)
    (m : Machine) (name : String) (m' : Machine) : Prop where
  evaluated : ∃ module v, node.kind = .include module ∧
    evaluate around n module stack inLoop m = (.ok v, m') ∧ v.data = .str name
  valid : Module.isValidName name = true
  fresh : name ∉ m'.including

theorem evaluate_of_asks {around : Surroundings} {n : Nat} {node : Node} {stack : CallStack}
    {inLoop : Bool} {m m' : Machine} {name : String}
    (h : Asks around n node stack inLoop m name m') :
    evaluate around (n + 1) node stack inLoop m = bindModule name stack node.span
      (moduleScope around (evaluate around n) name stack node.span) m' := by
  obtain ⟨⟨module, v, hk, he, hd⟩, valid, fresh⟩ := h
  have steps : evaluate around (n + 1) node stack inLoop m = completed stack node.span
      (includeModule around (evaluate around n) module stack node.span inLoop) m := by
    rw [evaluate, construct, hk]
  rw [steps, completed, adapt_apply, includeModule_apply around he hd, if_pos valid, if_neg fresh]
  rfl

end Eval

/-- Exactly those names are valid that spell identifiers with single points between them. No two of
them have the same path, and the path leads from a directory along the identifiers, the last of which
has the ending of scripts, so that the script stands inside of the directory. What is found in a list
of directories is the text of the script in the first one that has one, and nothing exactly if none
has one. It is what an include opens, and the module of the language of that name only if there is
nothing to be found. -/
theorem module_names_resolve :
    (∀ name, Module.isValidName name = true ↔ ∃ ids, Module.Spells ids name) ∧
    (∀ name other, Module.isValidName name = true → Module.isValidName other = true →
      Module.relativePath name = Module.relativePath other → name = other) ∧
    (∀ front last name, Module.Spells (front ++ [last]) name →
      let parts := front ++ [last ++ ['.', 'p', 'e', 'r', 'i']]
      Path.LeadsAlong (Module.relativePath name).toList parts ∧
      ∀ (files : FileTree) directory text, Module.HasScript files name directory text →
        files.entry? (files.place directory ++ parts.map String.ofList) =
          some (.file text.toUTF8)) ∧
    (∀ files directories name,
      (∀ path text, Module.findScript files directories name = some (path, text) ↔
        Module.FirstScript files directories name path text) ∧
      (Module.findScript files directories name = none ↔
        Module.NoScript files directories name)) ∧
    ∀ around n node stack inLoop m name m', Eval.Asks around n node stack inLoop m name m' →
      ∃ opened, Eval.Opens around (evaluate around n) name stack node.span opened ∧
        evaluate around (n + 1) node stack inLoop m =
          Eval.bindModule name stack node.span opened m' := by
  refine ⟨fun _ => Module.isValidName_iff, fun _ _ => Module.relativePath_injective, ?_, ?_, ?_⟩
  · intro front last name h parts
    exact ⟨h.leadsAlong, fun files directory text => Module.entry?_of_hasScript h⟩
  · intro files directories name
    exact ⟨fun _ _ => Module.findScript_eq_some_iff, Module.findScript_eq_none_iff⟩
  · intro around n node stack inLoop m name m' h
    exact ⟨_, Eval.moduleScope_opens .., Eval.evaluate_of_asks h⟩

/-- A script, with what is no script in two directories that are searched before its own. -/
def crowded : FileTree :=
  (((FileTree.empty ["home"]).write "a/utils/text.peri" .directory).write "b/utils/text.peri"
    (.file ⟨#[0xff]⟩)).write "d/utils/text.peri" (.file "var size = 3".toUTF8)

/-- The script is found behind a directory and a file that is not UTF-8, and is what is included. -/
theorem script_behind_others :
    let directories := ["a", "b", "c", "d"]
    let text := "var size = 3"
    let around : Surroundings := ⟨⟨directories, 9⟩, crowded, none⟩
    let node : Node := ⟨.include ⟨.str "utils.text", default⟩, default⟩
    let stack : CallStack := .root "<program>" 1 .program
    let m := Machine.initial
    Module.relativePath "utils.text" ≠ Module.relativePath "utils.test" ∧
    crowded.entry? ["home", "d", "utils", "text.peri"] = some (.file text.toUTF8) ∧
    Module.findScript crowded directories "utils.text" = some ("d/utils/text.peri", text) ∧
    evaluate around 10 node stack false m = Eval.bindModule "utils.text" stack default
      (Eval.runScript (evaluate around 9) "utils.text" ⟨"d/utils/text.peri", text⟩ stack default)
      m := by
  intro directories text around node stack m
  obtain ⟨spelled, distinct, leads, found, includes⟩ := module_names_resolve
  have spells : Module.Spells (["utils".toList] ++ ["text".toList]) "utils.text" := by
    refine ⟨List.cons_ne_nil _ _, fun id hid => Module.isIdentifier_iff.mp ?_, rfl⟩
    obtain rfl | rfl : id = "utils".toList ∨ id = "text".toList := by simpa using hid
    · decide
    · decide
  have valid : Module.isValidName "utils.text" = true := (spelled _).mpr ⟨_, spells⟩
  have script : Module.HasScript crowded "utils.text" "d" text := rfl
  have first : Module.FirstScript crowded directories "utils.text" "d/utils/text.peri" text := by
    refine ⟨["a", "b", "c"], "d", [], rfl, rfl, script, fun earlier he other hother => ?_⟩
    obtain rfl | rfl | rfl : earlier = "a" ∨ earlier = "b" ∨ earlier = "c" := by simpa using he
    · cases hother
    · -- no text is encoded by this byte
      have bytes : (⟨#[0xff]⟩ : ByteArray) = other.toUTF8 :=
        FileEntry.file.inj (Except.ok.inj hother)
      have decodes : (⟨#[0xff]⟩ : ByteArray).IsValidUTF8 := bytes ▸ other.isValidUTF8
      exact absurd decodes (by decide +kernel)
    · cases hother
  have unique : Module.findScript crowded directories "utils.text" =
      some ("d/utils/text.peri", text) := ((found _ _ _).1 _ _).mpr first
  refine ⟨fun same => ?_, (leads _ _ _ spells).2 crowded "d" text script, unique, ?_⟩
  · exact absurd (distinct _ _ valid (by decide +kernel) same) (by decide)
  · have asks : Eval.Asks around 9 node stack false m "utils.text" m :=
      ⟨⟨_, _, rfl, rfl, rfl⟩, valid, by decide⟩
    obtain ⟨opened, opens, result⟩ := includes around 9 node stack false m "utils.text" m asks
    rw [result]
    have present : ¬Module.NoScript around.files around.settings.directories "utils.text" :=
      fun absent => absent "d" (by decide) text script
    cases opens with
    | @script path found' first' =>
      have same : some ("d/utils/text.peri", text) = some (path, found') :=
        unique.symm.trans (((found _ _ _).1 _ _).mpr first')
      obtain ⟨rfl, rfl⟩ := Prod.mk.inj (Option.some.inj same)
      have normal : Text.normalize text = text := by decide +kernel
      rw [normal]
    | native absent => exact absurd absent present
    | missing absent => exact absurd absent present

end TracedScript
