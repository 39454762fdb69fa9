import Mathlib.Data.List.TakeWhile
import TracedScript.Files.Tree
import TracedScript.Module.Name

/-!
# The names that scripts can be included under

Whatever the search directories are, a script is found under a name only if the place of some file
ends in what the name is spelled as. So a finite tree of files has finitely many modules, all named
by `Module.candidates`. Main statement: `mem_candidates_of_findScript`.
-/

namespace TracedScript

namespace Path

variable {separator : Char}

theorem split_ne_nil (cs : List Char) : split separator cs ≠ [] := by
  induction cs with
  | nil => exact List.cons_ne_nil _ _
  | cons c cs ih =>
    unfold split
    split
    · exact List.cons_ne_nil _ _
    · split
      · exact List.cons_ne_nil _ _
      · exact List.cons_ne_nil _ _

theorem split_of_not_mem {cs : List Char} (h : separator ∉ cs) : split separator cs = [cs] := by
  induction cs with
  | nil => rfl
  | cons c cs ih =>
    simp only [List.mem_cons, not_or] at h
    obtain ⟨hc, hcs⟩ := h
    rw [split, if_neg (Ne.symm hc), ih hcs]

theorem split_append (a b : List Char) :
    split separator (a ++ separator :: b) = split separator a ++ split separator b := by
  induction a with
  | nil => simp only [List.nil_append, split, if_pos, List.cons_append]
  | cons c a ih =>
    rw [List.cons_append, split, split]
    by_cases hc : c = separator
    · rw [if_pos hc, if_pos hc, ih, List.cons_append]
    · rw [if_neg hc, if_neg hc, ih]
      cases hs : split separator a with
      | nil => exact absurd hs (split_ne_nil a)
      | cons p ps => rfl

theorem split_join {ps : List (List Char)} (hne : ps ≠ []) (h : ∀ p ∈ ps, separator ∉ p) :
    split separator (Text.join [separator] ps) = ps := by
  induction ps with
  | nil => exact absurd rfl hne
  | cons p ps ih =>
    obtain ⟨hp, hps⟩ := List.forall_mem_cons.mp h
    cases ps with
    | nil => exact split_of_not_mem hp
    | cons q qs =>
      have rest := ih (List.cons_ne_nil q qs) hps
      rw [Text.join, List.append_assoc, List.singleton_append, split_append, split_of_not_mem hp,
        rest]
      rfl

theorem join_split (cs : List Char) : Text.join [separator] (split separator cs) = cs := by
  induction cs with
  | nil => rfl
  | cons c cs ih =>
    rw [split]
    cases hs : split separator cs with
    | nil => exact absurd hs (split_ne_nil cs)
    | cons p ps =>
      rw [hs] at ih
      split
      · rename_i hc
        rw [Text.join, ih, hc]
        rfl
      · dsimp only
        cases ps with
        | nil => exact congrArg (c :: ·) ih
        | cons q qs =>
          rw [Text.join] at ih ⊢
          rw [← ih]
          rfl

/-- Putting something behind a joined text puts it behind the last piece. -/
theorem join_append_last (sep e p : List Char) (ps : List (List Char)) :
    Text.join sep (ps ++ [p]) ++ e = Text.join sep (ps ++ [p ++ e]) := by
  induction ps with
  | nil => rfl
  | cons q qs ih =>
    cases qs with
    | nil => simp only [List.cons_append, List.nil_append, Text.join, List.append_assoc]
    | cons r rs =>
      simp only [List.cons_append, Text.join, List.append_assoc] at ih ⊢
      rw [ih]

/-- A part of a path that leads one step inwards, as all parts of a module's name do. -/
structure Plain (cs : List Char) : Prop where
  ne_nil : cs ≠ []
  head : cs.head? ≠ some '.'
  no_slash : '/' ∉ cs

theorem Plain.append {cs more : List Char} (h : Plain cs) (hm : '/' ∉ more) :
    Plain (cs ++ more) := by
  obtain ⟨hne, hhead, hslash⟩ := h
  cases cs with
  | nil => exact absurd rfl hne
  | cons c cs =>
    refine ⟨List.cons_ne_nil _ _, hhead, ?_⟩
    rw [List.mem_append]
    exact not_or.mpr ⟨hslash, hm⟩

theorem Plain.last {cs : List Char} (h : Plain cs) : cs.getLast? ≠ some '/' := by
  intro hl
  exact h.no_slash (List.mem_of_getLast? hl)

/-- What ends in a plain part ends as it does. -/
theorem Plain.last_append {cs : List Char} (h : Plain cs) (front : List Char) :
    (front ++ cs).getLast? ≠ some '/' := by
  rw [List.getLast?_append, List.getLast?_eq_some_getLast h.ne_nil, Option.some_or,
    ← List.getLast?_eq_some_getLast h.ne_nil]
  exact h.last

theorem Plain.join {path cs : List Char} (h : Plain cs) (hne : path ≠ [])
    (hl : path.getLast? ≠ some '/') : Path.join path cs = path ++ '/' :: cs := by
  have hhead : cs.head? ≠ some '/' := fun hh => h.no_slash (List.mem_of_head? hh)
  unfold Path.join
  rw [if_neg hhead, if_neg (not_or.mpr ⟨hne, hl⟩)]

theorem join_merge (sep p q : List Char) (ps : List (List Char)) :
    Text.join sep ((p ++ (sep ++ q)) :: ps) = Text.join sep (p :: q :: ps) := by
  cases ps with
  | nil => simp only [Text.join, List.append_assoc]
  | cons r rs => simp only [Text.join, List.append_assoc]

/-- Joining plain parts to a path only puts slashes between them. -/
theorem foldl_join {ps : List (List Char)} (h : ∀ p ∈ ps, Plain p) {path : List Char}
    (hne : path ≠ []) (hl : path.getLast? ≠ some '/') :
    ps.foldl join path = Text.join ['/'] (path :: ps) := by
  induction ps generalizing path with
  | nil => rfl
  | cons p ps ih =>
    obtain ⟨hp, hps⟩ := List.forall_mem_cons.mp h
    have hlast : (path ++ '/' :: p).getLast? ≠ some '/' := by
      have last := hp.last_append (path ++ ['/'])
      rwa [List.append_assoc] at last
    rw [List.foldl_cons, hp.join hne hl, ih hps (List.append_ne_nil_of_left_ne_nil hne _) hlast]
    exact join_merge ['/'] path p ps

theorem foldl_join_nil {ps : List (List Char)} (h : ∀ p ∈ ps, Plain p) :
    ps.foldl join [] = Text.join ['/'] ps := by
  cases ps with
  | nil => rfl
  | cons p ps =>
    obtain ⟨hp, hps⟩ := List.forall_mem_cons.mp h
    have first : join [] p = p := by
      unfold join
      split
      · rfl
      · rw [if_pos (.inl rfl), List.nil_append]
    rw [List.foldl_cons, first]
    exact foldl_join hps hp.ne_nil hp.last

theorem dropEnding_of_not_mem {path : List Char} (h : '.' ∉ path) : dropEnding path = path := by
  have pointless : (path.reverse.takeWhile (· ≠ '/')).dropWhile (· ≠ '.') = [] := by
    refine List.dropWhile_eq_nil_iff.mpr fun c hc => decide_eq_true ?_
    rintro rfl
    exact h (List.mem_reverse.mp ((List.takeWhile_sublist _).subset hc))
  unfold dropEnding
  dsimp only
  rw [pointless]

theorem withEnding_of_last {path : List Char} (hne : path ≠ []) (hl : path.getLast? ≠ some '/')
    (hp : '.' ∉ path) (ending : List Char) : withEnding path ending = path ++ '.' :: ending := by
  have stem : dropSlashes path = path := by
    unfold dropSlashes
    cases hr : path.reverse with
    | nil => exact absurd (List.reverse_eq_nil_iff.mp hr) hne
    | cons c cs =>
      have hc : c ≠ '/' := by
        rintro rfl
        rw [← List.head?_reverse, hr] at hl
        exact hl rfl
      rw [List.dropWhile_cons_of_neg (by simpa using hc), ← hr, List.reverse_reverse]
  unfold withEnding
  dsimp only
  rw [stem, if_neg hne, dropEnding_of_not_mem hp]

end Path

/-! ## Paths of scripts -/

namespace Module

/-- Identifiers are plain, as neither points nor slashes occur in them. -/
theorem plain_of_isIdentifier {cs : List Char} (h : isIdentifier cs = true) :
    Path.Plain cs ∧ '.' ∉ cs := by
  cases cs with
  | nil => cases h
  | cons c cs =>
    obtain ⟨hc, hcs⟩ := Bool.and_eq_true_iff.mp h
    have part {d : Char} (hd : Scan.isNamePart d = false) : d ∉ c :: cs := by
      intro hm
      obtain rfl | hm := List.mem_cons.mp hm
      · have start : Scan.isNameStart d = false := (Bool.or_eq_false_iff.mp hd).1
        rw [start] at hc
        cases hc
      · rw [List.all_eq_true.mp hcs d hm] at hd
        cases hd
    refine ⟨⟨List.cons_ne_nil _ _, ?_, part (by decide)⟩, part (by decide)⟩
    intro hhead
    cases hhead
    exact part (by decide) (List.mem_cons_self ..)

/-- The parts of a valid name, with the last one apart. -/
theorem exists_parts {name : String} (h : isValidName name = true) :
    ∃ front last, parts name = front ++ [last] ∧
      ∀ p ∈ front ++ [last], Path.Plain p ∧ '.' ∉ p := by
  have hne : parts name ≠ [] := Path.split_ne_nil _
  refine ⟨(parts name).dropLast, (parts name).getLast hne, ?_, fun p hp => ?_⟩
  · exact (List.dropLast_concat_getLast hne).symm
  · rw [List.dropLast_concat_getLast hne] at hp
    exact plain_of_isIdentifier (List.all_eq_true.mp h p hp)

/-- The path of a script is made of the parts of its name, the last one with the ending. -/
theorem split_relativePath {name : String} {front : List (List Char)} {last : List Char}
    (hparts : parts name = front ++ [last])
    (hplain : ∀ p ∈ front ++ [last], Path.Plain p ∧ '.' ∉ p) :
    Path.split '/' (relativePath name).toList = front ++ [last ++ '.' :: ending] ∧
      ∀ p ∈ front ++ [last ++ '.' :: ending], Path.Plain p := by
  have plain : ∀ p ∈ front ++ [last], Path.Plain p := fun p hp => (hplain p hp).1
  have hlast : Path.Plain last := plain last (by simp)
  have whole : ∀ p ∈ front ++ [last ++ '.' :: ending], Path.Plain p := by
    intro p hp
    rw [List.mem_append, List.mem_singleton] at hp
    obtain hp | rfl := hp
    · exact plain p (List.mem_append_left _ hp)
    · exact hlast.append (by decide)
  have path : (relativePath name).toList =
      Text.join ['/'] (front ++ [last ++ '.' :: ending]) := by
    have ends : Text.join ['/'] (front ++ [[]]) ++ last = Text.join ['/'] (front ++ [last]) :=
      Path.join_append_last ['/'] last [] front
    rw [relativePath, String.toList_ofList, hparts, Path.foldl_join_nil plain,
      Path.withEnding_of_last, Path.join_append_last]
    · rw [← ends]
      exact List.append_ne_nil_of_right_ne_nil _ hlast.ne_nil
    · rw [← ends]
      exact hlast.last_append _
    · intro hp
      obtain hp | ⟨p, hm, hp⟩ := Text.mem_join hp
      · exact absurd hp (by decide)
      · exact (hplain p hm).2 hp
  refine ⟨?_, whole⟩
  rw [path]
  exact Path.split_join (by simp) fun p hp => (whole p hp).no_slash

/-- With points instead of slashes the path of a script is its name with the ending. -/
theorem exists_split_relativePath {name : String} (h : isValidName name = true) :
    ∃ tail, Path.split '/' (relativePath name).toList = tail ∧ (∀ p ∈ tail, Path.Plain p) ∧
      Text.join ['.'] tail = name.toList ++ '.' :: ending := by
  obtain ⟨front, last, hparts, hplain⟩ := exists_parts h
  obtain ⟨split, plain⟩ := split_relativePath hparts hplain
  refine ⟨_, split, plain, ?_⟩
  rw [← Path.join_append_last, ← hparts, parts, Path.join_split]

end Module

/-! ## Places of files -/

namespace Text

theorem fromUTF8?_toUTF8 (text : String) : String.fromUTF8? text.toUTF8 = some text :=
  dif_pos text.isValidUTF8

theorem toUTF8_of_fromUTF8? {bytes : ByteArray} {text : String}
    (h : String.fromUTF8? bytes = some text) : text.toUTF8 = bytes := by
  unfold String.fromUTF8? at h
  split at h
  · cases h
    rfl
  · cases h

end Text

namespace FileTree

variable {t : FileTree} {place : List String}

/-- What the parts of a path lead to stands at the place that they lead to. -/
theorem entry?_of_follow {parts : List String} {e : FileEntry}
    (h : t.follow place parts = .ok e) : t.entry? (parts.foldl step place) = some e := by
  induction parts generalizing place with
  | nil =>
    rw [follow] at h
    split at h
    · rename_i e' he
      cases h
      exact he
    · cases h
  | cons part parts ih =>
    rw [follow] at h
    split at h
    · cases h
    · cases h
    · exact ih h

/-- Parts that lead inwards lead to the place that they are put behind. -/
theorem foldl_step {parts : List String} (h : ∀ p ∈ parts, p ≠ "" ∧ p ≠ "." ∧ p ≠ "..") :
    parts.foldl step place = place ++ parts := by
  induction parts generalizing place with
  | nil => exact (List.append_nil place).symm
  | cons part parts ih =>
    obtain ⟨⟨hempty, hpoint, hpoints⟩, hparts⟩ := List.forall_mem_cons.mp h
    rw [List.foldl_cons, step, if_neg (not_or.mpr ⟨hempty, hpoint⟩), if_neg hpoints, ih hparts,
      List.append_assoc, List.singleton_append]

/-- Files stand at places that are listed. -/
theorem mem_entries_of_entry? {bytes : ByteArray} (h : t.entry? place = some (.file bytes)) :
    (place, .file bytes) ∈ t.entries := by
  unfold entry? at h
  split at h
  · cases h
  · obtain ⟨⟨there, e⟩, found, rfl⟩ := Option.map_eq_some_iff.mp h
    obtain rfl : there = place := by simpa using List.find?_some found
    exact List.mem_of_find?_eq_some found

/-- What a path leads to stands at its place. -/
theorem entry?_of_find {path : String} {e : FileEntry} (h : t.find path = .ok e) :
    t.entry? (t.place path) = some e := by
  unfold find at h
  split at h
  · cases h
  · exact entry?_of_follow h

/-- A text is read from a file that holds it in UTF-8. -/
theorem read_eq_ok_iff {path text : String} :
    t.read path = .ok text ↔ t.find path = .ok (.file text.toUTF8) := by
  unfold read
  constructor
  · intro h
    cases hf : t.find path with
    | error reason =>
      rw [hf] at h
      cases h
    | ok e =>
      rw [hf] at h
      cases e with
      | directory => cases h
      | file bytes =>
        dsimp only [bind, Except.bind] at h
        split at h
        · rename_i found decoded
          cases h
          rw [Text.toUTF8_of_fromUTF8? decoded]
        · cases h
  · intro h
    rw [h]
    dsimp only [bind, Except.bind]
    rw [Text.fromUTF8?_toUTF8]

/-- What is read is the text of some file that is listed. -/
theorem exists_entry_of_read {path text : String} (h : t.read path = .ok text) :
    ∃ e ∈ t.entries, ∃ bytes, e.2 = .file bytes ∧ String.fromUTF8? bytes = some text := by
  have listed := mem_entries_of_entry? (entry?_of_find (read_eq_ok_iff.mp h))
  exact ⟨_, listed, _, rfl, Text.fromUTF8?_toUTF8 text⟩

end FileTree

/-! ## Paths in a directory -/

namespace Path

/-- A plain part is not one of those that stay or lead back. -/
theorem Plain.inward {cs : List Char} (h : Plain cs) : cs ≠ [] ∧ cs ≠ ['.'] ∧ cs ≠ ['.', '.'] := by
  refine ⟨h.ne_nil, ?_, ?_⟩
  · rintro rfl
    exact h.head rfl
  · rintro rfl
    exact h.head rfl

theorem Plain.ofList {cs : List Char} (h : Plain cs) :
    String.ofList cs ≠ "" ∧ String.ofList cs ≠ "." ∧ String.ofList cs ≠ ".." := by
  obtain ⟨empty, point, points⟩ := h.inward
  exact ⟨mt String.ofList_inj.mp empty, mt String.ofList_inj.mp point,
    mt String.ofList_inj.mp points⟩

/-- A path of plain parts does not start at the root. -/
theorem head_ne_slash {path : List Char} (h : ∀ p ∈ split '/' path, Plain p) :
    path.head? ≠ some '/' := by
  intro hh
  obtain ⟨rest, rfl⟩ := List.head?_eq_some_iff.mp hh
  rw [split, if_pos rfl] at h
  exact (h [] (List.mem_cons_self ..)).ne_nil rfl

end Path

namespace FileTree

variable (t : FileTree)

theorem origin_append {path : List Char} (h : path ≠ []) (more : List Char) :
    t.origin (String.ofList (path ++ more)) = t.origin (String.ofList path) := by
  obtain ⟨c, cs, rfl⟩ := List.exists_cons_of_ne_nil h
  unfold origin
  rw [String.toList_ofList, String.toList_ofList, List.cons_append, List.head?_cons,
    List.head?_cons]

/-- A path that is put behind a directory leads on from where the directory is. -/
theorem place_join (directory : List Char) {path : List Char} (h : path.head? ≠ some '/') :
    t.place (String.ofList (Path.join directory path)) =
      ((Path.split '/' path).map String.ofList).foldl step
        (t.place (String.ofList directory)) := by
  have stay (place : List String) : step place "" = place := if_pos (.inl rfl)
  unfold place Path.join
  rw [if_neg h, String.toList_ofList, String.toList_ofList]
  split
  · rename_i hd
    by_cases hempty : directory = []
    · have relative : t.origin (String.ofList path) = t.home := by
        unfold origin
        rw [String.toList_ofList, if_neg h]
      have here : t.origin (String.ofList []) = t.home := if_neg (by decide)
      subst hempty
      rw [List.nil_append, relative, here]
      exact congrArg (List.foldl step · _) (stay t.home).symm
    · obtain ⟨front, rfl⟩ := List.getLast?_eq_some_iff.mp (hd.resolve_left hempty)
      rw [origin_append t hempty, List.append_assoc, List.singleton_append, Path.split_append,
        Path.split_append, List.map_append, List.map_append, List.foldl_append, List.foldl_append]
      exact congrArg (List.foldl step · _) (stay _).symm
  · rename_i hd
    rw [origin_append t (not_or.mp hd).1, Path.split_append, List.map_append, List.foldl_append]

/-- What a path leads to in a directory stands behind the place of the directory. -/
theorem entry?_of_find_join {directory : String} {path : List Char} {e : FileEntry}
    (hp : ∀ p ∈ Path.split '/' path, Path.Plain p)
    (h : t.find (String.ofList (Path.join directory.toList path)) = .ok e) :
    t.entry? (t.place directory ++ (Path.split '/' path).map String.ofList) = some e := by
  have inward : ∀ p ∈ (Path.split '/' path).map String.ofList, p ≠ "" ∧ p ≠ "." ∧ p ≠ ".." := by
    intro p hm
    obtain ⟨cs, hcs, rfl⟩ := List.mem_map.mp hm
    exact (hp cs hcs).ofList
  have stands := entry?_of_find h
  rwa [place_join t directory.toList (Path.head_ne_slash hp), String.ofList_toList,
    foldl_step inward] at stands

end FileTree

/-! ## Candidates -/

namespace Module

/-- The name of the module whose script has a path of these parts. -/
def nameOfParts (parts : List String) : String :=
  let cs := Text.join ['.'] (parts.map String.toList)
  String.ofList (cs.take (cs.length - (ending.length + 1)))

/-- The names of all scripts, one for each end of the place of a file. -/
def candidates (t : FileTree) : List String :=
  t.entries.flatMap fun e => (List.range (e.1.length + 1)).map fun n => nameOfParts (e.1.drop n)

theorem nameOfParts_eq {name : String} {tail : List (List Char)}
    (h : Text.join ['.'] tail = name.toList ++ '.' :: ending) :
    nameOfParts (tail.map String.ofList) = name := by
  have chars : (tail.map String.ofList).map String.toList = tail := by
    rw [List.map_map]
    exact List.map_id'' (fun _ => String.toList_ofList) tail
  have short : (name.toList ++ '.' :: ending).length - (ending.length + 1) =
      name.toList.length := by
    rw [List.length_append, List.length_cons]
    omega
  unfold nameOfParts
  dsimp only
  rw [chars, h, short, List.take_left', String.ofList_toList]
  rfl

theorem readScript_eq_some_iff {files : FileTree} {there path text : String} :
    readScript files there = some (path, text) ↔
      path = there ∧ files.read there = .ok text := by
  unfold readScript
  constructor
  · intro h
    split at h
    · rename_i found hfound
      obtain ⟨hpath, htext⟩ := Prod.mk.inj (Option.some.inj h)
      exact ⟨hpath.symm, htext ▸ hfound⟩
    · cases h
  · rintro ⟨rfl, hread⟩
    rw [hread]

theorem read_of_findScript {files : FileTree} {directories : List String}
    {name path text : String} (h : findScript files directories name = some (path, text)) :
    files.read path = .ok text ∧ ∃ directory, path = scriptPath directory name := by
  obtain ⟨directory, -, hd⟩ := List.exists_of_findSome?_eq_some h
  obtain ⟨rfl, hread⟩ := readScript_eq_some_iff.mp hd
  exact ⟨hread, directory, rfl⟩

/-- A script is only found under the name of a candidate, in whatever directories. -/
theorem mem_candidates_of_findScript {files : FileTree} {directories : List String}
    {name path text : String} (hv : isValidName name = true)
    (h : findScript files directories name = some (path, text)) : name ∈ candidates files := by
  obtain ⟨hread, directory, rfl⟩ := read_of_findScript h
  obtain ⟨tail, hsplit, hplain, hjoin⟩ := exists_split_relativePath hv
  have stands := FileTree.entry?_of_find_join files (by rwa [hsplit])
    (FileTree.read_eq_ok_iff.mp hread)
  rw [hsplit] at stands
  refine List.mem_flatMap.mpr ⟨_, FileTree.mem_entries_of_entry? stands,
    List.mem_map.mpr ⟨(files.place directory).length, ?_, ?_⟩⟩
  · rw [List.mem_range, List.length_append]
    omega
  · rw [List.drop_left]
    exact nameOfParts_eq hjoin

end Module

end TracedScript
