import TracedScript.Files.Path

/-!
# Files

The files that a program can read, as one value: directories and files by the parts of their path
from the root, and the working directory, from which all other paths lead.
-/

namespace TracedScript

/-- Why a file can not be read as text. -/
inductive ReadError where
  | notFound
  | isDirectory
  | notDirectory
  | notUtf8
  deriving DecidableEq, Repr

/-- The wording of the operating system. -/
def ReadError.message : ReadError → String
  | .notFound => "No such file or directory (os error 2)"
  | .isDirectory => "Is a directory (os error 21)"
  | .notDirectory => "Not a directory (os error 20)"
  | .notUtf8 => "stream did not contain valid UTF-8"

inductive FileEntry where
  | directory
  | file (bytes : ByteArray)

structure FileTree where
  /-- The place of the working directory. -/
  home : List String
  /-- What stands at other places than the working directory and those that lead to it. -/
  entries : List (List String × FileEntry)

namespace FileTree

/-- Nothing but a working directory. -/
def empty (home : List String) : FileTree := ⟨home, []⟩

/-- What stands at a place given by its parts from the root. -/
def entry? (t : FileTree) (place : List String) : Option FileEntry :=
  if place.isPrefixOf t.home then some .directory
  else (t.entries.find? fun e => e.1 = place).map (·.2)

/-- Where a part of a path leads from a place; `..` leads back, and from the root nowhere else. -/
def step (place : List String) (part : String) : List String :=
  if part = "" ∨ part = "." then place
  else if part = ".." then place.dropLast
  else place ++ [part]

/-- Follows the parts of a path through directories, starting from a place. -/
def follow (t : FileTree) (place : List String) : List String → Except ReadError FileEntry
  | [] =>
    match t.entry? place with
    | some e => .ok e
    | none => .error .notFound
  | part :: parts =>
    match t.entry? place with
    | none => .error .notFound
    | some (.file _) => .error .notDirectory
    | some .directory => t.follow (step place part) parts

/-- The place from which a path leads: the root if it starts with a slash. -/
def origin (t : FileTree) (path : String) : List String :=
  if path.toList.head? = some '/' then [] else t.home

/-- What a path leads to. The empty path leads nowhere. -/
def find (t : FileTree) (path : String) : Except ReadError FileEntry :=
  if path = "" then .error .notFound
  else t.follow (t.origin path) ((Path.split '/' path.toList).map String.ofList)

/-- The text of the file that a path leads to. -/
def read (t : FileTree) (path : String) : Except ReadError String := do
  match ← t.find path with
  | .directory => .error .isDirectory
  | .file bytes =>
    match String.fromUTF8? bytes with
    | some text => .ok text
    | none => .error .notUtf8

/-- The place that a path leads to, whether or not something stands there. -/
def place (t : FileTree) (path : String) : List String :=
  ((Path.split '/' path.toList).map String.ofList).foldl step (t.origin path)

/-- Sets what stands at a place. -/
def set (t : FileTree) (place : List String) (e : FileEntry) : FileTree :=
  { t with entries := (place, e) :: t.entries.filter fun f => f.1 ≠ place }

/-- Makes the directories on the way to a place. -/
def makeParents (t : FileTree) (place : List String) : FileTree :=
  (List.range place.length).foldl
    (fun t n =>
      match t.entry? (place.take n) with
      | some _ => t
      | none => t.set (place.take n) .directory)
    t

/-- Writes an entry at a path, with the directories that lead to it. -/
def write (t : FileTree) (path : String) (e : FileEntry) : FileTree :=
  (t.makeParents (t.place path)).set (t.place path) e

/-- Removes what stands at a path, with everything in it. -/
def remove (t : FileTree) (path : String) : FileTree :=
  { t with entries := t.entries.filter fun e => !(t.place path).isPrefixOf e.1 }

end FileTree

end TracedScript
