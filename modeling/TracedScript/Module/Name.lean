import TracedScript.Files.Tree
import TracedScript.Syntax.Scan

/-!
# Module names

A module is named by identifiers with points between them, and is looked for in the file that they
lead to: `a.b` in `a/b.peri`.
-/

namespace TracedScript.Module

/-- A letter or underscore, then letters, digits and underscores, all of them ASCII. -/
def isIdentifier : List Char → Bool
  | [] => false
  | c :: cs => Scan.isNameStart c && cs.all Scan.isNamePart

/-- The parts of a name. -/
def parts (name : String) : List (List Char) := Path.split '.' name.toList

/-- One or more identifiers with single points between them. -/
def isValidName (name : String) : Bool := (parts name).all isIdentifier

/-- The ending of scripts. -/
def ending : List Char := ['p', 'e', 'r', 'i']

/-- The path of a module's script inside a search directory. -/
def relativePath (name : String) : String :=
  String.ofList (Path.withEnding ((parts name).foldl Path.join []) ending)

/-- The name under which a module is bound: the last part of its own name. -/
def bindingName (name : String) : String := String.ofList ((parts name).getLastD [])

/-- The path of a module's script in a directory. -/
def scriptPath (directory name : String) : String :=
  String.ofList (Path.join directory.toList (relativePath name).toList)

/-- The path with the text of the script there, if it can be read. -/
def readScript (files : FileTree) (path : String) : Option (String × String) :=
  match files.read path with
  | .ok text => some (path, text)
  | .error _ => none

/-- The path and the text of the first script of that name in the given directories. Where there is
none, or one that can not be read, the next directory is tried. -/
def findScript (files : FileTree) (directories : List String) (name : String) :
    Option (String × String) :=
  directories.findSome? fun directory => readScript files (scriptPath directory name)

end TracedScript.Module
