import TracedScript.Text.Blank

/-!
# Paths

Paths are texts with `/` between their parts, written as they were given.
-/

namespace TracedScript.Path

/-- The pieces of a text between the given characters; one more than there are such characters. -/
def split (separator : Char) : List Char → List (List Char)
  | [] => [[]]
  | c :: cs =>
    if c = separator then [] :: split separator cs
    else
      match split separator cs with
      | [] => [[c]]
      | p :: ps => (c :: p) :: ps

/-- Puts a path behind a directory. Nothing is added to an empty directory, a `/` at the end of the
directory is not doubled, and a path from the root stands for itself. -/
def join (directory path : List Char) : List Char :=
  if path.head? = some '/' then path
  else if directory = [] ∨ directory.getLast? = some '/' then directory ++ path
  else directory ++ '/' :: path

/-- Drops slashes at the end. -/
def dropSlashes (path : List Char) : List Char := (path.reverse.dropWhile (· = '/')).reverse

/-- Drops the last point and what stands behind it from the last part of a path. A part that starts
with its only point has no ending, nor has the part of two points. -/
def dropEnding (path : List Char) : List Char :=
  -- the last part is read from its end
  let part := path.reverse.takeWhile (· ≠ '/')
  match part.dropWhile (· ≠ '.') with
  | _ :: _ :: _ =>
    if part = ['.', '.'] then path
    else path.take (path.length - ((part.takeWhile (· ≠ '.')).length + 1))
  | _ => path

/-- Gives the last part of a path the ending, in place of the one that it has. A path without parts
is left alone. -/
def withEnding (path ending : List Char) : List Char :=
  let stem := dropSlashes path
  if stem = [] then path else dropEnding stem ++ '.' :: ending

/-- A part that a path does not need: nothing, or a point behind a slash. -/
def isIdle (part : List Char) : Bool := part = [] || part = ['.']

/-- Drops the parts at the end that a path does not need. -/
def dropIdle (parts : List (List Char)) : List (List Char) := (parts.reverse.dropWhile isIdle).reverse

/-- The directory that a path lies in: everything before its last part, empty if there is only one.
-/
def parent (path : List Char) : List Char :=
  let root := path.takeWhile (· = '/')
  let parts := dropIdle ((dropIdle (split '/' path)).dropLast)
  let inside := Text.join ['/'] parts
  if inside = [] ∧ root ≠ [] then ['/'] else inside

end TracedScript.Path
