import TracedScript.CommandLine.Execute

/-!
# The program

Takes a snapshot of the files that the command may read, and writes what the command answers.
-/

namespace TracedScript.CommandLine

/-- More steps than a run can take. -/
def allowance : Nat := Nat.pow 2 62

/-- How deep the directories of modules are searched. -/
def directoryDepth : Nat := 32

/-- Adds what stands at a path, unless it can not be read. -/
def addFile (t : FileTree) (path : String) : IO FileTree := do
  try
    if ← (← IO.FS.realPath path).isDir then return t.write path .directory
    return t.write path (.file (← IO.FS.readBinFile path))
  catch _ => return t

/-- Adds a directory with what modules can be found in: scripts, and directories named by
identifiers, in which the same is done. -/
def addDirectory (t : FileTree) (path : String) : Nat → IO FileTree
  | 0 => return t
  | n + 1 => do
    let mut tree := t.write path .directory
    let entries ← try (IO.FS.realPath path >>= fun p => p.readDir) catch _ => pure #[]
    for entry in entries do
      let below := String.ofList (Path.join path.toList entry.fileName.toList)
      if entry.path.extension = some (String.ofList Module.ending) then
        tree ← addFile tree below
      else if Module.isIdentifier entry.fileName.toList && (← entry.path.isDir) then
        tree ← addDirectory tree below n
    return tree

/-- The files that an invocation can read. -/
def Invocation.files (i : Invocation) : IO FileTree := do
  let home := (← IO.currentDir).components.filter (· ≠ "")
  let mut tree := FileTree.empty home
  for directory in i.settings.directories do
    tree ← addDirectory tree directory directoryDepth
  addFile tree i.file

end TracedScript.CommandLine

open TracedScript CommandLine in
/-- Answers the command that the arguments and the environment ask for. -/
def main (arguments : List String) : IO UInt32 := do
  let v : Variables :=
    ⟨← IO.getEnv "PERIDOT_PATH", (← IO.getEnv "FORCE_COLOR").isSome,
      (← IO.getEnv "NO_COLOR").isSome⟩
  let files ← match invocation Settings.standard.maxDepth v.searchPath arguments with
    | .ok i => i.files
    | .error _ => pure (.empty [])
  let r := execute allowance files v arguments
  IO.print r.output
  IO.eprint r.errors
  return r.code.toUInt32
