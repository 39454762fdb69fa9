import TracedScript.Scope
import TracedScript.Value.Collection

/-!
# Modules of the language itself
-/

namespace TracedScript.Module

/-- The version of the language. -/
def version : String := "0.1.0"

/-- A binding holds its value under its own name. -/
def bind (name : String) (v : Value) : String × Value := (name, v.named name)

/-- Constants and functions on numbers. -/
def math : Bindings :=
  [bind "pi" (.float (Float.ofBits 0x400921FB54442D18)),
    bind "e" (.float (Float.ofBits 0x4005BF0A8B145769)),
    bind "tau" (.float (Float.ofBits 0x401921FB54442D18))] ++
  Builtin.math.map fun f => bind f.name (.ofData (.builtin f))

/-- The version of the language and the directories searched for modules. -/
def sys (directories : List String) : Bindings :=
  [bind "version" (.str version),
    bind "path" (.ofData (.array (directories.map .str)))]

/-- The bindings of the module of that name, if the language has one. -/
def native? (directories : List String) (name : String) : Option Bindings :=
  if name = "math" then some math
  else if name = "sys" then some (sys directories)
  else none

end TracedScript.Module
