import TracedScript.Text.Quoted
import TracedScript.Value.Basic

/-!
# The text of a value

`repr` writes a value as it stands in a program, where that is possible; `display` is what is
printed, the same but for strings, which are printed without quotes.
-/

namespace TracedScript

mutual

/-- The text of a content. A function shows the name given, as its text does not matter. -/
def Data.repr (name : Option String) : Data → String
  | .null => "Null"
  | .int n => String.ofList (Number.Word.text n)
  | .float x => String.ofList (Number.floatText x)
  | .str s => Text.quote s
  | .bool true => "True"
  | .bool false => "False"
  | .array items => "[" ++ Value.reprs items ++ "]"
  | .tuple [item] => "(" ++ item.repr ++ ",)"
  | .tuple items => "(" ++ Value.reprs items ++ ")"
  | .dict ⟨entries, _⟩ => "\x7b" ++ Entry.reprs entries ++ "\x7d"
  | .func _ =>
    match name with
    | some name => s!"<Func {name}>"
    | none => "<Func>"
  | .builtin function => s!"<BuiltInFunc {function.name}>"
  | .exception _ error => s!"<Exception {error.kind.name}: {error.message}>"
  | .namespace name _ => s!"<Namespace {name}>"

/-- The text of a value as it stands in a program. -/
def Value.repr : Value → String
  | ⟨data, trace⟩ => data.repr trace.name

/-- Values separated by commas. -/
def Value.reprs : List Value → String
  | [] => ""
  | [v] => v.repr
  | v :: vs => v.repr ++ ", " ++ Value.reprs vs

/-- Entries separated by commas. -/
def Entry.reprs : List Entry → String
  | [] => ""
  | [⟨label, value⟩] => label.repr ++ ": " ++ value.repr
  | ⟨label, value⟩ :: es => label.repr ++ ": " ++ value.repr ++ ", " ++ Entry.reprs es

end

/-- What `print` shows. -/
def Value.display (v : Value) : String :=
  match v.data with
  | .str s => s
  | _ => v.repr

end TracedScript
