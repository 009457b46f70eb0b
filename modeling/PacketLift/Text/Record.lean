import PacketLift.Text.Numeral

/-!
# Records and variants as text

Diagnostics show a value by its name and its named parts: `Move \x7b rd: 1, rs: 2 \x7d`. A value
without parts is its name alone, and an optional part is `None` or `Some(x)`.

## Main definitions

* `record name parts`: a name with named parts
* `optional x`: an optional part
* `set xs`: members in braces, in order
-/

namespace PacketLift.Text

/-- **A named value with named parts**: `Name \x7b a: 1, b: 2 \x7d`. -/
def record (name : String) (parts : List (String × String)) : String :=
  name ++ " \x7b " ++ joined ", " (parts.map fun (label, text) => label ++ ": " ++ text) ++ " \x7d"

/-- An optional part: `None` or `Some(x)`. -/
def optional : Option String → String
  | none => "None"
  | some text => "Some(" ++ text ++ ")"

/-- A truth value: `true` or `false`. -/
def truth (b : Bool) : String := if b then "true" else "false"

/-- Members in braces with `separator` between them. -/
def set (separator : String) (members : List String) : String :=
  "\x7b" ++ joined separator members ++ "\x7d"

end PacketLift.Text
