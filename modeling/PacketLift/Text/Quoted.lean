import PacketLift.Text.Hidden
import PacketLift.Text.Numeral

/-!
# Quoted text

Text that came from outside stands in messages between double quotes. Quotes and backslashes in it
are escaped, the common controls have short escapes, and other hidden characters are written by
their code point.
-/

namespace PacketLift.Text

/-- One character in quoted text. -/
def quotedChar (c : Char) : String :=
  match c with
  | '\x00' => "\\0"
  | '\t' => "\\t"
  | '\r' => "\\r"
  | '\n' => "\\n"
  | '\\' => "\\\\"
  | '"' => "\\\""
  | _ => if isHidden c then "\\u\x7b" ++ hex c.toNat ++ "\x7d" else c.toString

/-- **Text between double quotes**, with all that is hidden or ambiguous escaped. -/
def quoted (text : String) : String :=
  "\"" ++ String.join (text.toList.map quotedChar) ++ "\""

end PacketLift.Text
