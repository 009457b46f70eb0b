import PacketLift.Text.Blank
import PacketLift.Text.Digits
import PacketLift.Word.Field

/-!
# Words written as numbers

A number on the command line or in the environment: decimal, or hexadecimal behind `0x`. Blanks
around it and underscores anywhere in it do not count, and one plus sign may stand in front of its
digits. A number that does not fit into a word is refused.

## Main definitions

* `signedDigitsValue? base cs`: digits behind an optional plus sign
* `Word.ofLiteral? text`: the word that a text stands for
-/

namespace PacketLift

/-- The number that digits stand for, with or without a plus sign in front. -/
def signedDigitsValue? (base : Nat) : List Char → Option Nat
  | '+' :: cs => Text.digitsValue? base cs
  | cs => Text.digitsValue? base cs

namespace Word

/-- The number that a text stands for, however large. -/
def literalValue? (text : String) : Option Nat :=
  match (Text.trimmed text.toList).filter (· ≠ '_') with
  | '0' :: 'x' :: digits => signedDigitsValue? 16 digits
  | '0' :: 'X' :: digits => signedDigitsValue? 16 digits
  | digits => signedDigitsValue? 10 digits

/-- **The word that a text stands for.** -/
def ofLiteral? (text : String) : Option Word :=
  (literalValue? text).bind fun n => if n < 0x100000000 then some (BitVec.ofNat 32 n) else none

end Word

end PacketLift
