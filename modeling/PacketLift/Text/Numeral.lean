/-!
# Numerals

Numbers as they stand in listings and messages: lower-case and upper-case hexadecimal, binary,
and any of these filled with zeros to a fixed width.

## Main definitions

* `hex n`, `upperHex n`, `binary n`: the digits of `n` without leading zeros
* `padded width digits`: `digits` with zeros in front, up to `width` characters
* `hex8 n`: the usual form of an address, eight hexadecimal digits
-/

namespace PacketLift.Text

/-- The digits of `n` in base 16, in lower case. -/
def hex (n : Nat) : String := String.ofList (Nat.toDigits 16 n)

/-- The digits of `n` in base 16, in upper case. -/
def upperHex (n : Nat) : String := String.ofList ((Nat.toDigits 16 n).map Char.toUpper)

/-- The digits of `n` in base 2. -/
def binary (n : Nat) : String := String.ofList (Nat.toDigits 2 n)

/-- Zeros in front of `digits`, so that at least `width` characters result. -/
def padded (width : Nat) (digits : String) : String :=
  String.ofList (List.replicate (width - digits.length) '0') ++ digits

/-- An address: eight lower-case hexadecimal digits. -/
def hex8 (n : Nat) : String := padded 8 (hex n)

/-- An address with its `0x` mark. -/
def address (n : Nat) : String := "0x" ++ hex8 n

/-- The items one after the other, with `separator` between neighbours. -/
def joined (separator : String) (items : List String) : String :=
  separator.intercalate items

/-- A list of numbers as it stands in messages: `[0, 2, 1]`. -/
def numberList (ns : List Nat) : String := "[" ++ joined ", " (ns.map toString) ++ "]"

end PacketLift.Text
