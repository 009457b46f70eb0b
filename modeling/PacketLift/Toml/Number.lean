import PacketLift.Text.Digits

/-!
# Numbers and dates of TOML

A number or date is a run of characters without blanks; only the date and the time of a full
date-time may have a space between them. Underscores may stand between digits.

## Main definitions

* `integer?`: integers in four bases, which have to fit into 64 bits with a sign
* `isFloat`: floating-point numbers, which have to be finite unless they are negative
* `isDateTime`: dates, times, and both together
-/

namespace PacketLift.Toml

/-! ## Digits -/

/-- Digits without the underscores between them. Each underscore has a digit on either side. -/
def ungrouped? (base : Nat) : List Char → Option (List Char)
  | [] => none
  | [c] => if (Text.digitValue? base c).isSome then some [c] else none
  | c :: '_' :: cs =>
    if (Text.digitValue? base c).isSome then (ungrouped? base cs).map (c :: ·) else none
  | c :: cs => if (Text.digitValue? base c).isSome then (ungrouped? base cs).map (c :: ·) else none

/-- The number that decimal digits stand for, where none stand for zero. -/
def decimal (digits : List Char) : Nat := (Text.digitsValue? 10 digits).getD 0

/-- Take off a sign; the flag tells whether it was a minus. -/
def splitSign : List Char → Bool × List Char
  | '+' :: cs => (false, cs)
  | '-' :: cs => (true, cs)
  | cs => (false, cs)

/-- The digits of a decimal integer: without zeros in front. -/
def decimalDigits? (cs : List Char) : Option (List Char) :=
  match cs with
  | '0' :: _ :: _ => none
  | _ => ungrouped? 10 cs

/-! ## Integers -/

/-- The largest integer. -/
def maxInteger : Nat := 0x7FFFFFFFFFFFFFFF

/-- A number behind the mark of its base. -/
def basedInteger? (base : Nat) (cs : List Char) : Option Int := do
  let n ← Text.digitsValue? base (← ungrouped? base cs)
  if n ≤ maxInteger then some n else none

/-- **An integer.** -/
def integer? (cs : List Char) : Option Int :=
  match cs with
  | '0' :: 'x' :: digits => basedInteger? 16 digits
  | '0' :: 'o' :: digits => basedInteger? 8 digits
  | '0' :: 'b' :: digits => basedInteger? 2 digits
  | _ => do
    let (negative, digits) := splitSign cs
    let n := decimal (← decimalDigits? digits)
    if negative then
      if n ≤ maxInteger + 1 then some (-n) else none
    else if n ≤ maxInteger then some n
    else none

/-! ## Floating-point numbers -/

/-- The least number that no double is near enough to: halfway from the largest double to the next
power of two. -/
def doubleLimit : Nat := Nat.pow 2 1024 - Nat.pow 2 970

/-- Whether `digits · 10 ^ exponent` is below the limit of doubles. -/
def isFinite (digits : List Char) (exponent : Int) : Bool :=
  let significant := digits.dropWhile (· = '0')
  let magnitude : Int := significant.length + exponent
  if significant.isEmpty || magnitude < 309 then true
  else if magnitude > 309 then false
  else if exponent ≥ 0 then decimal significant * Nat.pow 10 exponent.toNat < doubleLimit
  else decimal significant < doubleLimit * Nat.pow 10 (-exponent).toNat

/-- The exponent behind its letter. -/
def exponent? (cs : List Char) : Option Int := do
  let (negative, digits) := splitSign cs
  let n := decimal (← ungrouped? 10 digits)
  return if negative then -n else n

/-- Whether a decimal fraction with a point, an exponent or both is a number below the limit. A
negative number has no limit. -/
def isDecimalFloat (cs : List Char) : Bool :=
  let (negative, unsigned) := splitSign cs
  let mantissa := unsigned.takeWhile fun c => c ≠ 'e' && c ≠ 'E'
  let whole := mantissa.takeWhile (· ≠ '.')
  let parts : Option (List Char × Int) := do
    let wholeDigits ← decimalDigits? whole
    let fraction ← match mantissa.dropWhile (· ≠ '.') with
      | [] => some []
      | _ :: cs => ungrouped? 10 cs
    let exponent ← match unsigned.dropWhile fun c => c ≠ 'e' && c ≠ 'E' with
      | [] => if fraction.isEmpty then none else some 0
      | _ :: cs => exponent? cs
    return (wholeDigits ++ fraction, exponent - fraction.length)
  match parts with
  | none => false
  | some (digits, exponent) => negative || isFinite digits exponent

/-- **Whether characters are a floating-point number.** -/
def isFloat (cs : List Char) : Bool :=
  let (_, unsigned) := splitSign cs
  unsigned = ['i', 'n', 'f'] || unsigned = ['n', 'a', 'n'] || isDecimalFloat cs

/-! ## Dates and times -/

/-- The number of two digits, if it is in a range. -/
def twoDigits? (lo hi : Nat) (a b : Char) : Option Nat :=
  if a.isDigit && b.isDigit then
    let n := decimal [a, b]
    if lo ≤ n && n ≤ hi then some n else none
  else none

/-- How many days a month has. -/
def daysIn (year month : Nat) : Nat :=
  if month = 2 then
    if year % 4 = 0 && (year % 100 ≠ 0 || year % 400 = 0) then 29 else 28
  else if month = 4 || month = 6 || month = 9 || month = 11 then 30
  else 31

/-- Take a date off the front. -/
def date? : List Char → Option (List Char)
  | y1 :: y2 :: y3 :: y4 :: '-' :: m1 :: m2 :: '-' :: d1 :: d2 :: rest => do
    guard ([y1, y2, y3, y4].all Char.isDigit)
    let month ← twoDigits? 1 12 m1 m2
    let day ← twoDigits? 1 31 d1 d2
    guard (day ≤ daysIn (decimal [y1, y2, y3, y4]) month)
    return rest
  | _ => none

/-- Take the fraction of a second off the front, if there is one. -/
def skipFraction : List Char → List Char
  | '.' :: c :: rest => if c.isDigit then rest.dropWhile Char.isDigit else '.' :: c :: rest
  | cs => cs

/-- Take a time of the day off the front. -/
def time? : List Char → Option (List Char)
  | h1 :: h2 :: ':' :: m1 :: m2 :: ':' :: s1 :: s2 :: rest => do
    let _ ← twoDigits? 0 23 h1 h2
    let _ ← twoDigits? 0 59 m1 m2
    let _ ← twoDigits? 0 60 s1 s2
    return skipFraction rest
  | _ => none

/-- Whether characters are an offset from universal time, or nothing. -/
def isOffset : List Char → Bool
  | [] => true
  | ['Z'] => true
  | ['z'] => true
  | [sign, h1, h2, ':', m1, m2] =>
    (sign = '+' || sign = '-') && (twoDigits? 0 23 h1 h2).isSome && (twoDigits? 0 59 m1 m2).isSome
  | _ => false

/-- **Whether characters are a date, a time or both.** -/
def isDateTime (cs : List Char) : Bool :=
  match date? cs with
  | some [] => true
  | some (c :: rest) =>
    (c = 'T' || c = 't' || c = ' ') && (match time? rest with
      | some offset => isOffset offset
      | none => false)
  | none => time? cs = some []

/-! ## The characters of a number -/

/-- Whether a character may be a part of a number, a date or a word such as `true`. -/
def isPlainChar (c : Char) : Bool :=
  c.isAlphanum || c = '+' || c = '-' || c = '_' || c = '.' || c = ':'

/-- **A run of plain characters.** A date is joined with what follows it behind one space, if that
begins with a digit. -/
def plain (cs : List Char) : List Char × List Char :=
  let first := cs.takeWhile isPlainChar
  let rest := cs.dropWhile isPlainChar
  match date? first, rest with
  | some [], ' ' :: c :: more =>
    if c.isDigit then
      (first ++ ' ' :: (c :: more).takeWhile isPlainChar, (c :: more).dropWhile isPlainChar)
    else (first, rest)
  | _, _ => (first, rest)

end PacketLift.Toml
