/-!
# Digits

Numbers read from their digits, in bases up to 36.

## Main definitions

* `digitValue? base c`: the value of one digit
* `digitsValue? base cs`: the number that digits stand for
-/

namespace PacketLift.Text

/-- The value of a digit, upper or lower case, if it is below the base. -/
def digitValue? (base : Nat) (c : Char) : Option Nat :=
  let value? :=
    if '0' ≤ c ∧ c ≤ '9' then some (c.toNat - '0'.toNat)
    else if 'a' ≤ c ∧ c ≤ 'z' then some (c.toNat - 'a'.toNat + 10)
    else if 'A' ≤ c ∧ c ≤ 'Z' then some (c.toNat - 'A'.toNat + 10)
    else none
  value?.filter (· < base)

/-- **The number that digits stand for.** There has to be at least one. -/
def digitsValue? (base : Nat) : List Char → Option Nat
  | [] => none
  | cs => cs.foldlM (fun n c => (digitValue? base c).map (base * n + ·)) 0

end PacketLift.Text
