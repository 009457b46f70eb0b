import PacketLift.Text.Numeral
import PacketLift.Word.Field

/-!
# Faults of lifting

Everything that can stop the lifting of a block, with the address at which it was found. The
wording stands in `Fault.message` alone.
-/

namespace PacketLift

/-- **Why a block could not be lifted.** -/
inductive Fault where
  /-- The block's first address is not a multiple of four. -/
  | misaligned (pc : Word)
  /-- A constant extender stands where no instruction can use it. -/
  | danglingExtender (pc : Word)
  /-- A duplex word is of the reserved class. -/
  | reservedDuplex (kind : Nat) (pc : Word)
  /-- A packet holds more instructions than fit. -/
  | packetFull (capacity : Nat) (pc : Word)
  /-- The instructions of a packet wait for each other. -/
  | dependencyCycle (pc : Word) (unplaced : Nat)
  /-- No instruction word can be read at the address. -/
  | unmapped (address : Word)
  deriving DecidableEq, Repr

/-- The text shown for a fault. -/
def Fault.message : Fault → String
  | misaligned pc => "unaligned PC=" ++ Text.address pc.toNat
  | danglingExtender pc =>
    "constant extender at PC " ++ Text.address pc.toNat
      ++ " not consumed by a following instruction"
  | reservedDuplex kind pc =>
    "illegal duplex ICLASS 0x" ++ Text.hex kind ++ " at PC " ++ Text.address pc.toNat
  | packetFull capacity pc =>
    "packet at PC " ++ Text.address pc.toNat ++ " exceeds " ++ toString capacity
      ++ " instructions"
  | dependencyCycle pc unplaced =>
    "circular register dependency in packet at PC " ++ Text.address pc.toNat ++ " ("
      ++ toString unplaced ++ " instructions unplaced)"
  | unmapped address => "cannot fetch instruction word at " ++ Text.address address.toNat

end PacketLift
