import PacketLift.Word.Field

/-!
# Registers

The guest has 32 general registers and 32 control registers. A register keeps the number under
which it was named; which of the 64 slots it occupies depends on that number modulo 32 only.

## Main definitions

* `Register`, `Register.name`, `Register.alias?`
* `Register.slot`, `Register.ofSlot`: the 64 slots, general registers first
-/

namespace PacketLift

/-- **A register, as it was named.** -/
inductive Register where
  | general (number : Byte)
  | control (number : Byte)
  deriving DecidableEq, Repr

namespace Register

/-- The link register, which holds return addresses. -/
def lr : Register := general 31

/-- Start address of hardware loop 0. -/
def sa0 : Register := control 0

/-- Remaining count of hardware loop 0. -/
def lc0 : Register := control 1

/-- Start address of hardware loop 1. -/
def sa1 : Register := control 2

/-- Remaining count of hardware loop 1. -/
def lc1 : Register := control 3

/-- The predicates, one byte each. -/
def p : Register := control 4

/-- The program counter. -/
def pc : Register := control 9

/-- The slot of a register: 0 to 31 for general and 32 to 63 for control registers. -/
def slot : Register → Fin 64
  | general n => ⟨n.toNat % 32, by omega⟩
  | control n => ⟨32 + n.toNat % 32, by omega⟩

/-- The register of a slot. -/
def ofSlot (i : Fin 64) : Register :=
  if i.val < 32 then general (BitVec.ofNat 8 i.val) else control (BitVec.ofNat 8 (i.val - 32))

/-- The register of a slot number, if there is such a slot. -/
def ofSlot? (i : Nat) : Option Register :=
  if h : i < 64 then some (ofSlot ⟨i, h⟩) else none

/-- All registers in slot order. -/
def all : List Register := (List.finRange 64).map ofSlot

/-- The name of a register: `r7`, `c4`. -/
def name : Register → String
  | general n => "r" ++ toString n.toNat
  | control n => "c" ++ toString n.toNat

/-- The customary names of general registers. -/
def generalAlias? : Nat → Option String
  | 29 => some "sp"
  | 30 => some "fp"
  | 31 => some "lr"
  | _ => none

/-- The customary names of control registers. -/
def controlAlias? : Nat → Option String
  | 0 => some "sa0"
  | 1 => some "lc0"
  | 2 => some "sa1"
  | 3 => some "lc1"
  | 4 => some "p3:0"
  | 6 => some "m0"
  | 7 => some "m1"
  | 8 => some "usr"
  | 9 => some "pc"
  | 10 => some "ugp"
  | 11 => some "gp"
  | 12 => some "cs0"
  | 13 => some "cs1"
  | 14 => some "upcyclelo"
  | 15 => some "upcyclehi"
  | 16 => some "framelimit"
  | 17 => some "framekey"
  | 18 => some "pktcountlo"
  | 19 => some "pktcounthi"
  | 30 => some "utimerlo"
  | 31 => some "utimerhi"
  | _ => none

/-- The customary name of a register. It goes by the number as given, so that only a number
below 32 has one. -/
def alias? : Register → Option String
  | general n => generalAlias? n.toNat
  | control n => controlAlias? n.toNat

/-- The customary name if there is one, and the plain name otherwise. -/
def displayName (r : Register) : String := r.alias?.getD r.name

end Register

end PacketLift
