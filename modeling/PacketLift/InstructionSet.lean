import PacketLift.Journal
import PacketLift.Packet.Footprint
import PacketLift.MicroOp.Listing
import PacketLift.Word.Duplex

/-!
# Instruction sets

Lifting packets works for any set of instructions. A set says how words are decoded and what
operations an instruction becomes; it may keep a state of its own, such as statistics.

## Main definitions

* `Site`: what an instruction may know about its place
* `Execution`: what lifting an instruction came to
* `InstructionSet`: decoding and lifting
* `Site.extendSigned`, `Site.extendUnsigned`: immediates with an extender
-/

namespace PacketLift

/-- **What an instruction may know about its place.** -/
structure Site where
  /-- The word, or the bits of a sub-instruction. -/
  word : Word
  /-- The address of the word. -/
  pc : Word
  /-- The address of the packet's first word, from which branches are counted. -/
  packetPc : Word
  /-- The address behind the packet. -/
  nextPc : Word
  /-- What an extender in front supplies. -/
  extender : Option Word := none
  /-- Whether an earlier instruction of the packet writes predicates. -/
  predicatesWritten : Bool := false
  deriving DecidableEq, Repr

namespace Site

/-- The place of an instruction that is a packet by itself. -/
def alone (word pc : Word) : Site := { word, pc, packetPc := pc, nextPc := pc + 4 }

/-- An immediate of `bits` bits: its low six bits complete an extender, and without one it is
widened as a signed number. -/
def extendSigned (s : Site) (raw : Word) (bits : Nat) : Word :=
  match s.extender with
  | some upper => upper ||| (raw &&& 0x3F)
  | none => raw.signExtend bits

/-- An immediate: its low six bits complete an extender, and without one it stays as it is. -/
def extendUnsigned (s : Site) (raw : Word) : Word :=
  match s.extender with
  | some upper => upper ||| (raw &&& 0x3F)
  | none => raw

/-- The target of a branch: a distance from the packet's address, in words without an extender
and in bytes with one. -/
def branchTarget (s : Site) (raw : Word) (bits : Nat) : Word :=
  match s.extender with
  | some upper => s.packetPc + (upper ||| (raw &&& 0x3F))
  | none => s.packetPc + raw.branchOffset bits

end Site

/-- What lifting an instruction came to. -/
structure Execution (State : Type) where
  footprint : Footprint
  listing : Listing
  state : State
  messages : List Message := []

/-- **A set of instructions**: how words are decoded, and what operations they become. -/
structure InstructionSet where
  /-- Decoded instructions. -/
  Insn : Type
  /-- What the set remembers from one instruction to the next. -/
  State : Type
  /-- Decode a full-size word. -/
  decode : Word → State → Insn × State
  /-- Decode one half of a duplex word. -/
  decodeSub : SubInstruction → State → Insn × State
  /-- Append the operations of an instruction and tell its footprint. -/
  execute : Insn → Site → Listing → State → Execution State

end PacketLift
