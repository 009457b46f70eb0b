import PacketLift.Word.Field

/-!
# The role of a word in its packet

Two bits of every word say how it takes part in its packet, before anything else about the word
is known. A word of class zero that is no duplex carries the upper bits of the next instruction's
immediate: it is a constant extender.

## Main definitions

* `Role`: the four meanings of bits 15:14
* `Word.role w`, `Role.endsPacket`: which words close a packet
* `Word.isExtender w`, `Word.extension w`: constant extenders and what they carry
-/

namespace PacketLift

/-- **How a word takes part in its packet**, from bits 15:14. -/
inductive Role where
  /-- `00`: two half-size instructions, closing the packet. -/
  | duplex
  /-- `01`: more words follow. -/
  | inner
  /-- `10`: more words follow, and the packet may end a hardware loop. -/
  | loopMark
  /-- `11`: the last word. -/
  | last
  deriving DecidableEq, Repr

namespace Role

/-- The two bits of a role. -/
def bits : Role → Nat
  | duplex => 0
  | inner => 1
  | loopMark => 2
  | last => 3

/-- Whether the packet closes after a word of this role. -/
def endsPacket : Role → Bool
  | duplex => true
  | last => true
  | inner => false
  | loopMark => false

end Role

namespace Word

/-- The role of a word. -/
def role (w : Word) : Role :=
  match (w.field 14 15).toNat with
  | 0 => .duplex
  | 1 => .inner
  | 2 => .loopMark
  | _ => .last

/-- The instruction class, bits 31:28. -/
def instructionClass (w : Word) : Word := w.field 28 31

/-- Whether `w` is a constant extender: class zero, and no duplex. -/
def isExtender (w : Word) : Bool := w.field 14 15 != 0 && w.instructionClass == 0

/-- The upper 26 bits of an immediate carried by an extender, in their place. -/
def extension (w : Word) : Word := w.fields 0 13 16 27 <<< 6

/-- The word of `trap0(#0)`, after which a block ends. -/
def trapMark : Word := 0x5400C000

end Word

end PacketLift
