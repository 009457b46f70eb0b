/-!
# Bit fields of instruction words

A guest instruction is a 32-bit word, and its operands are scattered over ranges of bits. This
module reads such ranges, joins two of them, and widens signed fields to a full word. Bits are
numbered from 0, the least significant one, and both ends of a range belong to it.

## Main definitions

* `Word.field w lo hi`: bits `lo` to `hi` of `w`, right-justified
* `Word.fields w lo hi lo' hi'`: two ranges joined, the second above the first
* `Word.signExtend v bits`: the low `bits` bits of `v`, widened as a signed number
* `Word.branchOffset v bits`: the byte distance meant by a signed field that counts words
-/

namespace PacketLift

/-- A guest word. Its arithmetic wraps at 32 bits. -/
abbrev Word := BitVec 32

/-- A byte of guest memory, or a small operand such as a register number. -/
abbrev Byte := BitVec 8

namespace Word

/-- The word whose low `width` bits are ones. -/
def lowMask (width : Nat) : Word :=
  if width < 32 then (1 <<< width) - 1 else BitVec.allOnes 32

/-- Bits `lo` to `hi` of `w`, right-justified. -/
def field (w : Word) (lo hi : Nat) : Word := (w >>> lo) &&& lowMask (hi - lo + 1)

/-- **Two ranges joined**: bits `lo'` to `hi'` stand above bits `lo` to `hi`. -/
def fields (w : Word) (lo hi lo' hi' : Nat) : Word :=
  (w.field lo' hi' <<< (hi - lo + 1)) ||| w.field lo hi

/-- The single bit `i` of `w`. -/
def flag (w : Word) (i : Nat) : Bool := w.field i i != 0

/-- The low eight bits of `w`. -/
def lowByte (w : Word) : Byte := w.setWidth 8

/-- The low `bits` bits of `v`, widened as a signed number in two's complement. -/
def signExtend (v : Word) (bits : Nat) : Word := (v <<< (32 - bits)).sshiftRight (32 - bits)

/-- The distance in bytes meant by a signed field of `bits` bits that counts words. -/
def branchOffset (v : Word) (bits : Nat) : Word := v.signExtend bits <<< 2

end Word

end PacketLift
