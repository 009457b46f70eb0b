import PacketLift.Journal
import PacketLift.Text.Numeral
import PacketLift.Word.Field

/-!
# Segments of guest memory

A segment is a run of bytes at a base address: given bytes, and then zeros up to its size. It may
reach beyond the top of the address space, where no address leads.

## Main definitions

* `Segment`, `Segment.size`, `Segment.contains`
* `Segment.byte?`, `Segment.word?`: what stands at an offset
-/

namespace PacketLift

/-- **A run of guest bytes.** -/
structure Segment where
  base : Word
  /-- The bytes at the start of the segment. -/
  data : ByteArray
  /-- How many zeros follow them. -/
  zeros : Nat := 0
  executable : Bool

namespace Segment

/-- How many bytes the segment has. -/
def size (s : Segment) : Nat := s.data.size + s.zeros

/-- The address behind the last byte, which may lie beyond the top of memory. -/
def finish (s : Segment) : Nat := s.base.toNat + s.size

/-- Whether an address lies in the segment. -/
def contains (s : Segment) (a : Word) : Bool := s.base ≤ a && a.toNat < s.finish

/-- The byte at an offset. -/
def byte? (s : Segment) (i : Nat) : Option Byte :=
  match s.data[i]? with
  | some b => some b.toBitVec
  | none => if i < s.size then some 0 else none

/-- **The word at an offset**, the least significant byte first, if all four bytes are there. -/
def word? (s : Segment) (i : Nat) : Option Word := do
  let b0 ← s.byte? i
  let b1 ← s.byte? (i + 1)
  let b2 ← s.byte? (i + 2)
  let b3 ← s.byte? (i + 3)
  return b3 ++ b2 ++ b1 ++ b0

/-- All bytes of the segment. -/
def bytes (s : Segment) : List Byte := (List.range s.size).filterMap s.byte?

/-- The segment's bounds as text. -/
def text (s : Segment) : String :=
  "Segment(" ++ Text.address s.base.toNat ++ ".." ++ Text.address s.finish
    ++ (if s.executable then ", X)" else ")")

/-- The message about a segment that is mapped. -/
def mapMessage (s : Segment) : Message :=
  ⟨.debug,
    "map " ++ Text.address s.base.toNat ++ " + 0x" ++ Text.hex s.size
      ++ (if s.executable then " (X)" else "")⟩

end Segment

end PacketLift
