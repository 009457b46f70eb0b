import PacketLift.Memory.Segment

/-!
# Guest memory

An image is a list of segments and an entry address. Where segments overlap, the one that was
added last is seen. A word is read from a single segment: the one that has its first byte.

## Main definitions

* `Image`, `Image.add`, `Image.ofSegment`
* `Image.segmentAt?`, `Image.byte?`, `Image.word?`: what stands at an address
-/

namespace PacketLift

/-- **Guest memory**, with the address where execution starts. -/
structure Image where
  segments : List Segment := []
  entry : Word := 0

namespace Image

/-- Memory without any segment. -/
def empty : Image := {}

/-- Memory with one more segment, which covers the others. -/
def add (m : Image) (s : Segment) : Image := { m with segments := m.segments ++ [s] }

/-- Memory of one executable segment, entered at its base. -/
def ofBytes (base : Word) (data : ByteArray) : Image :=
  { segments := [{ base, data, executable := true }], entry := base }

/-- How many bytes all segments have together. -/
def size (m : Image) : Nat := m.segments.foldl (fun n s => n + s.size) 0

/-- The segment that is seen at an address. -/
def segmentAt? (m : Image) (a : Word) : Option Segment :=
  m.segments.reverse.find? (·.contains a)

/-- The byte at an address. -/
def byte? (m : Image) (a : Word) : Option Byte :=
  (m.segmentAt? a).bind fun s => s.byte? (a - s.base).toNat

/-- **The word at an address**, if one segment has all of it. -/
def word? (m : Image) (a : Word) : Option Word :=
  (m.segmentAt? a).bind fun s => s.word? (a - s.base).toNat

/-- The messages about an image's segments. -/
def messages (m : Image) : List Message := m.segments.map Segment.mapMessage

end Image

/-- The bytes of words, the least significant byte of each first. -/
def bytesOfWords (ws : List Word) : ByteArray :=
  ⟨(ws.flatMap fun w =>
    [0, 8, 16, 24].map fun i => UInt8.ofBitVec ((w >>> i).setWidth 8)).toArray⟩

end PacketLift
