/-!
# ELF headers

The parts of an ELF file that matter for loading: the machine, the entry address, flags, and the
table of program headers. Both word sizes and both byte orders are understood; which of them can
be loaded is not decided here.

## Main definitions

* `ProgramHeader`, `ElfHeader`
* `ElfHeader.read?`: the headers of a file, if they are complete
-/

namespace PacketLift

/-- How numbers are stored in an ELF file. -/
structure ElfFormat where
  /-- Whether addresses have 64 bits. -/
  wide : Bool
  /-- Whether the least significant byte comes first. -/
  littleEndian : Bool
  deriving DecidableEq, Repr

/-- A program header: a part of the file and where it belongs in memory. -/
structure ProgramHeader where
  kind : Nat
  flags : Nat
  offset : Nat
  address : Nat
  fileSize : Nat
  memorySize : Nat
  deriving DecidableEq, Repr

/-- **The headers of an ELF file.** -/
structure ElfHeader where
  format : ElfFormat
  machine : Nat
  entry : Nat
  flags : Nat
  programs : List ProgramHeader
  deriving DecidableEq, Repr

/-- Whether bytes begin as an ELF file does. -/
def hasElfMagic (data : ByteArray) : Bool :=
  data[0]? == some 0x7F && data[1]? == some 0x45 && data[2]? == some 0x4C
    && data[3]? == some 0x46

namespace ElfFormat

/-- The number in some bytes, the least significant first. -/
def ofLittleEndian : List UInt8 → Nat
  | [] => 0
  | b :: rest => b.toNat + 256 * ofLittleEndian rest

/-- The number stored in `width` bytes at an offset. -/
def number? (f : ElfFormat) (data : ByteArray) (offset width : Nat) : Option Nat := do
  let bytes ← (List.range width).mapM fun i => data[offset + i]?
  return ofLittleEndian (if f.littleEndian then bytes else bytes.reverse)

/-- The size of the file header. -/
def headerSize (f : ElfFormat) : Nat := if f.wide then 64 else 52

/-- The size of a program header. -/
def programSize (f : ElfFormat) : Nat := if f.wide then 56 else 32

/-- The choice made by a byte of the file's first 16: the first way or the second. -/
def choice? {α : Type} (first second : α) : Option UInt8 → Option α
  | some 1 => some first
  | some 2 => some second
  | _ => none

/-- The format given by the first bytes of a file. -/
def read? (data : ByteArray) : Option ElfFormat := do
  guard (data.size ≥ 16)
  guard (hasElfMagic data)
  let wide ← choice? false true data[4]?
  let littleEndian ← choice? true false data[5]?
  return { wide, littleEndian }

end ElfFormat

/-- The program header at an offset. -/
def ProgramHeader.read? (f : ElfFormat) (data : ByteArray) (start : Nat) :
    Option ProgramHeader := do
  guard (start + f.programSize ≤ data.size)
  let kind ← f.number? data start 4
  if f.wide then
    return {
      kind
      flags := ← f.number? data (start + 4) 4
      offset := ← f.number? data (start + 8) 8
      address := ← f.number? data (start + 16) 8
      fileSize := ← f.number? data (start + 32) 8
      memorySize := ← f.number? data (start + 40) 8 }
  else
    return {
      kind
      flags := ← f.number? data (start + 24) 4
      offset := ← f.number? data (start + 4) 4
      address := ← f.number? data (start + 8) 4
      fileSize := ← f.number? data (start + 16) 4
      memorySize := ← f.number? data (start + 20) 4 }

namespace ElfHeader

/-- **The headers of a file**, if the file header is complete and so are all program headers. The
program headers stand one behind the other. -/
def read? (data : ByteArray) : Option ElfHeader := do
  let format ← ElfFormat.read? data
  guard (data.size ≥ format.headerSize)
  let addressSize := if format.wide then 8 else 4
  let machine ← format.number? data 18 2
  let entry ← format.number? data 24 addressSize
  let table ← format.number? data (24 + addressSize) addressSize
  let flags ← format.number? data (24 + 3 * addressSize) 4
  let count ← format.number? data (32 + 3 * addressSize) 2
  guard (count ≤ data.size / format.programSize)
  let programs ← (List.range count).mapM fun i =>
    ProgramHeader.read? format data (table + i * format.programSize)
  return { format, machine, entry, flags, programs }

end ElfHeader

end PacketLift
