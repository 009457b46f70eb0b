import PacketLift.Elf.Header
import PacketLift.Memory.Image
import PacketLift.Text.Record

/-!
# Loading images

An image comes from a flat file of code, mapped at a chosen address, or from an ELF file for the
guest's machine, whose loadable parts become segments. Loading is all or nothing: one bad part
means that there is no image.

## Main definitions

* `LoadError`, `LoadError.message`: why an image cannot be loaded
* `Executable`, `Executable.read`: an ELF file for the guest's machine
* `Executable.parts`, `Executable.image`: its loadable parts, and the memory made of them
* `ImageFormat`, `loadImage`: the image in the bytes of a file
-/

namespace PacketLift

/-- **Why an image cannot be loaded.** -/
inductive LoadError where
  /-- The file cannot be read. -/
  | unreadable (path reason : String)
  /-- The file does not begin as an ELF file does. -/
  | notElf
  /-- The headers of the ELF file are broken. -/
  | malformed
  /-- The ELF file is for another machine. -/
  | otherMachine (machine : Nat)
  /-- The ELF file has 64-bit addresses. -/
  | wide
  /-- The ELF file stores the most significant byte first. -/
  | bigEndian
  /-- A part reaches beyond the end of the file. -/
  | pastEnd (address offset fileSize length : Nat)
  /-- A part asks for more memory than can be given. -/
  | tooLarge (address size : Nat)
  /-- Nothing in the file is to be loaded. -/
  | nothingToLoad
  deriving DecidableEq, Repr

/-- The guest's machine number. -/
def guestMachine : Nat := 164

/-- The text shown for a failure to load. -/
def LoadError.message : LoadError → String
  | unreadable path reason => "Failed to read " ++ path ++ ": " ++ reason
  | notElf => "Not an ELF file (use --raw for flat binaries)"
  | malformed => "Failed to parse ELF"
  | otherMachine machine =>
    "Not a Hexagon ELF: machine type 0x" ++ Text.upperHex machine ++ ", expected 0x"
      ++ Text.upperHex guestMachine ++ " (EM_HEXAGON)"
  | wide => "Hexagon ELF must be 32-bit, got 64-bit"
  | bigEndian => "Hexagon ELF must be little-endian"
  | pastEnd address offset fileSize length =>
    "Segment at 0x" ++ Text.padded 8 (Text.upperHex address) ++ " reaches past end of file ("
      ++ toString offset ++ " + " ++ toString fileSize ++ " > " ++ toString length ++ ")"
  | tooLarge address size =>
    "Segment at 0x" ++ Text.padded 8 (Text.upperHex address) ++ " too large: 0x"
      ++ Text.upperHex size ++ " bytes"
  | nothingToLoad => "ELF has no loadable segments"

/-- **An ELF file for the guest's machine.** -/
structure Executable where
  data : ByteArray
  header : ElfHeader

/-- A loadable part of an ELF file. -/
structure LoadPart where
  address : Word
  memorySize : Nat
  /-- The bytes in the file. -/
  data : ByteArray
  executable : Bool
  writable : Bool

/-- The part in memory: its bytes, and zeros up to its size in memory. -/
def LoadPart.segment (p : LoadPart) : Segment where
  base := p.address
  data := p.data
  zeros := p.memorySize - p.data.size
  executable := p.executable

namespace Executable

/-- **Read an ELF file for the guest's machine**: 32 bits, the least significant byte first. -/
def read (data : ByteArray) : Except LoadError Executable :=
  match ElfHeader.read? data with
  | none => .error .malformed
  | some header =>
    if header.machine ≠ guestMachine then .error (.otherMachine header.machine)
    else if header.format.wide then .error .wide
    else if !header.format.littleEndian then .error .bigEndian
    else .ok { data, header }

/-- The address where execution starts. -/
def entry (e : Executable) : Word := BitVec.ofNat 32 e.header.entry

/-- The CPU's version, from the flags. -/
def cpuVersion (e : Executable) : Nat := e.header.flags % 0x400

/-- The CPU's name. -/
def cpuName (e : Executable) : String := "v" ++ Text.hex e.cpuVersion

/-- The file as text. -/
def text (e : Executable) : String :=
  Text.record "HexagonElf"
    [("cpu", "\"" ++ e.cpuName ++ "\""),
      ("entry_point", "0x" ++ Text.padded 8 (Text.upperHex e.entry.toNat)),
      ("flags", "0x" ++ Text.padded 8 (Text.upperHex e.header.flags)),
      ("data_len", toString e.data.size)]

/-- The most memory that one part may ask for. -/
def partLimit : Nat := 256 * 1024 * 1024

/-- Whether a program header stands for something that is loaded. -/
def isLoadable (h : ProgramHeader) : Bool := h.kind == 1 && h.memorySize > 0

/-- The part of the file that a program header stands for. -/
def part (e : Executable) (h : ProgramHeader) : Except LoadError LoadPart :=
  if h.offset + h.fileSize > e.data.size then
    .error (.pastEnd h.address h.offset h.fileSize e.data.size)
  else if h.memorySize > partLimit then .error (.tooLarge h.address h.memorySize)
  else
    .ok
      { address := BitVec.ofNat 32 h.address
        memorySize := h.memorySize
        data := e.data.extract h.offset (h.offset + h.fileSize)
        executable := h.flags % 2 == 1
        writable := h.flags / 2 % 2 == 1 }

/-- **The loadable parts** in the order of the file's table. -/
def parts (e : Executable) : Except LoadError (List LoadPart) :=
  (e.header.programs.filter isLoadable).mapM e.part

/-- **The memory made of all loadable parts.** -/
def image (e : Executable) : Except LoadError Image := do
  let parts ← e.parts
  if parts.isEmpty then
    throw .nothingToLoad
  return { segments := parts.map LoadPart.segment, entry := e.entry }

end Executable

/-- How the bytes of a file are to be taken. -/
inductive ImageFormat where
  /-- As an ELF file. -/
  | auto
  /-- As code to be mapped at an address. -/
  | raw (base : Word)
  deriving DecidableEq, Repr

/-- The format as text. -/
def ImageFormat.text : ImageFormat → String
  | .auto => "Auto"
  | .raw base => Text.record "Raw" [("base", toString base.toNat)]

/-- **The image in the bytes of a file.** -/
def loadImage (data : ByteArray) : ImageFormat → Except LoadError Image
  | .raw base => .ok (.ofBytes base data)
  | .auto => if hasElfMagic data then Executable.read data >>= Executable.image else .error .notElf

/-- The warning about a flat file that is no whole number of words. -/
def sizeWarnings (data : ByteArray) : ImageFormat → List Message
  | .raw _ =>
    if data.size % 4 = 0 then []
    else [⟨.warn, "raw image size " ++ toString data.size ++ " is not a multiple of 4"⟩]
  | .auto => []

/-- The messages about loading: a warning, then the segments that were mapped. -/
def loadMessages (data : ByteArray) (format : ImageFormat) : List Message :=
  sizeWarnings data format
    ++ match loadImage data format with
      | .ok image => image.messages
      | .error _ => []

end PacketLift
