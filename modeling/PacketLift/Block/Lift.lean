import PacketLift.InstructionSet
import PacketLift.Packet.Draft
import PacketLift.Packet.Window

/-!
# Lifting a block

A block is a run of packets from an entry address on. It ends behind the first packet that may
change the program counter or that traps, or when it has as many packets as its budget allows. A
fault in any packet means that there is no block; the journal and the state of the instruction set
remain as they were when the fault was found.

## Main definitions

* `Session`, `Lift`: what outlives a fault, and computations that may end in one
* `liftWord`, `liftPacket`, `liftPackets`: word by word, packet by packet
* `liftBlock`: the block at an address
-/

namespace PacketLift

/-- Why a block ends. -/
inductive BlockExit where
  /-- The last packet may change the program counter. -/
  | branch
  /-- The last packet has the trap word. -/
  | trap
  /-- The budget is used up. -/
  | budget
  deriving DecidableEq, Repr

/-- The name of a reason in messages. -/
def BlockExit.name : BlockExit → String
  | .branch => "Branch"
  | .trap => "Trap"
  | .budget => "Budget"

/-- What is told about a lifted packet. -/
structure PacketInfo where
  /-- The address of its first word. -/
  pc : Word
  /-- How many words it has, extenders included. -/
  words : Nat
  /-- How many instructions it has; the halves of a duplex count by themselves. -/
  instructions : Nat
  closing : Closing
  loopEnd : Option LoopEnd
  deriving DecidableEq, Repr

/-- **A lifted block.** -/
structure Block where
  entry : Word
  listing : Listing
  packets : List PacketInfo
  /-- How many words were read, modulo the size of a word. -/
  words : Word
  /-- How many bytes of guest code the block covers, as a distance from its entry. -/
  byteSize : Word
  exit : BlockExit

/-- The address behind the block. -/
def Block.after (b : Block) : Word := b.entry + b.byteSize

/-- How blocks are lifted. -/
structure LiftOptions where
  /-- The largest number of packets in a block. Zero counts as one. -/
  maxPackets : Nat := 512
  layout : Layout := .packed
  deriving DecidableEq, Repr

/-- The options as text. -/
def LiftOptions.text (o : LiftOptions) : String :=
  Text.record "TranslatorOptions"
    [("max_packets_per_block", toString o.maxPackets), ("layout", o.layout.text)]

/-- **What outlives a fault**: the state of the instruction set and the journal. -/
structure Session (State : Type) where
  state : State
  journal : Array Message := #[]

/-- Computations on a session that may end in a fault. -/
abbrev Lift (State : Type) := ExceptT Fault (StateM (Session State))

namespace Lift

variable {State : Type}

/-- Put a message into the journal. -/
def note (m : Message) : Lift State Unit :=
  modify fun s => { s with journal := s.journal.push m }

/-- Put messages into the journal. -/
def noteAll (ms : List Message) : Lift State Unit := ms.forM note

/-- Run a step that changes the state of the instruction set. -/
def withState {α : Type} (f : State → α × State) : Lift State α :=
  modifyGet fun s => ((f s.state).1, { s with state := (f s.state).2 })

end Lift

/-- A block in the making. -/
structure Build where
  listing : Listing
  draft : Draft := {}
  packets : List PacketInfo := []
  /-- How many words were read, in a counter that wraps. -/
  words : Word := 0
  exit : Option BlockExit := none

/-! ## One word -/

/-- Lift one instruction and enter it into the roster. The address of its word is stored first if
`trace` holds. -/
def liftInstruction (isa : InstructionSet) (i : isa.Insn) (word pc : Word)
    (extender : Option Word) (trace : Bool) (b : Build) : Lift isa.State Build := do
  let traced := if trace then b.listing.append (.set Global.pcTrace pc) else b.listing
  let site : Site :=
    { word, pc, packetPc := b.draft.packetPc, nextPc := b.draft.nextPc, extender
      predicatesWritten := b.draft.roster.predicatesWritten }
  let done ← Lift.withState fun s =>
    let done := isa.execute i site traced s
    (done, done.state)
  Lift.noteAll done.messages
  let record : Record :=
    { pc, footprint := done.footprint, ops := done.listing.spanSince b.listing.lastId }
  let pushed := b.draft.roster.push record b.draft.packetPc
  let _ ← pushed.1
  return { b with listing := done.listing, draft := { b.draft with roster := pushed.2 } }

/-- The message about a word that is read. -/
def wordMessage (w pc : Word) : Message :=
  ⟨.trace,
    Text.address pc.toNat ++ ": " ++ Text.hex8 w.toNat ++ " parse="
      ++ Text.padded 2 (Text.binary w.role.bits) ++ " iclass="
      ++ Text.hex w.instructionClass.toNat⟩

/-- Count a word, and note a loop mark or the trap word. -/
def Draft.countWord (d : Draft) (w : Word) : Draft :=
  let marked := if w.role = .loopMark then d.markLoop d.words else d
  { marked with words := d.words + 1, trap := d.trap || w == Word.trapMark }

/-- Count a word for the block and for its packet. -/
def Build.countWord (b : Build) (w : Word) : Build :=
  { b with words := b.words + 1, draft := b.draft.countWord w }

/-- Take the waiting extender out of a build. -/
def Build.takeExtender (b : Build) : Option Word × Build :=
  (b.draft.extender.map (·.value), { b with draft := { b.draft with extender := none } })

/-- **Close the packet whose last word is at `pc`.** -/
def finishPacket {State : Type} (pc : Word) (b : Build) : Lift State Build := do
  if let some pending := b.draft.extender then
    throw (.danglingExtender pending.pc)
  let site : PacketSite :=
    { packetPc := b.draft.packetPc, lastPc := pc, anchor := b.draft.anchor
      loopEnd := b.draft.loopEnd }
  let (closing, listing) ← closePacket b.draft.roster site b.listing
  Lift.noteAll (closing.messages b.draft.roster site)
  let info : PacketInfo :=
    { pc := site.packetPc, words := b.draft.words, instructions := b.draft.roster.size, closing
      loopEnd := site.loopEnd }
  let exit := if closing.changesPc then some .branch else if b.draft.trap then some .trap else none
  return { b with
    listing, exit, packets := b.packets ++ [info]
    draft := { b.draft.reset with phase := .awaiting } }

/-- Take up a word that has been counted: keep an extender, or lift its instructions. -/
def readWord (isa : InstructionSet) (w pc : Word) (b : Build) : Lift isa.State Build :=
  if w.isExtender then
    match b.draft.extender with
    | some pending => throw (.danglingExtender pending.pc)
    | none => return { b with draft := { b.draft with extender := some ⟨w.extension, pc⟩ } }
  else if w.role = .duplex then do
    let duplex ← Duplex.split w pc
    let upper ← Lift.withState (isa.decodeSub duplex.upper)
    let lower ← Lift.withState (isa.decodeSub duplex.lower)
    let (extender, b) := b.takeExtender
    let b ← liftInstruction isa upper duplex.upper.bits pc extender true b
    liftInstruction isa lower duplex.lower.bits pc none false b
  else do
    let i ← Lift.withState (isa.decode w)
    let (extender, b) := b.takeExtender
    liftInstruction isa i w pc extender true b

/-- **Read one word of a packet.** -/
def liftWord (isa : InstructionSet) (w pc : Word) (b : Build) : Lift isa.State Build := do
  Lift.note (wordMessage w pc)
  readWord isa w pc (b.countWord w)

/-! ## Packets and blocks -/

/-- Read the words of a packet, the first of them at `pc`. -/
def liftWords (isa : InstructionSet) (pc : Word) (b : Build) : List Word → Lift isa.State Build
  | [] => return b
  | w :: rest => do
    let b ← liftWord isa w pc b
    liftWords isa (pc + 4) b rest

/-- **Lift the packet at `pc`**: read its words, and close it behind the last. -/
def liftPacket (isa : InstructionSet) (fetch : Fetch) (pc : Word) (b : Build) :
    Lift isa.State Build := do
  let nextPc ← addressBehind fetch pc
  let listing := b.listing.append (.packetStart pc)
  let b := { b with listing, draft := b.draft.begin pc nextPc listing.lastId }
  let ahead := window fetch pc readLimit
  let b ← liftWords isa pc b ahead.words
  match ahead.ending with
  | .closed => finishPacket (pc + 4 * BitVec.ofNat 32 (ahead.words.length - 1)) b
  | .unmapped address => throw (.unmapped address)
  | .unfinished => throw (.packetFull Roster.capacity pc)

/-- **Lift packets from `pc` on**, at most `budget` and one more. -/
def liftPackets (isa : InstructionSet) (fetch : Fetch) (pc : Word) (b : Build) :
    (budget : Nat) → Lift isa.State (Build × BlockExit × Word)
  | 0 => do
    let after ← liftPacket isa fetch pc b
    return (after, after.exit.getD .budget, pc + 4 * (after.words - b.words))
  | budget + 1 => do
    let after ← liftPacket isa fetch pc b
    let nextPc := pc + 4 * (after.words - b.words)
    match after.exit with
    | some exit => return (after, exit, nextPc)
    | none => liftPackets isa fetch nextPc after budget

/-- The message about a block that is complete. -/
def Block.message (b : Block) : Message :=
  ⟨.debug,
    "block " ++ Text.address b.entry.toNat ++ ".." ++ Text.address b.after.toNat ++ ": "
      ++ toString b.packets.length ++ " packets, " ++ toString b.words.toNat ++ " words, "
      ++ toString b.listing.size ++ " ops, exit " ++ b.exit.name⟩

/-- **Lift the block at `entry`.** -/
def liftBlock (isa : InstructionSet) (options : LiftOptions) (fetch : Fetch) (entry : Word) :
    Lift isa.State Block := do
  if entry &&& 3 != 0 then
    throw (.misaligned entry)
  let empty : Build := { listing := .forGuest options.layout }
  let (b, exit, pc) ← liftPackets isa fetch entry empty (options.maxPackets - 1)
  let stored := if exit = .branch then b.listing else b.listing.append (.set Global.pc pc)
  let block : Block :=
    { entry, exit, packets := b.packets, words := b.words, byteSize := pc - entry
      listing := stored.append .exitBlock }
  Lift.note block.message
  return block

/-- The message about a fault. -/
def Fault.report (f : Fault) : Message := ⟨.error, "Hexagon: " ++ f.message⟩

/-- Lift the block at `entry`, with a fault reported in the journal. -/
def liftReporting (isa : InstructionSet) (options : LiftOptions) (fetch : Fetch) (entry : Word) :
    Lift isa.State Block :=
  tryCatch (liftBlock isa options fetch entry) fun fault => do
    Lift.note fault.report
    throw fault

end PacketLift
