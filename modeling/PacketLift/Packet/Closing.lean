import PacketLift.Machine.Globals
import PacketLift.Packet.Relocation
import PacketLift.Packet.Schedule

/-!
# Closing a packet

The instructions of a packet write staging words only. Closing the packet puts their operations
in order and emits what makes the packet take effect at once:

1. each register that was written gets its staged value, and its staging word becomes zero;
2. a hardware loop that ends here jumps back while its count is above one;
3. the program counter stays if a branch was taken, and goes on behind the packet otherwise;
4. staging words of registers written under a predicate get the live value. These operations run
   in front of all instructions of the packet, so that a predicate that fails changes nothing.

The program counter has no staging word: branches write it directly. A loop that jumps back wins
over a branch of the same packet, since it comes later.

## Main definitions

* `LoopEnd`: which hardware loops a packet ends
* `commitRegisters`, `endLoops`, `resolvePc`, `primeConditional`: the four parts
* `emitEpilogue`: the first three of them
* `closePacket`: all of them
-/

namespace PacketLift

/-- The hardware loops that a packet ends. -/
inductive LoopEnd where
  | loop0
  | loop1
  /-- Both loops, with loop 0 inside of loop 1. -/
  | both
  deriving DecidableEq, Repr

/-- The loops that end by the marks for loop 0 and loop 1. -/
def LoopEnd.ofMarks? : Bool → Bool → Option LoopEnd
  | true, true => some .both
  | true, false => some .loop0
  | false, true => some .loop1
  | false, false => none

/-! ## The parts -/

/-- **Staged values become live.** All registers are copied before the first staging word is
cleared. The program counter is left out. -/
def commitRegisters (writes : RegisterSet) : Emit RegisterSet := do
  let committed := writes.erase .pc
  committed.toList.forM fun r => emit (.copy (Global.live r) (Global.staged r))
  committed.toList.forM fun r => emit (.set (Global.staged r) 0)
  return committed

/-- A flag that tells whether a loop's count is above one. -/
def loopContinues (one : TempId) (count : Register) : Emit TempId := do
  let take ← freshTemp
  emit (.compare .gtu take (Global.live count) one)
  return take

/-- Jump back to a loop's start and count down, if `take` is one; `blank` holds zero. -/
def jumpBack (blank take : TempId) (start count : Register) : Emit Unit := do
  emit (.select .ne Global.pc take blank (Global.live start) Global.pc)
  emit (.binary .sub (Global.live count) (Global.live count) take)
  emit (.binary .or Global.pcWritten Global.pcWritten take)

/-- **The end of hardware loops.** When both end, loop 1 only goes on if loop 0 is over. -/
def endLoops (kind : LoopEnd) : Emit Unit := do
  let one ← constant 1
  let blank ← constant 0
  match kind with
  | .loop0 =>
    let take ← loopContinues one .lc0
    jumpBack blank take .sa0 .lc0
  | .loop1 =>
    let take ← loopContinues one .lc1
    jumpBack blank take .sa1 .lc1
  | .both =>
    let take0 ← loopContinues one .lc0
    let want1 ← loopContinues one .lc1
    let not0 ← freshTemp
    emit (.binaryImm .xor not0 take0 1)
    let take1 ← freshTemp
    emit (.binary .and take1 want1 not0)
    jumpBack blank take0 .sa0 .lc0
    jumpBack blank take1 .sa1 .lc1

/-- **The program counter behind the packet**, unless a branch was taken. The flag of a taken
branch is cleared. `lastPc` is the address of the packet's last word. -/
def resolvePc (lastPc : Word) : Emit Unit := do
  let onward ← freshTemp
  let last ← constant lastPc
  emit (.binaryImm .add onward last 4)
  let blank ← constant 0
  emit (.select .gt Global.pc Global.pcWritten blank Global.pc onward)
  emit (.set Global.pcWritten 0)

/-- **Live values for staging words** of registers written under a predicate, emitted behind
`anchor`. The program counter is left out. -/
def primeConditional (conditional : RegisterSet) (anchor : OpId) : Emit RegisterSet := do
  let primed := conditional.erase .pc
  let mark := (← get).lastId
  primed.toList.forM fun r => emit (.copy (Global.staged r) (Global.live r))
  modify fun l => (l.spanSince mark).elim l (l.moveAfter · anchor)
  return primed

/-! ## The whole -/

/-- Where a packet that closes stands. -/
structure PacketSite where
  /-- The address of its first word. -/
  packetPc : Word
  /-- The address of its last word. -/
  lastPc : Word
  /-- The operation in front of its instructions. -/
  anchor : OpId
  /-- The loops that end with it. -/
  loopEnd : Option LoopEnd
  deriving DecidableEq, Repr

/-- What closing a packet came to. -/
structure Closing where
  /-- The records in the order in which they run. -/
  order : List Nat
  /-- Whether the packet may change the program counter. -/
  changesPc : Bool
  committed : RegisterSet
  primed : RegisterSet
  deriving DecidableEq, Repr

/-- Whether the records run in another order than program order. -/
def Closing.reordered (c : Closing) : Bool := isReordered c.order

/-- What is emitted behind the instructions of a packet. -/
def emitEpilogue (writes : RegisterSet) (site : PacketSite) (changesPc : Bool) :
    Emit RegisterSet := do
  let committed ← commitRegisters writes
  site.loopEnd.forM endLoops
  (if changesPc then resolvePc site.lastPc else pure ())
  return committed

/-- **Close a packet**: put its operations in order and emit what makes it take effect. -/
def closePacket (roster : Roster) (site : PacketSite) (l : Listing) :
    Except Fault (Closing × Listing) := do
  let order ← schedule (roster.records.map (·.footprint)) roster.writes site.packetPc
  let ordered :=
    if isReordered order then l.relocate site.anchor roster.records order else l
  let changesPc := roster.writes.contains .pc || site.loopEnd.isSome
  let emission : Emit Closing := do
    let committed ← emitEpilogue roster.writes site changesPc
    let primed ← primeConditional roster.conditional site.anchor
    return { order, changesPc, committed, primed }
  return emission.run ordered

/-- The messages about a closed packet: the moves that were made, then the packet itself. -/
def Closing.messages (c : Closing) (roster : Roster) (site : PacketSite) : List Message :=
  let moves :=
    if c.reordered then plannedMoves site.anchor (inOrder roster.records c.order) else []
  let loopText :=
    match site.loopEnd with
    | some .loop0 => " :endloop0"
    | some .loop1 => " :endloop1"
    | some .both => " :endloop01"
    | none => ""
  moves.map Move.message
    ++ [⟨.debug,
        "packet " ++ Text.address site.packetPc.toNat ++ ": " ++ toString roster.size
          ++ " insns, writes " ++ roster.writes.text ++ ", conditional "
          ++ roster.conditional.text ++ ", order " ++ Text.numberList c.order
          ++ (if c.reordered then " (reordered)" else "") ++ loopText⟩]

end PacketLift
