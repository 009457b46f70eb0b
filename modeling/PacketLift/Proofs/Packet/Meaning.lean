import PacketLift.Proofs.Instruction.Meaning
import PacketLift.Proofs.Packet.Places

/-!
# What packets mean

All instructions of a packet run at once. They read the registers as they were before the packet,
and what they write is seen behind it. The one exception is a predicate that is set and tested in
the same packet. This module says what a packet does to the registers and which traps it causes,
as an interpreter that takes a program packet by packet.

## Main definitions

* `Core`: the state that programs see
* `Packet`, `Packet.at?`: a packet, and the packet at an address
* `Packet.newPredicates`, `Packet.committed`, `Packet.target?`: the parts of its meaning
* `Packet.execute`: what a packet does
* `Core.run`: a number of packets, one after the other
-/

namespace PacketLift

/-- **The state that programs see**: the registers, and the calls of the trap handler so far. -/
structure Core where
  registers : RegisterFile
  traps : List Word := []

/-- The program counter. -/
def Core.pc (m : Core) : Word := m.registers Register.pc.slot

/-- The instruction in some bits. -/
def Code.instruction : Code → Instruction
  | whole w => .decode w
  | half s => .decodeSub s.bits s.group

/-- The instruction at a place. -/
def Place.instruction (x : Place) : Instruction := x.code.instruction

/-- **A packet**: its address, its words, and the instructions in them in program order. -/
structure Packet where
  pc : Word
  words : List Word
  places : List Place
  deriving DecidableEq, Repr

/-- The loop that jumps back at the end of hardware loops, as its start address and its count. -/
def LoopEnd.again? (registers : RegisterFile) : LoopEnd → Option (Register × Register)
  | .loop0 => if 1 < registers Register.lc0.slot then some (.sa0, .lc0) else none
  | .loop1 => if 1 < registers Register.lc1.slot then some (.sa1, .lc1) else none
  | .both =>
    if 1 < registers Register.lc0.slot then some (.sa0, .lc0)
    else if 1 < registers Register.lc1.slot then some (.sa1, .lc1)
    else none

namespace Packet

/-- **The packet at an address**: the words up to the first that closes a packet, if they keep the
rules for extenders and duplex words and have no more instructions than fit. -/
def at? (fetch : Fetch) (pc : Word) : Option Packet :=
  let ahead := window fetch pc readLimit
  if ahead.ending = .closed then
    ((PacketLift.places pc none ahead.words).filter (·.length ≤ Roster.capacity)).map
      (⟨pc, ahead.words, ·⟩)
  else none

theorem at?_eq_some_iff {fetch : Fetch} {pc : Word} {p : Packet} :
    at? fetch pc = some p ↔
      p.pc = pc ∧ window fetch pc readLimit = ⟨p.words, .closed⟩ ∧
        PacketLift.places pc none p.words = some p.places ∧
        p.places.length ≤ Roster.capacity := by
  rcases hwindow : window fetch pc readLimit with ⟨words, ending⟩
  simp only [at?, hwindow]
  constructor
  · intro h
    split_ifs at h with hclosed
    obtain ⟨ps, hps, rfl⟩ := Option.map_eq_some_iff.mp h
    obtain ⟨hps, hroom⟩ := Option.filter_eq_some_iff.mp hps
    exact ⟨rfl, by rw [hclosed], hps, by simpa using hroom⟩
  · rintro ⟨rfl, hwords, hps, hroom⟩
    obtain ⟨rfl, rfl⟩ := Window.mk.inj hwords
    rw [if_pos rfl, hps, Option.filter_some_pos (by simpa using hroom)]
    rfl

/-- The address behind the packet. -/
def after (p : Packet) : Word := p.pc + 4 * BitVec.ofNat 32 p.words.length

/-- What the instruction at a place of the packet may know. -/
def site (p : Packet) (x : Place) : Site := x.site p.pc p.after false

/-- Whether an instruction of the packet sets a predicate. -/
def hasCompare (p : Packet) : Bool := p.places.any (·.instruction.isCompare)

/-- **The predicates that the packet sets**: each comparison replaces its predicate, in program
order. Without a comparison they are all false. -/
def newPredicates (p : Packet) (before : RegisterFile) : Word :=
  if p.hasCompare then
    p.places.foldl (fun predicates x => x.instruction.setPredicate before predicates)
      (before Register.p.slot)
  else 0

/-- The instructions in the order in which their results count: in program order, except that
those which test a new predicate come after all others if a predicate is set. -/
def arranged (p : Packet) : List Place :=
  if p.hasCompare then
    p.places.filter (!·.instruction.isDotNew) ++ p.places.filter (·.instruction.isDotNew)
  else p.places

/-- The results of all instructions, in the order in which they count. -/
def results (p : Packet) (before : RegisterFile) : List Result :=
  p.arranged.flatMap fun x => x.instruction.results (p.site x) before (p.newPredicates before)

/-- **The registers behind the packet**, loops and the program counter aside: the results for each
register are applied to the value that it had before the packet. -/
def committed (p : Packet) (before : RegisterFile) : RegisterFile :=
  fun slot => Result.applyAll (p.results before) slot (before slot)

/-- Where the last branch that is taken leads, if one is. -/
def target? (p : Packet) (before : RegisterFile) : Option Word :=
  (p.places.filterMap fun x => x.instruction.target? (p.site x) before).getLast?

/-- The calls of the trap handler, in program order. -/
def traps (p : Packet) : List Word := p.places.filterMap (·.instruction.trap?)

/-- The loops that end with the packet. -/
def loopEnd (p : Packet) : Option LoopEnd := loopEndOf p.words

/-- **What a packet does.** All results are seen at once. A loop that ends here and has more than
one round left then jumps back and counts down; otherwise the program goes on at the target of the
last branch that was taken, or behind the packet. -/
def execute (p : Packet) (m : Core) : Core :=
  let committed := p.committed m.registers
  let traps := m.traps ++ p.traps
  match p.loopEnd.bind (·.again? committed) with
  | some (start, count) =>
    let counted := Function.update committed count.slot (committed count.slot - 1)
    { registers := Function.update counted Register.pc.slot (committed start.slot), traps }
  | none =>
    { registers := Function.update committed Register.pc.slot
        ((p.target? m.registers).getD p.after)
      traps }

end Packet

namespace Core

/-- The packet at the program counter is executed. -/
def step (fetch : Fetch) (m : Core) : Option Core := (Packet.at? fetch m.pc).map (·.execute m)

/-- **A number of packets, one after the other**, each at the program counter that the one before
has left. -/
def run (fetch : Fetch) : Nat → Core → Option Core
  | 0, m => some m
  | n + 1, m => (m.step fetch).bind (run fetch n)

end Core

end PacketLift
