import PacketLift.Packet.Closing

/-!
# A packet being read

What is known about a packet while its words are read one by one: where it starts and what
follows it, how many words it has so far, an extender waiting for its instruction, the marks of
loop ends, and the instructions lifted so far.

## Main definitions

* `Draft`, `Draft.begin`, `Draft.reset`
* `Draft.markLoop`, `Draft.loopEnd`: loop ends by the position of marked words
-/

namespace PacketLift

/-- Whether a packet is open. A packet is closed, and a block ended, in one step each, so there are
no phases for packets that are being closed or for blocks that have ended. -/
inductive Phase where
  | awaiting
  | accumulating
  deriving DecidableEq, Repr

/-- An extender waiting for its instruction. -/
structure Extender where
  /-- The upper bits of the immediate. -/
  value : Word
  /-- The address of the extender's word. -/
  pc : Word
  deriving DecidableEq, Repr

/-- **A packet being read.** -/
structure Draft where
  phase : Phase := .awaiting
  /-- The address of the first word. -/
  packetPc : Word := 0
  /-- The address behind the packet. -/
  nextPc : Word := 0
  /-- The operation in front of the packet's instructions. -/
  anchor : OpId := 0
  /-- How many words were read, extenders included. -/
  words : Nat := 0
  extender : Option Extender := none
  /-- Whether the first word is marked as a loop end. -/
  mark0 : Bool := false
  /-- Whether the second word is marked as a loop end. -/
  mark1 : Bool := false
  /-- Whether the packet has the trap word. -/
  trap : Bool := false
  roster : Roster := .empty
  deriving DecidableEq, Repr

namespace Draft

/-- Forget the contents of the packet. -/
def reset (d : Draft) : Draft :=
  { d with
    words := 0, extender := none, mark0 := false, mark1 := false, trap := false,
    roster := d.roster.clear }

/-- Open a packet. -/
def begin (d : Draft) (packetPc nextPc : Word) (anchor : OpId) : Draft :=
  { d.reset with packetPc, nextPc, anchor, phase := .accumulating }

/-- Mark the word at a position as a loop end. Only the first two positions have a meaning. -/
def markLoop (d : Draft) : Nat → Draft
  | 0 => { d with mark0 := true }
  | 1 => { d with mark1 := true }
  | _ => d

/-- The loops that end with the packet. -/
def loopEnd (d : Draft) : Option LoopEnd := LoopEnd.ofMarks? d.mark0 d.mark1

end Draft

end PacketLift
