import PacketLift.Register.Set

/-!
# Footprints of instructions

What one instruction does to the registers: which staged values it uses, which registers it
always writes, and which it writes only under a predicate. The footprint also names its targets,
each once, in the order in which they were given.

## Main definitions

* `Footprint`, with `withRead`, `withWrite`, `withConditional`, `withPair`
* `Footprint.writes`: all registers it may write
* `Footprint.needed`: the registers it waits for in a packet
-/

namespace PacketLift

/-- **What one instruction does to the registers.** -/
structure Footprint where
  /-- Registers whose staged value is used. -/
  read : RegisterSet := .empty
  /-- Registers that are always written. -/
  written : RegisterSet := .empty
  /-- Registers that are written only under a predicate. -/
  conditional : RegisterSet := .empty
  /-- The registers named as targets. -/
  targets : List Register := []
  deriving DecidableEq, Repr

namespace Footprint

/-- The instruction that touches nothing. -/
def none : Footprint := {}

/-- Name a target, unless it is named already. -/
def addTarget (f : Footprint) (r : Register) : Footprint :=
  if r ∈ f.targets then f else { f with targets := f.targets ++ [r] }

/-- The staged value of `r` is used. -/
def withRead (f : Footprint) (r : Register) : Footprint := { f with read := f.read.insert r }

/-- The register `r` is written. -/
def withWrite (f : Footprint) (r : Register) : Footprint :=
  { f with written := f.written.insert r }.addTarget r

/-- The register `r` is written under a predicate. -/
def withConditional (f : Footprint) (r : Register) : Footprint :=
  { f with conditional := f.conditional.insert r }.addTarget r

/-- Both registers of a pair are written. The pair is named by either of its numbers. -/
def withPair (f : Footprint) (number : Byte) : Footprint :=
  let even := number &&& ~~~1
  (f.withWrite (.general even)).withWrite (.general (even + 1))

/-- All registers that may be written. -/
def writes (f : Footprint) : RegisterSet := f.written.union f.conditional

/-- The registers that other instructions of the packet have to write first, when the packet
writes `packetWrites`: what is used, and not written by the instruction itself. -/
def needed (f : Footprint) (packetWrites : RegisterSet) : RegisterSet :=
  (f.read.diff f.writes).inter packetWrites

end Footprint

end PacketLift
