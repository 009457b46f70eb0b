import PacketLift.Fault
import PacketLift.MicroOp.Listing
import PacketLift.Packet.Footprint

/-!
# The roster of a packet

The instructions of a packet as they are lifted: where each stands, what it touches, and which
operations it emitted. A packet holds four of them. The roster keeps the unions over all its
records at hand, so that nothing has to be gone through again when the packet closes.

## Main definitions

* `Record`: one lifted instruction
* `Roster`, `Roster.push`, `Roster.clear`: the records of a packet
* `Roster.predicatesWritten`: whether an instruction so far writes predicates
-/

namespace PacketLift

/-- One lifted instruction. -/
structure Record where
  /-- The address of its word. -/
  pc : Word
  footprint : Footprint
  /-- The operations it emitted, if any. -/
  ops : Option Span := none
  deriving DecidableEq, Repr

/-- **The instructions of a packet.** -/
structure Roster where
  /-- The records in program order. -/
  records : List Record := []
  /-- All registers that a record may write. -/
  writes : RegisterSet := .empty
  /-- All registers that a record writes under a predicate. -/
  conditional : RegisterSet := .empty
  /-- The targets of all records in order; a record without targets counts as one empty entry. -/
  targets : List (Option Register) := []
  deriving DecidableEq, Repr

namespace Roster

/-- The roster without records. -/
def empty : Roster := {}

/-- How many instructions a packet can hold. -/
def capacity : Nat := 4

/-- How many records there are. -/
def size (r : Roster) : Nat := r.records.length

/-- The entries of one footprint among the targets of a roster. -/
def targetEntries (f : Footprint) : List (Option Register) :=
  if f.targets.isEmpty then [none] else f.targets.map some

/-- The roster with one more record. -/
def add (r : Roster) (record : Record) : Roster where
  records := r.records ++ [record]
  writes := r.writes.union record.footprint.writes
  conditional := r.conditional.union record.footprint.conditional
  targets := r.targets ++ targetEntries record.footprint

/-- **One more record**, unless the packet at `packetPc` is full: the place of the record or a
fault, and the roster that is left in either case. -/
def push (r : Roster) (record : Record) (packetPc : Word) : Except Fault Nat × Roster :=
  if capacity ≤ r.size then (.error (.packetFull capacity packetPc), r)
  else (.ok ((r.add record).size - 1), r.add record)

theorem size_add (r : Roster) (record : Record) : (r.add record).size = r.size + 1 := by
  rw [size, add, List.length_append]
  rfl

/-- With room left the record takes the place behind the others. -/
theorem push_of_lt {r : Roster} (record : Record) (packetPc : Word) (h : r.size < capacity) :
    r.push record packetPc = (.ok r.size, r.add record) := by
  rw [push, if_neg (Nat.not_le.mpr h), size_add, Nat.add_sub_cancel]

/-- A full roster refuses the record and stays as it is. -/
theorem push_of_le {r : Roster} (record : Record) (packetPc : Word) (h : capacity ≤ r.size) :
    r.push record packetPc = (.error (.packetFull capacity packetPc), r) :=
  if_pos h

/-- A record is accepted exactly if there is room, and its place is behind the others. -/
theorem push_fst_eq_ok_iff {r : Roster} {record : Record} {packetPc : Word} {place : Nat} :
    (r.push record packetPc).1 = .ok place ↔ r.size < capacity ∧ r.size = place := by
  rcases Nat.lt_or_ge r.size capacity with hroom | hfull
  · simp [push_of_lt record packetPc hroom, hroom]
  · simp [push_of_le record packetPc hfull, Nat.not_lt.mpr hfull]

/-- A record is refused exactly if the roster is full. -/
theorem push_fst_eq_error_iff {r : Roster} {record : Record} {packetPc : Word} {fault : Fault} :
    (r.push record packetPc).1 = .error fault ↔
      capacity ≤ r.size ∧ fault = .packetFull capacity packetPc := by
  rcases Nat.lt_or_ge r.size capacity with hroom | hfull
  · simp [push_of_lt record packetPc hroom, Nat.not_le.mpr hroom]
  · simp [push_of_le record packetPc hfull, hfull, eq_comm]

/-- Drop all records, and what was kept at hand about them. -/
def clear (r : Roster) : Roster :=
  { r with records := [], writes := .empty, conditional := .empty, targets := [] }

/-- Whether an instruction so far writes predicates. -/
def predicatesWritten (r : Roster) : Bool := r.writes.contains .p

end Roster

end PacketLift
