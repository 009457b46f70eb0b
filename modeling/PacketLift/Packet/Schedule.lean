import PacketLift.Packet.Roster

/-!
# The order of instructions in a packet

All instructions of a packet see the registers as they were before it, so their order hardly
matters. The exception is an instruction that uses a value produced in the same packet: it reads
the staging word, and the producers have to run first.

The order is found in rounds. A round looks at the registers written in earlier rounds and takes,
in program order, every waiting instruction that needs no others. When a round takes nothing, the
rest wait for each other.

## Main definitions

* `Waiting.taken`, `Waiting.left`: what a round takes and leaves
* `rounds`: all rounds
* `schedule`: the order of all records, or the number of those that cannot be placed
* `isReordered`: whether an order differs from program order
-/

namespace PacketLift

/-- A record waiting for its turn: its place in the packet and its footprint. -/
structure Waiting where
  index : Nat
  footprint : Footprint
  deriving DecidableEq, Repr

namespace Waiting

/-- Whether all that the record needs has been written. -/
def isReady (packetWrites done : RegisterSet) (w : Waiting) : Bool :=
  (w.footprint.needed packetWrites).isSubset done

/-- The records that a round takes. -/
def taken (packetWrites done : RegisterSet) (ws : List Waiting) : List Waiting :=
  ws.filter (·.isReady packetWrites done)

/-- The records that a round leaves. -/
def left (packetWrites done : RegisterSet) (ws : List Waiting) : List Waiting :=
  ws.filter (!·.isReady packetWrites done)

/-- The registers written by some records on top of `done`. -/
def written (done : RegisterSet) (ws : List Waiting) : RegisterSet :=
  ws.foldl (fun s w => s.union w.footprint.writes) done

/-- A round takes a record or leaves it. -/
theorem length_taken_add_length_left (packetWrites done : RegisterSet) (ws : List Waiting) :
    (taken packetWrites done ws).length + (left packetWrites done ws).length = ws.length := by
  induction ws with
  | nil => rfl
  | cons w ws ih =>
    simp only [taken, left] at ih
    cases hw : w.isReady packetWrites done <;> simp [taken, left, hw] <;> omega

end Waiting

/-- **Rounds of placing records.** `done` are the registers written in earlier rounds. The result
is the order of the waiting records, or how many of them are left when a round takes none. -/
def rounds (packetWrites done : RegisterSet) (waiting : List Waiting) : Except Nat (List Nat) :=
  if waiting.isEmpty then .ok []
  else if _ : (Waiting.taken packetWrites done waiting).isEmpty then .error waiting.length
  else
    let taken := Waiting.taken packetWrites done waiting
    let left := Waiting.left packetWrites done waiting
    (rounds packetWrites (Waiting.written done taken) left).map (taken.map (·.index) ++ ·)
termination_by waiting.length
decreasing_by
  have hsum := Waiting.length_taken_add_length_left packetWrites done waiting
  have hne : ¬(Waiting.taken packetWrites done waiting).isEmpty := by assumption
  have hpos : 0 < (Waiting.taken packetWrites done waiting).length := by
    simpa [List.length_pos_iff] using hne
  omega

/-- **The order in which the records of a packet run**, as places in program order. -/
def schedule (footprints : List Footprint) (packetWrites : RegisterSet) (packetPc : Word) :
    Except Fault (List Nat) :=
  let waiting := footprints.mapIdx fun i f => ⟨i, f⟩
  match rounds packetWrites .empty waiting with
  | .ok order => .ok order
  | .error unplaced => .error (.dependencyCycle packetPc unplaced)

/-- Whether an order differs from program order. -/
def isReordered (order : List Nat) : Bool := order != List.range order.length

end PacketLift
