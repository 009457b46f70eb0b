import PacketLift.MicroOp.Basic
import PacketLift.Text.Record

/-!
# Listings of micro-operations

A listing holds the operations of a block in the order in which they run. Each operation keeps
the identity it got when it was appended, 1, 2, 3, and so on. Identity 0 is the head of the
listing: it has no operation, and stands in front of the first one and behind the last one.

Every identity has a node that names its two neighbours, so the nodes form a ring through the
head. A run of neighbours can be moved behind another operation by changing six of these links,
and its operations stay what they are and keep their order.

## Main definitions

* `Listing`, `Node`: operations with links to their neighbours
* `Listing.entries`, `Listing.ids`, `Listing.ops`: the operations in order, with their identities
* `Listing.append`, `Listing.moveAfter`: the two ways to change the order
* `Listing.next?`, `Listing.prev`, `Listing.lastId`, `Listing.position?`: neighbours and places
* `Listing.spanSince`: what was appended since a mark
* `Listing.lines`: the listing as text
-/

namespace PacketLift

/-- The identity of an operation; 0 is the head, the place in front of all of them. It has no upper
bound here: a listing is taken to have fewer than `2 ^ 32` nodes. -/
abbrev OpId := Nat

/-- The operations from `first` to `last`, neighbours in a listing. -/
structure Span where
  first : OpId
  last : OpId
  deriving DecidableEq, Repr

/-- One operation with its identity. -/
structure Entry where
  id : OpId
  op : MicroOp
  deriving DecidableEq, Repr

/-- What belongs to one identity: its operation, which the head has not, and its neighbours. -/
structure Node where
  op : Option MicroOp := none
  prev : OpId := 0
  next : OpId := 0
  deriving DecidableEq, Repr

/-- **Operations in the order in which they run**, and the temporaries they use. The nodes stand
in the order in which they were appended, behind the head; the links give the order of running. -/
structure Listing where
  nodes : Array Node := #[{}]
  temps : Array Temp := #[]
  deriving Repr

namespace Listing

/-- The listing without operations and temporaries. -/
def empty : Listing := {}

/-- How many operations there are. -/
def size (l : Listing) : Nat := l.nodes.size - 1

/-! ## Links -/

/-- The node of an identity. -/
def node (l : Listing) (id : OpId) : Node := l.nodes.getD id {}

/-- The identity behind the given one: the first one behind 0, and 0 behind the last one. -/
def next (l : Listing) (id : OpId) : OpId := (l.node id).next

/-- The identity in front of the given one: 0 in front of the first, the last in front of 0. -/
def prev (l : Listing) (id : OpId) : OpId := (l.node id).prev

/-- The listing with another identity named behind `id`. -/
def setNext (l : Listing) (id target : OpId) : Listing :=
  { l with nodes := l.nodes.setIfInBounds id { l.node id with next := target } }

/-- The listing with another identity named in front of `id`. -/
def setPrev (l : Listing) (id target : OpId) : Listing :=
  { l with nodes := l.nodes.setIfInBounds id { l.node id with prev := target } }

/-- The operation behind the given one, if there is one; behind 0 stands the first. -/
def next? (l : Listing) (id : OpId) : Option OpId :=
  if l.next id = 0 then none else some (l.next id)

/-- The identity of the last operation, or 0. -/
def lastId (l : Listing) : OpId := l.prev 0

/-- The operation of the given identity. -/
def get? (l : Listing) (id : OpId) : Option MicroOp := l.nodes[id]?.bind Node.op

/-! ## Going through a listing -/

/-- One step through the listing: what stands at the cursor, and the cursor behind it. -/
def visit? (l : Listing) (cursor : OpId) : Option (Entry × OpId) :=
  if cursor = 0 then none
  else (l.node cursor).op.map fun op => (⟨cursor, op⟩, (l.node cursor).next)

/-- What the given number of steps finds from a cursor on. -/
def entriesFrom (l : Listing) : Nat → OpId → List Entry
  | 0, _ => []
  | steps + 1, cursor =>
    match l.visit? cursor with
    | none => []
    | some (entry, behind) => entry :: l.entriesFrom steps behind

/-- The operations with their identities, in order. -/
def entries (l : Listing) : List Entry := l.entriesFrom l.size (l.next 0)

/-- The identities in order. -/
def ids (l : Listing) : List OpId := l.entries.map Entry.id

/-- The operations in order. -/
def ops (l : Listing) : List MicroOp := l.entries.map Entry.op

/-- The place of an operation, counted from 0. -/
def position? (l : Listing) (id : OpId) : Option Nat := l.ids.findIdx? (· == id)

/-! ## Appending and moving -/

/-- **The listing with one more operation at its end.** -/
def append (l : Listing) (op : MicroOp) : Listing :=
  let id := l.nodes.size
  let tail := l.lastId
  let grown := { l with nodes := l.nodes.push { op := some op, prev := tail } }
  (grown.setNext tail id).setPrev 0 id

/-- What stands behind `mark`, if anything does: the operations appended since `mark` was the
last one. -/
def spanSince (l : Listing) (mark : OpId) : Option Span :=
  if l.lastId = mark then none else some ⟨l.next mark, l.lastId⟩

/-- The listing with a span taken out of the ring. Its own nodes still name their neighbours. -/
def unlink (l : Listing) (span : Span) : Listing :=
  let before := l.prev span.first
  let following := l.next span.last
  (l.setNext before following).setPrev following before

/-- The listing with a span that is not in the ring put behind `after`. -/
def relink (l : Listing) (span : Span) (after : OpId) : Listing :=
  let following := l.next after
  (((l.setNext after span.first).setPrev span.first after).setNext span.last following).setPrev
    following span.last

/-- **The listing with a span moved behind the operation `after`.** The span is cut out of its
place and put back, with its operations in their order. -/
def moveAfter (l : Listing) (span : Span) (after : OpId) : Listing :=
  if l.prev span.first = after then l else (l.unlink span).relink span after

/-! ## Temporaries -/

/-- The listing with one more temporary. -/
def addTemp (l : Listing) (t : Temp) : Listing := { l with temps := l.temps.push t }

/-- How many temporaries there are, which is also the number of the next one. -/
def tempCount (l : Listing) : Nat := l.temps.size

/-- The name of a temporary. Locals go by their number. -/
def tempName (l : Listing) (t : TempId) : String :=
  match l.temps[t]? with
  | some (.global name _) => name
  | _ => "tmp" ++ toString t

/-! ## Text -/

/-- One operation as a line. -/
def line (l : Listing) : MicroOp → String
  | .packetStart pc => " ---- " ++ Text.address pc.toNat
  | .set dst value => "movi_i32 " ++ l.tempName dst ++ ", $0x" ++ Text.hex value.toNat
  | .copy dst src => "mov_i32 " ++ Text.joined ", " ([dst, src].map l.tempName)
  | .binary op dst lhs rhs =>
    op.mnemonic ++ "_i32 " ++ Text.joined ", " ([dst, lhs, rhs].map l.tempName)
  | .binaryImm op dst lhs value =>
    op.mnemonic ++ "i_i32 " ++ Text.joined ", " ([dst, lhs].map l.tempName) ++ ", $0x"
      ++ Text.hex value.toNat
  | .compare cond dst lhs rhs =>
    "setcond_i32 " ++ Text.joined ", " ([dst, lhs, rhs].map l.tempName ++ [cond.mnemonic])
  | .select cond dst lhs rhs ifTrue ifFalse =>
    "movcond_i32 "
      ++ Text.joined ", " ([dst, lhs, rhs, ifTrue, ifFalse].map l.tempName ++ [cond.mnemonic])
  | .callTrap arguments =>
    "call " ++ Text.joined ", " ("handle_trap" :: arguments.map l.tempName)
  | .exitBlock => "exit_tb"

/-- The listing as text, one line for each operation. -/
def lines (l : Listing) : List String := l.ops.map l.line

/-- The sizes of a listing, for messages. -/
def summary (l : Listing) : String :=
  Text.record "OpLog" [("ops", toString l.size), ("temps", toString l.tempCount)]

end Listing

end PacketLift
