import PacketLift.Journal
import PacketLift.Packet.Roster

/-!
# Bringing a packet's operations into order

When the instructions of a packet have to run in another order than they were lifted in, their
operations move: one instruction after the other is put behind a cursor, which starts at the
packet's anchor and goes on to the end of what was put there. The moves are known before the first
of them is made.

## Main definitions

* `Move`: one instruction's operations and where they go
* `plannedMoves`: the moves for records in their new order
* `Listing.relocate`: the listing after the moves
-/

namespace PacketLift

/-- One instruction's operations, and the operation behind which they go. -/
structure Move where
  pc : Word
  span : Span
  after : OpId
  deriving DecidableEq, Repr

/-- The message about a move. -/
def Move.message (m : Move) : Message :=
  ⟨.trace,
    "move insn @" ++ Text.address m.pc.toNat ++ " ops OpId(" ++ toString m.span.first
      ++ ")..=OpId(" ++ toString m.span.last ++ ") after OpId(" ++ toString m.after ++ ")"⟩

/-- **The moves that put records one behind the other**, from `cursor` on. A record without
operations needs none. -/
def plannedMoves (cursor : OpId) : List Record → List Move
  | [] => []
  | record :: rest =>
    match record.ops with
    | none => plannedMoves cursor rest
    | some span => ⟨record.pc, span, cursor⟩ :: plannedMoves span.last rest

/-- The records at the places of an order. -/
def inOrder (records : List Record) (order : List Nat) : List Record :=
  order.filterMap fun i => records[i]?

namespace Listing

/-- The listing after some moves. -/
def applyMoves (l : Listing) (moves : List Move) : Listing :=
  moves.foldl (fun l m => l.moveAfter m.span m.after) l

/-- **The listing with the operations of records put behind `anchor`**, in the given order. -/
def relocate (l : Listing) (anchor : OpId) (records : List Record) (order : List Nat) : Listing :=
  l.applyMoves (plannedMoves anchor (inOrder records order))

end Listing

end PacketLift
