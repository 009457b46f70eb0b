import PacketLift.Machine.Layout
import PacketLift.MicroOp.Emit

/-!
# Globals for the CPU's words

Every listing of lifted code begins with the same 130 globals: the live words of the registers in
slot order, their staging words in the same order, and the two words of the lifted code itself.

## Main definitions

* `Global.live`, `Global.staged`, `Global.pc`, `Global.pcWritten`, `Global.pcTrace`: their numbers
* `Listing.forGuest`: the empty listing with these globals
-/

namespace PacketLift

namespace Global

/-- The live word of a register. -/
def live (r : Register) : TempId := r.slot.val

/-- The staging word of a register. -/
def staged (r : Register) : TempId := 64 + r.slot.val

/-- The program counter. -/
def pc : TempId := live .pc

/-- The flag of a taken branch. -/
def pcWritten : TempId := 128

/-- The address of the instruction started last. -/
def pcTrace : TempId := 129

end Global

/-- **The globals of lifted code**, bound to the offsets of a layout. -/
def guestTemps (layout : Layout) : List Temp :=
  Register.all.map (fun r => .global r.name (layout.live r))
    ++ Register.all.map (fun r => .global (r.name ++ ".new") (layout.staged r))
    ++ [.global "pc_written" layout.pcWritten, .global "pc_trace" layout.pcTrace]

/-- The empty listing with the globals of a layout. -/
def Listing.forGuest (layout : Layout) : Listing := { temps := (guestTemps layout).toArray }

end PacketLift
