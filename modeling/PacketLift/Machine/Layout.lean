import PacketLift.Register.Basic
import PacketLift.Text.Record

/-!
# Layout of the CPU's state

Lifted code works on a block of memory. Every register has two words in it: the live one, and a
staging word that collects its next value while a packet runs. Two more words belong to the
lifted code itself: whether a branch was taken, and which instruction was started last.

## Main definitions

* `Layout`: the byte offset of each part
* `Layout.packed`: all parts back to back
* `Layout.live`, `Layout.staged`: the offset of a register's words
-/

namespace PacketLift

/-- **Byte offsets of the parts of the CPU's state.** -/
structure Layout where
  /-- The live general registers. -/
  general : Nat
  /-- The live control registers. -/
  control : Nat
  /-- The system registers. -/
  system : Nat
  /-- Staging words of the general registers. -/
  generalNew : Nat
  /-- Staging words of the control registers. -/
  controlNew : Nat
  /-- The flag of a taken branch. -/
  pcWritten : Nat
  /-- The address of the instruction started last. -/
  pcTrace : Nat
  /-- The size of the whole in bytes. -/
  size : Nat
  deriving DecidableEq, Repr

namespace Layout

/-- All parts back to back: 32 words for each file of registers, 64 for system registers. -/
def packed : Layout where
  general := 0
  control := 0x80
  system := 0x100
  generalNew := 0x200
  controlNew := 0x280
  pcWritten := 0x300
  pcTrace := 0x304
  size := 0x308

/-- The offset of a register's live word. -/
def live (layout : Layout) : Register → Nat
  | .general n => layout.general + 4 * (n.toNat % 32)
  | .control n => layout.control + 4 * (n.toNat % 32)

/-- The offset of a register's staging word. -/
def staged (layout : Layout) : Register → Nat
  | .general n => layout.generalNew + 4 * (n.toNat % 32)
  | .control n => layout.controlNew + 4 * (n.toNat % 32)

/-- The layout as text. -/
def text (layout : Layout) : String :=
  Text.record "EnvLayout"
    [("gpr", toString layout.general), ("cr", toString layout.control),
      ("sr", toString layout.system), ("gpr_new", toString layout.generalNew),
      ("cr_new", toString layout.controlNew), ("pc_written", toString layout.pcWritten),
      ("pc_trace", toString layout.pcTrace), ("size", toString layout.size)]

end Layout

end PacketLift
