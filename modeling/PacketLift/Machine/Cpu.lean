import PacketLift.Machine.Layout

/-!
# The CPU's state

The words that lifted code reads and writes, addressed by byte offset. A read outside of them
gives zero, and a write outside of them is lost.

## Main definitions

* `Cpu`, `Cpu.zeroed`: the state
* `Cpu.load`, `Cpu.store`: one word
* `Cpu.register`, `Cpu.setRegister`, `Cpu.staged`: the words of a register
-/

namespace PacketLift

/-- **The CPU's state**: a layout and its words. -/
structure Cpu where
  layout : Layout
  words : Array Word
  deriving DecidableEq, Repr

namespace Cpu

/-- The state with all words zero. -/
def zeroed (layout : Layout) : Cpu := ⟨layout, Array.replicate (layout.size / 4) 0⟩

/-- The word at a byte offset. -/
def load (c : Cpu) (offset : Nat) : Word := c.words.getD (offset / 4) 0

/-- The state with the word at a byte offset replaced. -/
def store (c : Cpu) (offset : Nat) (value : Word) : Cpu :=
  { c with words := c.words.setIfInBounds (offset / 4) value }

/-- The live value of a register. -/
def register (c : Cpu) (r : Register) : Word := c.load (c.layout.live r)

/-- The state with a register's live value replaced. -/
def setRegister (c : Cpu) (r : Register) (value : Word) : Cpu := c.store (c.layout.live r) value

/-- The staged value of a register. -/
def staged (c : Cpu) (r : Register) : Word := c.load (c.layout.staged r)

/-- The state with a register's staged value replaced. -/
def setStaged (c : Cpu) (r : Register) (value : Word) : Cpu := c.store (c.layout.staged r) value

/-- The program counter. -/
def pc (c : Cpu) : Word := c.register .pc

/-- The state with the program counter replaced. -/
def setPc (c : Cpu) (pc : Word) : Cpu := c.setRegister .pc pc

/-- Whether a branch was taken in the running packet, as a word. -/
def pcWritten (c : Cpu) : Word := c.load c.layout.pcWritten

/-- The address of the instruction started last. -/
def pcTrace (c : Cpu) : Word := c.load c.layout.pcTrace

/-- The live registers that are not zero, in slot order. -/
def nonZero (c : Cpu) : List (Register × Word) :=
  (Register.all.map fun r => (r, c.register r)).filter fun (_, value) => value != 0

/-- The registers that are not zero, as text. -/
def text (c : Cpu) : String :=
  match c.nonZero with
  | [] => "CpuEnv \x7b all zero \x7d"
  | values =>
    Text.record "CpuEnv"
      (values.map fun (r, value) =>
        (r.displayName, "0x" ++ Text.padded 8 (Text.upperHex value.toNat)))

end Cpu

end PacketLift
