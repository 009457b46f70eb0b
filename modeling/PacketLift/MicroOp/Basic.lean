import PacketLift.Word.Field

/-!
# Micro-operations

Lifted code is a flat list of operations on 32-bit values. The values live in numbered
temporaries: a global stands for a word of the CPU's state, and a local lasts for one run.

## Main definitions

* `Temp`, `TempId`: temporaries
* `Condition`, `Condition.holds`: comparisons
* `Arithmetic`, `Arithmetic.apply`: two-operand arithmetic and logic
* `MicroOp`, `MicroOp.inputs`, `MicroOp.output?`
-/

namespace PacketLift

/-- The number of a temporary. It has no upper bound here: a listing is taken to have fewer than
`2 ^ 32` temporaries. -/
abbrev TempId := Nat

/-- What a temporary stands for. -/
inductive Temp where
  /-- The word of the CPU's state at a byte offset. -/
  | global (name : String) (offset : Nat)
  /-- A value that lasts for one run. -/
  | scratch
  deriving DecidableEq, Repr

/-- **Comparisons of two words**, signed unless the name ends in `u`. -/
inductive Condition where
  | eq
  | ne
  | lt
  | ge
  | le
  | gt
  | ltu
  | geu
  | leu
  | gtu
  deriving DecidableEq, Repr

namespace Condition

/-- All comparisons. -/
def all : List Condition := [eq, ne, lt, ge, le, gt, ltu, geu, leu, gtu]

/-- The name of a comparison in listings. -/
def mnemonic : Condition → String
  | eq => "eq"
  | ne => "ne"
  | lt => "lt"
  | ge => "ge"
  | le => "le"
  | gt => "gt"
  | ltu => "ltu"
  | geu => "geu"
  | leu => "leu"
  | gtu => "gtu"

/-- Whether the comparison holds of two words. -/
def holds (a b : Word) : Condition → Bool
  | eq => a == b
  | ne => a != b
  | lt => a.slt b
  | ge => b.sle a
  | le => a.sle b
  | gt => b.slt a
  | ltu => a.ult b
  | geu => b.ule a
  | leu => a.ule b
  | gtu => b.ult a

end Condition

/-- **Arithmetic and logic on two words.** -/
inductive Arithmetic where
  | add
  | sub
  | and
  | or
  | xor
  | shl
  | shr
  | sar
  deriving DecidableEq, Repr

namespace Arithmetic

/-- All operations. -/
def all : List Arithmetic := [add, sub, and, or, xor, shl, shr, sar]

/-- The name of an operation in listings. -/
def mnemonic : Arithmetic → String
  | add => "add"
  | sub => "sub"
  | and => "and"
  | or => "or"
  | xor => "xor"
  | shl => "shl"
  | shr => "shr"
  | sar => "sar"

/-- The result of an operation. Shift counts are taken modulo 32. -/
def apply (a b : Word) : Arithmetic → Word
  | add => a + b
  | sub => a - b
  | and => a &&& b
  | or => a ||| b
  | xor => a ^^^ b
  | shl => a <<< (b.toNat % 32)
  | shr => a >>> (b.toNat % 32)
  | sar => a.sshiftRight (b.toNat % 32)

end Arithmetic

/-- **A micro-operation.** -/
inductive MicroOp where
  /-- A packet starts at `pc`. -/
  | packetStart (pc : Word)
  /-- `dst = value` -/
  | set (dst : TempId) (value : Word)
  /-- `dst = src` -/
  | copy (dst src : TempId)
  /-- `dst = lhs op rhs` -/
  | binary (op : Arithmetic) (dst lhs rhs : TempId)
  /-- `dst = lhs op value` -/
  | binaryImm (op : Arithmetic) (dst lhs : TempId) (value : Word)
  /-- `dst = 1` if the comparison holds, `dst = 0` otherwise -/
  | compare (cond : Condition) (dst lhs rhs : TempId)
  /-- `dst = ifTrue` if the comparison holds, `dst = ifFalse` otherwise -/
  | select (cond : Condition) (dst lhs rhs ifTrue ifFalse : TempId)
  /-- The trap handler is called. -/
  | callTrap (arguments : List TempId)
  /-- The block is left. -/
  | exitBlock
  deriving DecidableEq, Repr

namespace MicroOp

/-- The temporary that an operation writes. -/
def output? : MicroOp → Option TempId
  | packetStart _ => none
  | set dst _ => some dst
  | copy dst _ => some dst
  | binary _ dst _ _ => some dst
  | binaryImm _ dst _ _ => some dst
  | compare _ dst _ _ => some dst
  | select _ dst _ _ _ _ => some dst
  | callTrap _ => none
  | exitBlock => none

/-- The temporaries that an operation reads. -/
def inputs : MicroOp → List TempId
  | packetStart _ => []
  | set _ _ => []
  | copy _ src => [src]
  | binary _ _ lhs rhs => [lhs, rhs]
  | binaryImm _ _ lhs _ => [lhs]
  | compare _ _ lhs rhs => [lhs, rhs]
  | select _ _ lhs rhs ifTrue ifFalse => [lhs, rhs, ifTrue, ifFalse]
  | callTrap arguments => arguments
  | exitBlock => []

end MicroOp

end PacketLift
