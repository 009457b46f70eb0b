import PacketLift.Fault
import PacketLift.Word.Role

/-!
# Duplex words

A duplex word holds two sub-instructions of 13 bits. Bits 31:29 and bit 13 together name a class,
and the class gives the group of each half. Class 15 is reserved.

## Main definitions

* `Group`: the five groups of sub-instructions
* `SubInstruction`: one half with its group
* `Duplex.split w pc`: both halves of a word, or the reserved class
-/

namespace PacketLift

/-- The groups of sub-instructions. -/
inductive Group where
  | l1
  | l2
  | s1
  | s2
  | a
  deriving DecidableEq, Repr

/-- The number of a group, as it stands above the 13 bits of a sub-instruction. -/
def Group.code : Group → Word
  | .l1 => 0
  | .l2 => 1
  | .s1 => 2
  | .s2 => 3
  | .a => 4

/-- The two halves of a duplex word. The upper one runs first, and only it can be extended. -/
inductive Half where
  | upper
  | lower
  deriving DecidableEq, Repr

/-- One half of a duplex word: 13 payload bits with the group's number above them. -/
structure SubInstruction where
  half : Half
  group : Group
  bits : Word
  deriving DecidableEq, Repr

/-- A duplex word taken apart. -/
structure Duplex where
  kind : Nat
  upper : SubInstruction
  lower : SubInstruction
  deriving DecidableEq, Repr

namespace Duplex

/-- The groups of the upper and the lower half, by class. -/
def groups? : Nat → Option (Group × Group)
  | 0 => some (.l1, .l1)
  | 1 => some (.l1, .l2)
  | 2 => some (.l2, .l2)
  | 3 => some (.a, .a)
  | 4 => some (.a, .l1)
  | 5 => some (.a, .l2)
  | 6 => some (.a, .s1)
  | 7 => some (.a, .s2)
  | 8 => some (.l1, .s1)
  | 9 => some (.l2, .s1)
  | 10 => some (.s1, .s1)
  | 11 => some (.s1, .s2)
  | 12 => some (.l1, .s2)
  | 13 => some (.l2, .s2)
  | 14 => some (.s2, .s2)
  | _ => none

/-- The class of a duplex word, from bits 31:29 and bit 13. -/
def kindOf (w : Word) : Nat := (w.fields 13 13 29 31).toNat

/-- **Both halves of a duplex word.** The reserved class is a fault at `pc`. -/
def split (w pc : Word) : Except Fault Duplex :=
  match groups? (kindOf w) with
  | none => .error (.reservedDuplex (kindOf w) pc)
  | some (upper, lower) =>
    .ok
      { kind := kindOf w
        upper := ⟨.upper, upper, w.field 16 28 ||| (upper.code <<< 13)⟩
        lower := ⟨.lower, lower, w.field 0 12 ||| (lower.code <<< 13)⟩ }

end Duplex

end PacketLift
