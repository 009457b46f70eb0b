import PacketLift.Register.Basic
import PacketLift.Text.Record

/-!
# Sets of registers

A set of register slots as 64 bits. Registers whose numbers agree modulo 32 are the same member.

## Main definitions

* `RegisterSet`, with `insert`, `erase`, `union`, `inter`, `diff`, `contains`, `isSubset`
* `RegisterSet.toList`: the members in slot order
* `RegisterSet.text`, `RegisterSet.quotedText`: the set in messages
-/

namespace PacketLift

/-- **A set of register slots**: bit `i` says whether slot `i` belongs to it. -/
structure RegisterSet where
  bits : BitVec 64
  deriving DecidableEq, Repr

namespace RegisterSet

/-- No register. -/
def empty : RegisterSet := ⟨0⟩

/-- One register alone. -/
def single (r : Register) : RegisterSet := ⟨1 <<< r.slot.val⟩

/-- The set with `r` put in. -/
def insert (s : RegisterSet) (r : Register) : RegisterSet := ⟨s.bits ||| (single r).bits⟩

/-- The set with `r` taken out. -/
def erase (s : RegisterSet) (r : Register) : RegisterSet := ⟨s.bits &&& ~~~(single r).bits⟩

/-- The registers of either set. -/
def union (s t : RegisterSet) : RegisterSet := ⟨s.bits ||| t.bits⟩

/-- The registers of both sets. -/
def inter (s t : RegisterSet) : RegisterSet := ⟨s.bits &&& t.bits⟩

/-- The registers of `s` that are not in `t`. -/
def diff (s t : RegisterSet) : RegisterSet := ⟨s.bits &&& ~~~t.bits⟩

/-- Whether slot `i` belongs to the set. -/
def hasSlot (s : RegisterSet) (i : Nat) : Bool := s.bits.getLsbD i

/-- Whether `r` belongs to the set. -/
def contains (s : RegisterSet) (r : Register) : Bool := s.hasSlot r.slot.val

/-- Whether every register of `s` is in `t`. -/
def isSubset (s t : RegisterSet) : Bool := s.bits &&& ~~~t.bits == 0

/-- Whether no register belongs to the set. -/
def isEmpty (s : RegisterSet) : Bool := s.bits == 0

/-- How many registers belong to the set. -/
def size (s : RegisterSet) : Nat := (List.range 64).countP s.hasSlot

/-- **The members in slot order**: general registers first, then control registers. -/
def toList (s : RegisterSet) : List Register :=
  ((List.finRange 64).filter fun i => s.hasSlot i.val).map Register.ofSlot

/-- The set of the given registers. -/
def ofList (rs : List Register) : RegisterSet := rs.foldl insert empty

/-- The set as text: names in braces, separated by commas. -/
def text (s : RegisterSet) : String := Text.set "," (s.toList.map Register.name)

/-- The set as text with each name in quotes. -/
def quotedText (s : RegisterSet) : String :=
  Text.set ", " (s.toList.map fun r => "\"" ++ r.name ++ "\"")

end RegisterSet

end PacketLift
