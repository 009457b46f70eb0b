import Mathlib.Tactic.SplitIfs
import PacketLift.Packet.Footprint

/-!
# Members of register sets

A register set is known from the slots that belong to it. This module says which slots belong to
the sets that are built from others, and to the sets of a footprint.

## Main definitions

* `unionOver`: the registers in given sets of some footprints

## Main results

* `RegisterSet.hasSlot_insert` and its companions: the slots of a set
* `RegisterSet.isSubset_iff`, `RegisterSet.any_slot_toList`
* `RegisterSet.ext_contains`, `RegisterSet.isSubset_iff_contains`: the same by registers
-/

namespace PacketLift

theorem Register.slot_ofSlot (i : Fin 64) : (ofSlot i).slot = i := by
  revert i
  decide

namespace RegisterSet

variable (s t : RegisterSet) (r : Register) (i : Nat)

theorem ext_hasSlot {s t : RegisterSet} (h : ∀ i, s.hasSlot i = t.hasSlot i) : s = t := by
  cases s
  cases t
  simp only [mk.injEq]
  exact BitVec.eq_of_getLsbD_eq fun i _ => h i

@[simp] theorem hasSlot_empty : empty.hasSlot i = false := BitVec.getLsbD_zero

@[simp] theorem contains_empty : empty.contains r = false := hasSlot_empty _

@[simp] theorem hasSlot_single : (single r).hasSlot i = decide (i = r.slot.val) := by
  show (BitVec.twoPow 64 r.slot.val).getLsbD i = _
  simp [BitVec.getLsbD_twoPow, eq_comm]

@[simp] theorem hasSlot_insert :
    (s.insert r).hasSlot i = (s.hasSlot i || decide (i = r.slot.val)) := by
  rw [← hasSlot_single r i]
  simp [insert, hasSlot]

@[simp] theorem hasSlot_union : (s.union t).hasSlot i = (s.hasSlot i || t.hasSlot i) := by
  simp [union, hasSlot]

@[simp] theorem hasSlot_inter : (s.inter t).hasSlot i = (s.hasSlot i && t.hasSlot i) := by
  simp [inter, hasSlot]

@[simp] theorem hasSlot_diff : (s.diff t).hasSlot i = (s.hasSlot i && !t.hasSlot i) := by
  simp only [diff, hasSlot, BitVec.getLsbD_and, BitVec.getLsbD_not]
  by_cases hi : i < 64
  · simp [hi]
  · simp [hi, BitVec.getLsbD_of_ge s.bits i (by omega)]

@[simp] theorem hasSlot_erase :
    (s.erase r).hasSlot i = (s.hasSlot i && !decide (i = r.slot.val)) := by
  rw [← hasSlot_single r i]
  exact hasSlot_diff s (single r) i

theorem isSubset_iff : s.isSubset t = true ↔ ∀ i, s.hasSlot i = true → t.hasSlot i = true := by
  have hdiff : s.isSubset t = true ↔ s.diff t = empty := by
    simp [isSubset, diff, empty]
  rw [hdiff]
  constructor
  · intro h i hs
    have hi := hasSlot_diff s t i
    rw [h, hs] at hi
    simpa using hi
  · intro h
    refine ext_hasSlot fun i => ?_
    cases hs : s.hasSlot i with
    | false => simp [hs]
    | true => simp [h i hs]

theorem isSubset_empty_iff : s.isSubset empty = true ↔ s = empty := by
  rw [isSubset_iff]
  constructor
  · intro h
    apply ext_hasSlot
    intro i
    simpa using h i
  · rintro rfl
    simp

/-- A register set is known from the registers in it. -/
theorem ext_contains {s t : RegisterSet} (h : ∀ r, s.contains r = t.contains r) : s = t := by
  apply ext_hasSlot
  intro i
  by_cases hi : i < 64
  · have hslot := h (.ofSlot ⟨i, hi⟩)
    unfold contains at hslot
    rwa [Register.slot_ofSlot] at hslot
  · have hle : 64 ≤ i := Nat.le_of_not_lt hi
    rw [hasSlot, hasSlot, BitVec.getLsbD_of_ge _ _ hle, BitVec.getLsbD_of_ge _ _ hle]

theorem isSubset_iff_contains :
    s.isSubset t = true ↔ ∀ r, s.contains r = true → t.contains r = true := by
  rw [isSubset_iff]
  constructor
  · intro h r
    exact h r.slot.val
  · intro h i hi
    have hlt : i < 64 := BitVec.lt_of_getLsbD hi
    have hslot := h (.ofSlot ⟨i, hlt⟩)
    unfold contains at hslot
    rw [Register.slot_ofSlot] at hslot
    exact hslot hi

theorem any_slot_toList (i : Fin 64) : s.toList.any (·.slot == i) = s.hasSlot i.val := by
  rw [Bool.eq_iff_iff]
  simp [toList, Register.slot_ofSlot]

end RegisterSet

/-! ## Footprints -/

namespace Footprint

variable (f : Footprint) (r : Register)

@[simp] theorem read_addTarget : (f.addTarget r).read = f.read := by
  unfold addTarget
  split_ifs <;> rfl

@[simp] theorem written_addTarget : (f.addTarget r).written = f.written := by
  unfold addTarget
  split_ifs <;> rfl

@[simp] theorem conditional_addTarget : (f.addTarget r).conditional = f.conditional := by
  unfold addTarget
  split_ifs <;> rfl

@[simp] theorem read_withRead : (f.withRead r).read = f.read.insert r := rfl

@[simp] theorem written_withRead : (f.withRead r).written = f.written := rfl

@[simp] theorem conditional_withRead : (f.withRead r).conditional = f.conditional := rfl

@[simp] theorem read_withWrite : (f.withWrite r).read = f.read := read_addTarget _ r

@[simp] theorem written_withWrite : (f.withWrite r).written = f.written.insert r :=
  written_addTarget _ r

@[simp] theorem conditional_withWrite : (f.withWrite r).conditional = f.conditional :=
  conditional_addTarget _ r

@[simp] theorem read_withConditional : (f.withConditional r).read = f.read := read_addTarget _ r

@[simp] theorem written_withConditional : (f.withConditional r).written = f.written :=
  written_addTarget _ r

@[simp] theorem conditional_withConditional :
    (f.withConditional r).conditional = f.conditional.insert r :=
  conditional_addTarget _ r

@[simp] theorem read_none : none.read = .empty := rfl

@[simp] theorem written_none : none.written = .empty := rfl

@[simp] theorem conditional_none : none.conditional = .empty := rfl

end Footprint

/-- The registers in a start set or in the given sets of some footprints. -/
def unionOver (set : Footprint → RegisterSet) (start : RegisterSet) (fs : List Footprint) :
    RegisterSet :=
  fs.foldl (fun s f => s.union (set f)) start

theorem hasSlot_unionOver (set : Footprint → RegisterSet) (start : RegisterSet)
    (fs : List Footprint) (i : Nat) :
    (unionOver set start fs).hasSlot i =
      (start.hasSlot i || fs.any fun f => (set f).hasSlot i) := by
  induction fs generalizing start with
  | nil => simp [unionOver]
  | cons f fs ih =>
    rw [unionOver, List.foldl_cons]
    exact (ih _).trans (by simp [Bool.or_assoc])

end PacketLift
