import Mathlib.Algebra.Group.Nat.Defs
import Mathlib.Data.Fintype.Card
import PacketLift.Proofs.Packet.Footprint

/-!
# Register sets as finite sets of slots

A register set keeps 64 bits. This module takes it for what it stands for, a finite set of slots,
and says for each operation on the bits which operation on finite sets it is. Together these
equations cover any nesting of operations, so a register set that was built in any way answers as
the finite set does that was built in the same way. Going through a register set lists that finite
set in order.

## Main definitions

* `Register.number`, `Register.base`: the number of a register, and the first slot of its file
* `RegisterSet.slots`: the finite set that a register set stands for
* `RegisterSet.Build`: how a register set is built
* `RegisterSet.Build.set`, `RegisterSet.Build.slots`: the register set, and the finite set, that is
  built so

## Main results

* `RegisterSet.slots_insert` and its companions: one equation for each operation
* `RegisterSet.Build.slots_set`: both ways to build come to the same
* `RegisterSet.Build.answers_as_slots`: members, inclusion, emptiness and the list of members are
  those of the finite set
-/

namespace PacketLift

namespace Register

/-- The number under which a register was named. -/
def number : Register → Nat
  | general n => n.toNat
  | control n => n.toNat

/-- The first slot of the file that a register belongs to. -/
def base : Register → Nat
  | general _ => 0
  | control _ => 32

/-- The slot of a register depends on its number modulo 32 only. -/
theorem val_slot (r : Register) : r.slot.val = r.base + r.number % 32 := by
  cases r with
  | general n => exact (Nat.zero_add _).symm
  | control n => rfl

/-- The register of a slot is named by a number below 32. -/
theorem number_ofSlot_lt (i : Fin 64) : (ofSlot i).number < 32 := by
  revert i
  decide

/-- Among the registers of one slot, only one is named by a number below 32. -/
theorem eq_ofSlot_of_number_lt {r : Register} (h : r.number < 32) : r = ofSlot r.slot := by
  cases r with
  | general n =>
    have hn : n.toNat % 32 = n.toNat := Nat.mod_eq_of_lt h
    simp [ofSlot, slot, hn, show n.toNat < 32 from h]
  | control n =>
    have hn : n.toNat % 32 = n.toNat := Nat.mod_eq_of_lt h
    simp [ofSlot, slot, hn]

end Register

namespace RegisterSet

/-- **The finite set of slots that a register set stands for.** -/
def slots (s : RegisterSet) : Finset (Fin 64) := Finset.univ.filter fun i => s.hasSlot i.val = true

variable (s t : RegisterSet) (r : Register)

@[simp] theorem mem_slots {s : RegisterSet} {i : Fin 64} :
    i ∈ s.slots ↔ s.hasSlot i.val = true := by
  simp [slots]

/-- A register set is known from its slots. -/
theorem slots_injective : Function.Injective slots := by
  intro s t h
  refine ext_contains fun r => ?_
  have hslot := Finset.ext_iff.mp h r.slot
  rw [mem_slots, mem_slots] at hslot
  exact Bool.eq_iff_iff.mpr hslot

/-- The slots of 64 bits are the places of the ones in the number that they form. -/
theorem slots_mk (bits : BitVec 64) :
    slots ⟨bits⟩ = Finset.univ.filter fun i : Fin 64 => bits.toNat / 2 ^ i.val % 2 = 1 := by
  ext i
  simp [hasSlot, BitVec.getLsbD, Nat.testBit_eq_decide_div_mod_eq]

@[simp] theorem slots_empty : empty.slots = ∅ := by
  ext i
  simp

@[simp] theorem slots_insert : (s.insert r).slots = Insert.insert r.slot s.slots := by
  ext i
  simp [Fin.ext_iff, or_comm]

@[simp] theorem slots_erase : (s.erase r).slots = s.slots.erase r.slot := by
  ext i
  simp [Fin.ext_iff, and_comm]

@[simp] theorem slots_union : (s.union t).slots = s.slots ∪ t.slots := by
  ext i
  simp

@[simp] theorem slots_inter : (s.inter t).slots = s.slots ∩ t.slots := by
  ext i
  simp

@[simp] theorem slots_diff : (s.diff t).slots = s.slots \ t.slots := by
  ext i
  simp

/-! ## Questions -/

theorem contains_iff_mem_slots : s.contains r = true ↔ r.slot ∈ s.slots := mem_slots.symm

theorem isSubset_iff_slots : s.isSubset t = true ↔ s.slots ⊆ t.slots := by
  rw [isSubset_iff_contains]
  constructor
  · intro h i hi
    have hr := h (.ofSlot i)
    rw [contains_iff_mem_slots, contains_iff_mem_slots, Register.slot_ofSlot] at hr
    exact hr hi
  · intro h r hr
    rw [contains_iff_mem_slots] at hr ⊢
    exact h hr

theorem isEmpty_iff_slots : s.isEmpty = true ↔ s.slots = ∅ := by
  have hempty : s.isEmpty = true ↔ s = empty := by
    cases s
    simp [isEmpty, empty]
  rw [hempty, ← slots_empty]
  exact slots_injective.eq_iff.symm

/-! ## Going through a register set -/

theorem map_slot_toList :
    s.toList.map Register.slot = (List.finRange 64).filter fun i => s.hasSlot i.val := by
  rw [toList, List.map_map]
  exact List.map_id'' Register.slot_ofSlot _

/-- The members come in strictly increasing order of their slots. -/
theorem pairwise_toList : (s.toList.map Register.slot).Pairwise (· < ·) := by
  rw [map_slot_toList]
  exact (List.pairwise_lt_finRange 64).filter _

/-- The members are listed by their least numbers. -/
theorem mem_toList {s : RegisterSet} {r : Register} :
    r ∈ s.toList ↔ r.number < 32 ∧ r.slot ∈ s.slots := by
  simp only [toList, List.mem_map, List.mem_filter, List.mem_finRange, true_and, mem_slots]
  constructor
  · rintro ⟨i, hi, rfl⟩
    rw [Register.slot_ofSlot]
    exact ⟨Register.number_ofSlot_lt i, hi⟩
  · rintro ⟨hnumber, hslot⟩
    exact ⟨r.slot, hslot, (Register.eq_ofSlot_of_number_lt hnumber).symm⟩

theorem length_toList : s.toList.length = s.size := by
  rw [size, ← List.map_coe_finRange_eq_range, List.countP_map, toList, List.length_map,
    List.countP_eq_length_filter]
  rfl

theorem size_eq_card_slots : s.size = s.slots.card := by
  rw [← length_toList, ← List.length_map Register.slot, map_slot_toList]
  simp [slots, Finset.card, Fin.univ_def, Multiset.filter_coe]

/-- Putting registers in, one after the other, puts all of their slots in. -/
theorem slots_foldl_insert (rs : List Register) :
    (rs.foldl insert s).slots = s.slots ∪ (rs.map Register.slot).toFinset := by
  induction rs generalizing s with
  | nil => simp
  | cons r rs ih =>
    rw [List.foldl_cons, ih, slots_insert, List.map_cons, List.toFinset_cons]
    simp

/-- **The listed members make up the set.** -/
theorem ofList_toList : ofList s.toList = s := by
  apply slots_injective
  rw [ofList, slots_foldl_insert, map_slot_toList]
  ext i
  simp

/-! ## Sets that are built in any way -/

/-- **How a register set is built**, from bits and by any nesting of operations. -/
inductive Build where
  | ofBits (bits : BitVec 64)
  | insert (b : Build) (r : Register)
  | erase (b : Build) (r : Register)
  | union (b b' : Build)
  | inter (b b' : Build)
  | diff (b b' : Build)

namespace Build

/-- The register set that is built. -/
def set : Build → RegisterSet
  | ofBits bits => ⟨bits⟩
  | insert b r => b.set.insert r
  | erase b r => b.set.erase r
  | union b b' => b.set.union b'.set
  | inter b b' => b.set.inter b'.set
  | diff b b' => b.set.diff b'.set

/-- The finite set that is built in the same way. Bits are taken as the number that they form. -/
def slots : Build → Finset (Fin 64)
  | ofBits bits => Finset.univ.filter fun i => bits.toNat / 2 ^ i.val % 2 = 1
  | insert b r => Insert.insert r.slot b.slots
  | erase b r => b.slots.erase r.slot
  | union b b' => b.slots ∪ b'.slots
  | inter b b' => b.slots ∩ b'.slots
  | diff b b' => b.slots \ b'.slots

/-- **Both ways to build come to the same.** -/
theorem slots_set (b : Build) : b.set.slots = b.slots := by
  induction b with
  | ofBits bits => exact slots_mk bits
  | insert b r ih => rw [set, slots_insert, ih, slots]
  | erase b r ih => rw [set, slots_erase, ih, slots]
  | union b b' ih ih' => rw [set, slots_union, ih, ih', slots]
  | inter b b' ih ih' => rw [set, slots_inter, ih, ih', slots]
  | diff b b' ih ih' => rw [set, slots_diff, ih, ih', slots]

/-- **A register set answers as the finite set of its slots**, however it was built. A register
stands for the slot of its file that its number gives modulo 32. The members are listed once each,
by their least numbers and in the order of their slots, and make up the set again. -/
theorem answers_as_slots (b : Build) :
    (∀ r, b.set.contains r = true ↔ ∃ i ∈ b.slots, i.val = r.base + r.number % 32) ∧
      (∀ b' : Build, b.set.isSubset b'.set = true ↔ b.slots ⊆ b'.slots) ∧
      (b.set.isEmpty = true ↔ b.slots = ∅) ∧
      (b.set.toList.map Register.slot).Pairwise (· < ·) ∧
      (∀ r, r ∈ b.set.toList ↔ r.number < 32 ∧ r.slot ∈ b.slots) ∧
      b.set.toList.length = b.set.size ∧ b.set.size = b.slots.card ∧
      ofList b.set.toList = b.set := by
  refine ⟨fun r => ?_, fun b' => ?_, ?_, pairwise_toList _, fun r => ?_, length_toList _, ?_,
    ofList_toList _⟩
  · rw [contains_iff_mem_slots, slots_set]
    constructor
    · intro hr
      exact ⟨r.slot, hr, r.val_slot⟩
    · rintro ⟨i, hi, hval⟩
      rwa [Fin.ext (hval.trans r.val_slot.symm)] at hi
  · rw [isSubset_iff_slots, slots_set, slots_set]
  · rw [isEmpty_iff_slots, slots_set]
  · rw [mem_toList, slots_set]
  · rw [size_eq_card_slots, slots_set]

end Build

end RegisterSet

end PacketLift
