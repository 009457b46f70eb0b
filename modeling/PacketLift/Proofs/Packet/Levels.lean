import Mathlib.Data.List.Nodup
import Mathlib.Order.Bounds.Basic
import PacketLift.Proofs.Packet.Order

/-!
# Levels of records

The rounds that order a packet look at a set of registers that stays the same during a round and
grows behind it. What comes out can be said without any rounds. A record has level zero if it needs
nothing, and otherwise it is one level above the records that it takes to have all it needs written.
The order goes by level, and by program order within a level.

So a record runs behind records that write what it needs, but it does not wait for every record that
writes one of these registers. A producer that itself waits may be on the level of its consumer or
above it, when another producer is there earlier.

## Main definitions

* `writesAt`, `writesBelow`: the registers that some records write
* `IsLeveling`: the levels of the records of a packet
* `Precedes`: by level, and in program order within a level

## Main results

* `Waiting.exists_leveled_of_rounds`: rounds go by level
* `IsLeveling.unique`: there is only one way to give levels
* `schedule_sorted_by_level`: the order of a packet
* `schedule_producer_before_consumer`: which producers run before a record that needs them
-/

namespace PacketLift

variable {footprints : List Footprint} {packetWrites : RegisterSet} {level : Nat → Nat}

/-- The registers that the records at the given places write. -/
def writesAt (footprints : List Footprint) (places : List Nat) : RegisterSet :=
  unionOver Footprint.writes .empty (places.filterMap (footprints[·]?))

theorem contains_writesAt {places : List Nat} {r : Register} :
    (writesAt footprints places).contains r = true ↔
      ∃ j ∈ places, ∃ f, footprints[j]? = some f ∧ f.writes.contains r = true := by
  unfold writesAt RegisterSet.contains
  rw [hasSlot_unionOver, RegisterSet.hasSlot_empty, Bool.false_or, List.any_eq_true]
  constructor
  · rintro ⟨f, hf, hr⟩
    obtain ⟨j, hj, hjf⟩ := List.mem_filterMap.mp hf
    exact ⟨j, hj, f, hjf, hr⟩
  · rintro ⟨j, hj, f, hjf, hr⟩
    exact ⟨f, List.mem_filterMap.mpr ⟨j, hj, hjf⟩, hr⟩

/-- The registers that the records of levels below `k` write. -/
def writesBelow (footprints : List Footprint) (level : Nat → Nat) (k : Nat) : RegisterSet :=
  writesAt footprints ((List.range footprints.length).filter (level · < k))

theorem contains_writesBelow {k : Nat} {r : Register} :
    (writesBelow footprints level k).contains r = true ↔
      ∃ j f, footprints[j]? = some f ∧ level j < k ∧ f.writes.contains r = true := by
  unfold writesBelow
  rw [contains_writesAt]
  constructor
  · rintro ⟨j, hj, f, hjf, hr⟩
    exact ⟨j, f, hjf, of_decide_eq_true (List.mem_filter.mp hj).2, hr⟩
  · rintro ⟨j, f, hjf, hk, hr⟩
    have hlt : j < footprints.length := (List.getElem?_eq_some_iff.mp hjf).1
    exact ⟨j, List.mem_filter.mpr ⟨List.mem_range.mpr hlt, decide_eq_true hk⟩, f, hjf, hr⟩

/-- **The levels of the records of a packet.** That of a record is the least `k` such that the
records of levels below `k` write all that it needs. -/
def IsLeveling (footprints : List Footprint) (packetWrites : RegisterSet) (level : Nat → Nat) :
    Prop :=
  ∀ i f, footprints[i]? = some f →
    IsLeast {k | (f.needed packetWrites).isSubset (writesBelow footprints level k) = true} (level i)

/-- By level, and in program order within a level. -/
def Precedes (level : Nat → Nat) (i j : Nat) : Prop :=
  level i < level j ∨ level i = level j ∧ i < j

/-! ## Rounds go by level -/

namespace Waiting

variable {done : RegisterSet} {ws : List Waiting} {later : Nat → Nat}

/-- The registers in `done`, and those that waiting records of levels below `k` write. -/
def writtenBelow (done : RegisterSet) (ws : List Waiting) (level : Nat → Nat) (k : Nat) :
    RegisterSet :=
  written done (ws.filter (level ·.index < k))

theorem contains_writtenBelow {k : Nat} {r : Register} :
    (writtenBelow done ws level k).contains r = true ↔
      done.contains r = true ∨
        ∃ w ∈ ws, level w.index < k ∧ w.footprint.writes.contains r = true := by
  unfold writtenBelow
  simp only [contains_written, List.mem_filter, decide_eq_true_eq, and_assoc]

/-- The levels of waiting records, when the registers in `done` are written. -/
def Leveled (packetWrites done : RegisterSet) (ws : List Waiting) (level : Nat → Nat) : Prop :=
  ∀ w ∈ ws, IsLeast {k | w.isReady packetWrites (writtenBelow done ws level k) = true}
    (level w.index)

/-- The levels before a round, from those behind it: what the round takes is at the bottom, and
everything else is one level up. -/
def levelBefore (taken : List Waiting) (later : Nat → Nat) (i : Nat) : Nat :=
  if i ∈ taken.map index then 0 else later i + 1

theorem levelBefore_of_ready {w : Waiting} (hw : w ∈ ws)
    (hready : w.isReady packetWrites done = true) :
    levelBefore (taken packetWrites done ws) later w.index = 0 :=
  if_pos (List.mem_map_of_mem (mem_taken.mpr ⟨hw, hready⟩))

theorem levelBefore_of_not_ready {w : Waiting} (hdistinct : (ws.map index).Nodup) (hw : w ∈ ws)
    (hready : w.isReady packetWrites done = false) :
    levelBefore (taken packetWrites done ws) later w.index = later w.index + 1 := by
  apply if_neg
  intro hmem
  obtain ⟨v, hv, heq⟩ := List.mem_map.mp hmem
  obtain ⟨hvs, hvready⟩ := mem_taken.mp hv
  obtain rfl := List.inj_on_of_nodup_map hdistinct hvs hw heq
  rw [hready] at hvready
  cases hvready

/-- A level of the records before a round is what the round writes, and the level beneath it of the
records that the round leaves. -/
theorem writtenBelow_succ (hdistinct : (ws.map index).Nodup) (k : Nat) :
    writtenBelow done ws (levelBefore (taken packetWrites done ws) later) (k + 1) =
      writtenBelow (written done (taken packetWrites done ws)) (left packetWrites done ws) later
        k := by
  apply RegisterSet.ext_contains
  intro r
  rw [Bool.eq_iff_iff, contains_writtenBelow, contains_writtenBelow, contains_written]
  constructor
  · rintro (hdone | ⟨w, hw, hk, hr⟩)
    · exact .inl (.inl hdone)
    · cases hready : w.isReady packetWrites done with
      | true => exact .inl (.inr ⟨w, mem_taken.mpr ⟨hw, hready⟩, hr⟩)
      | false =>
        rw [levelBefore_of_not_ready hdistinct hw hready] at hk
        exact .inr ⟨w, mem_left.mpr ⟨hw, hready⟩, Nat.lt_of_succ_lt_succ hk, hr⟩
  · rintro ((hdone | ⟨w, hw, hr⟩) | ⟨w, hw, hk, hr⟩)
    · exact .inl hdone
    · obtain ⟨hw, hready⟩ := mem_taken.mp hw
      refine .inr ⟨w, hw, ?_, hr⟩
      rw [levelBefore_of_ready hw hready]
      exact Nat.succ_pos k
    · obtain ⟨hw, hready⟩ := mem_left.mp hw
      refine .inr ⟨w, hw, ?_, hr⟩
      rw [levelBefore_of_not_ready hdistinct hw hready]
      exact Nat.succ_lt_succ hk

/-- **A round adds a level**: given levels for what it leaves, there are levels for everything. -/
theorem Leveled.before (hdistinct : (ws.map index).Nodup)
    (h : Leveled packetWrites (written done (taken packetWrites done ws))
      (left packetWrites done ws) later) :
    Leveled packetWrites done ws (levelBefore (taken packetWrites done ws) later) := by
  intro w hw
  have hzero : ∀ level, writtenBelow done ws level 0 = done := by
    intro level
    simp [writtenBelow, written]
  cases hready : w.isReady packetWrites done with
  | true =>
    rw [levelBefore_of_ready hw hready]
    refine ⟨?_, fun k _ => Nat.zero_le k⟩
    show w.isReady packetWrites (writtenBelow done ws _ 0) = true
    rwa [hzero]
  | false =>
    obtain ⟨hmem, hleast⟩ := h w (mem_left.mpr ⟨hw, hready⟩)
    rw [levelBefore_of_not_ready hdistinct hw hready]
    constructor
    · show w.isReady packetWrites (writtenBelow done ws _ (later w.index + 1)) = true
      rwa [writtenBelow_succ hdistinct]
    · intro k hk
      cases k with
      | zero =>
        have hnow : w.isReady packetWrites (writtenBelow done ws _ 0) = true := hk
        rw [hzero, hready] at hnow
        cases hnow
      | succ k =>
        have hbelow : w.isReady packetWrites (writtenBelow done ws _ (k + 1)) = true := hk
        rw [writtenBelow_succ hdistinct] at hbelow
        exact Nat.succ_le_succ (hleast hbelow)

/-- **Rounds go by level.** -/
theorem exists_leveled_of_rounds {order : List Nat} (h : rounds packetWrites done ws = .ok order)
    (hsorted : (ws.map index).Pairwise (· < ·)) :
    ∃ level, Leveled packetWrites done ws level ∧ order.Pairwise (Precedes level) := by
  -- on the rounds: the first one has the bottom level, and all others move up by one
  fun_induction rounds packetWrites done ws generalizing order with
  | case1 done ws hempty =>
    cases h
    refine ⟨fun _ => 0, ?_, .nil⟩
    rw [List.isEmpty_iff.mp hempty]
    exact List.forall_mem_nil _
  | case2 done ws hempty hnone => cases h
  | case3 done ws hempty hsome taken left =>
    rename_i ih
    cases hrest : rounds packetWrites (written done taken) left with
    | error unplaced =>
      rw [hrest] at h
      cases h
    | ok rest =>
      rw [hrest] at h
      cases h
      have hdistinct : (ws.map index).Nodup := hsorted.nodup
      have hleft : (left.map index).Pairwise (· < ·) :=
        hsorted.sublist (List.filter_sublist.map index)
      obtain ⟨later, hlater, hrestSorted⟩ := ih hrest hleft
      have hbottom : ∀ i ∈ taken.map index, levelBefore taken later i = 0 :=
        fun i hi => if_pos hi
      have hup : ∀ i ∈ rest, levelBefore taken later i = later i + 1 := by
        intro i hi
        obtain ⟨w, hw, rfl⟩ := List.mem_map.mp ((rounds_perm hrest).mem_iff.mp hi)
        obtain ⟨hws, hready⟩ := mem_left.mp hw
        exact levelBefore_of_not_ready hdistinct hws hready
      refine ⟨levelBefore taken later, hlater.before hdistinct, ?_⟩
      rw [List.pairwise_append]
      refine ⟨?_, ?_, ?_⟩
      · have htaken : (taken.map index).Pairwise (· < ·) :=
          hsorted.sublist (List.filter_sublist.map index)
        refine htaken.imp_of_mem ?_
        intro i j hi hj hij
        exact .inr ⟨(hbottom i hi).trans (hbottom j hj).symm, hij⟩
      · refine hrestSorted.imp_of_mem ?_
        intro i j hi hj hij
        unfold Precedes
        rw [hup i hi, hup j hj]
        rcases hij with hlt | ⟨heq, hij⟩
        · exact .inl (Nat.succ_lt_succ hlt)
        · exact .inr ⟨congrArg (· + 1) heq, hij⟩
      · intro i hi j hj
        refine .inl ?_
        rw [hbottom i hi, hup j hj]
        exact Nat.succ_pos _

/-- The levels of all records of a packet. -/
theorem isLeveling_iff_leveled :
    IsLeveling footprints packetWrites level ↔
      Leveled packetWrites .empty (ofFootprints footprints) level := by
  have hbelow : ∀ k, writesBelow footprints level k =
      writtenBelow .empty (ofFootprints footprints) level k := by
    intro k
    apply RegisterSet.ext_contains
    intro r
    rw [Bool.eq_iff_iff, contains_writesBelow, contains_writtenBelow]
    constructor
    · rintro ⟨j, f, hjf, hk, hr⟩
      exact .inr ⟨⟨j, f⟩, mem_ofFootprints.mpr hjf, hk, hr⟩
    · rintro (hempty | ⟨w, hw, hk, hr⟩)
      · rw [RegisterSet.contains_empty] at hempty
        cases hempty
      · exact ⟨w.index, w.footprint, mem_ofFootprints.mp hw, hk, hr⟩
  unfold IsLeveling Leveled isReady
  simp only [hbelow]
  constructor
  · intro h w hw
    exact h w.index w.footprint (mem_ofFootprints.mp hw)
  · intro h i f hf
    exact h ⟨i, f⟩ (mem_ofFootprints.mpr hf)

end Waiting

/-! ## What levels say -/

namespace IsLeveling

variable {i : Nat} {f : Footprint}

/-- A record is on level `k` or below it if and only if the records below level `k` write all that
it needs. -/
theorem le_iff (h : IsLeveling footprints packetWrites level) (hf : footprints[i]? = some f)
    {k : Nat} :
    level i ≤ k ↔
      (f.needed packetWrites).isSubset (writesBelow footprints level k) = true := by
  obtain ⟨hmem, hleast⟩ := h i f hf
  constructor
  · intro hle
    refine (RegisterSet.isSubset_iff_contains _ _).mpr ?_
    intro r hr
    have hbelow := (RegisterSet.isSubset_iff_contains _ _).mp hmem r hr
    obtain ⟨j, g, hg, hlt, hwrites⟩ := contains_writesBelow.mp hbelow
    exact contains_writesBelow.mpr ⟨j, g, hg, Nat.lt_of_lt_of_le hlt hle, hwrites⟩
  · intro hk
    exact hleast hk

/-- **There is only one way to give levels.** -/
theorem unique {level' : Nat → Nat} (h : IsLeveling footprints packetWrites level)
    (h' : IsLeveling footprints packetWrites level') (hi : i < footprints.length) :
    level' i = level i := by
  -- on `k`: the two agree on which records are below it, so also on what these write
  have hbelow : ∀ k i, i < footprints.length → (level' i < k ↔ level i < k) := by
    intro k
    induction k with
    | zero => simp
    | succ k ih =>
      intro i hi
      have hwrites : writesBelow footprints level' k = writesBelow footprints level k := by
        unfold writesBelow
        congr 1
        apply List.filter_congr
        intro j hj
        rw [decide_eq_decide]
        exact ih j (List.mem_range.mp hj)
      have hf := List.getElem?_eq_getElem hi
      rw [Nat.lt_succ_iff, Nat.lt_succ_iff, h'.le_iff hf, h.le_iff hf, hwrites]
  exact eq_of_forall_gt_iff fun k => hbelow k i hi

/-- The records at the bottom are those that need nothing. -/
theorem eq_zero_iff (h : IsLeveling footprints packetWrites level)
    (hf : footprints[i]? = some f) : level i = 0 ↔ f.needed packetWrites = .empty := by
  have hbottom : writesBelow footprints level 0 = .empty := by
    simp [writesBelow, writesAt, unionOver]
  rw [← Nat.le_zero, h.le_iff hf, hbottom, RegisterSet.isSubset_empty_iff]

/-- What a record needs is written on lower levels. -/
theorem exists_producer (h : IsLeveling footprints packetWrites level)
    (hf : footprints[i]? = some f) {r : Register}
    (hr : (f.needed packetWrites).contains r = true) :
    ∃ j g, footprints[j]? = some g ∧ level j < level i ∧ g.writes.contains r = true := by
  have hcovered := (h.le_iff hf).mp (Nat.le_refl (level i))
  exact contains_writesBelow.mp ((RegisterSet.isSubset_iff_contains _ _).mp hcovered r hr)

end IsLeveling

/-! ## The order of a packet -/

theorem Precedes.asymm {i j : Nat} (h : Precedes level i j) : ¬Precedes level j i := by
  unfold Precedes at *
  omega

/-- **A packet with its levels and its order.** -/
structure Ordered (footprints : List Footprint) (packetWrites : RegisterSet) (level : Nat → Nat)
    (order : List Nat) : Prop where
  perm : order.Perm (List.range footprints.length)
  levels : IsLeveling footprints packetWrites level
  sorted : order.Pairwise (Precedes level)

theorem exists_ordered_of_schedule {packetPc : Word} {order : List Nat}
    (h : schedule footprints packetWrites packetPc = .ok order) :
    ∃ level, Ordered footprints packetWrites level order := by
  have hsorted : ((Waiting.ofFootprints footprints).map Waiting.index).Pairwise (· < ·) := by
    rw [Waiting.map_index_ofFootprints]
    exact List.pairwise_lt_range
  obtain ⟨level, hlevels, horder⟩ :=
    Waiting.exists_leveled_of_rounds (schedule_eq_ok_iff.mp h) hsorted
  exact ⟨level, schedule_perm h, Waiting.isLeveling_iff_leveled.mpr hlevels, horder⟩

namespace Ordered

variable {order : List Nat} {i j : Nat} {f g : Footprint}

theorem mem (h : Ordered footprints packetWrites level order) (hf : footprints[i]? = some f) :
    i ∈ order :=
  h.perm.mem_iff.mpr (List.mem_range.mpr (List.getElem?_eq_some_iff.mp hf).1)

theorem idxOf_lt (h : Ordered footprints packetWrites level order)
    (hf : footprints[i]? = some f) (hg : footprints[j]? = some g) (hij : Precedes level i j) :
    order.idxOf i < order.idxOf j := by
  have hi := List.idxOf_lt_length_of_mem (h.mem hf)
  have hj := List.idxOf_lt_length_of_mem (h.mem hg)
  rcases Nat.lt_trichotomy (order.idxOf i) (order.idxOf j) with hlt | heq | hgt
  · exact hlt
  · obtain rfl := (List.idxOf_inj (h.mem hf)).mp heq
    exact absurd hij hij.asymm
  · have hji := List.pairwise_iff_getElem.mp h.sorted _ _ hj hi hgt
    rw [List.getElem_idxOf, List.getElem_idxOf] at hji
    exact absurd hij hji.asymm

/-- **What a record needs is written in front of it**: a producer from a lower level is neither the
record itself nor behind it. -/
theorem covered (h : Ordered footprints packetWrites level order) {before after : List Nat}
    (hsplit : order = before ++ i :: after) (hf : footprints[i]? = some f) :
    (f.needed packetWrites).isSubset (writesAt footprints before) = true := by
  refine (RegisterSet.isSubset_iff_contains _ _).mpr ?_
  intro r hr
  obtain ⟨j, g, hg, hlt, hwrites⟩ := h.levels.exists_producer hf hr
  refine contains_writesAt.mpr ⟨j, ?_, g, hg, hwrites⟩
  have hsorted := h.sorted
  have hj := h.mem hg
  rw [hsplit] at hsorted hj
  rcases List.mem_append.mp hj with hbefore | hrest
  · exact hbefore
  · rcases List.mem_cons.mp hrest with rfl | hafter
    · exact absurd hlt (Nat.lt_irrefl _)
    · have hij := List.rel_of_pairwise_cons (List.pairwise_append.mp hsorted).2.1 hafter
      exact absurd (.inl hlt) hij.asymm

end Ordered

/-- **The order of a packet goes by level**, for any records and any set of registers that the
packet is said to write. When an order is found, it has the place of each record exactly once. There
is one way to give levels to the records such that the level of each is the least `k` for which the
records of levels below `k` write all that it needs; the order goes by level, and by place within a
level. So everything that a record needs is written by records in front of it, a record that needs
nothing stands in front of all that come later in the program, and records that all need nothing
stay in program order. -/
theorem schedule_sorted_by_level (footprints : List Footprint) (packetWrites : RegisterSet)
    (packetPc : Word) (order : List Nat)
    (h : schedule footprints packetWrites packetPc = .ok order) :
    order.Perm (List.range footprints.length) ∧
    (∃ level, IsLeveling footprints packetWrites level ∧
      order.Pairwise (fun i j => level i < level j ∨ level i = level j ∧ i < j) ∧
      ∀ level', IsLeveling footprints packetWrites level' →
        ∀ i < footprints.length, level' i = level i) ∧
    (∀ before i after f, order = before ++ i :: after → footprints[i]? = some f →
      (f.needed packetWrites).isSubset (writesAt footprints before) = true) ∧
    (∀ i j f, footprints[i]? = some f → f.needed packetWrites = .empty → i < j →
      j < footprints.length → order.idxOf i < order.idxOf j) ∧
    ((∀ f ∈ footprints, f.needed packetWrites = .empty) →
      order = List.range footprints.length ∧ isReordered order = false) := by
  obtain ⟨level, hordered⟩ := exists_ordered_of_schedule h
  have hlevels := hordered.levels
  refine ⟨hordered.perm, ⟨level, hlevels, hordered.sorted, ?_⟩, ?_, ?_, ?_⟩
  · intro level' hlevels' i hi
    exact hlevels.unique hlevels' hi
  · intro before i after f hsplit hf
    exact hordered.covered hsplit hf
  · intro i j f hf hnone hij hj
    refine hordered.idxOf_lt hf (List.getElem?_eq_getElem hj) ?_
    unfold Precedes
    rw [(hlevels.eq_zero_iff hf).mpr hnone]
    omega
  · intro hnone
    have hbottom : ∀ i ∈ order, level i = 0 := by
      intro i hi
      have hlt := List.mem_range.mp (hordered.perm.mem_iff.mp hi)
      refine (hlevels.eq_zero_iff (List.getElem?_eq_getElem hlt)).mpr ?_
      exact hnone _ (List.getElem_mem hlt)
    have hincreasing : order.Pairwise (· < ·) := by
      refine hordered.sorted.imp_of_mem ?_
      intro i j hi hj hij
      unfold Precedes at hij
      rw [hbottom i hi, hbottom j hj] at hij
      omega
    have hrange : order = List.range footprints.length :=
      hordered.perm.eq_of_pairwise (fun i j _ _ hij hji => absurd hij (Nat.lt_asymm hji))
        hincreasing List.pairwise_lt_range
    refine ⟨hrange, ?_⟩
    rw [isReordered, hrange, List.length_range]
    simp

/-- Four records: two that wait one behind the other, what the second of them needs, and one apart
from the others. -/
def chainedRecords : List Footprint :=
  [Footprint.none.withRead (.general 2),
    (Footprint.none.withRead (.general 1)).withWrite (.general 2),
    Footprint.none.withWrite (.general 1), Footprint.none.withWrite (.general 4)]

theorem schedule_sorted_by_level_chainedRecords :
    let packetWrites := unionOver Footprint.writes .empty chainedRecords
    schedule chainedRecords packetWrites 0 = .ok [2, 3, 1, 0] ∧
    [2, 3, 1, 0].Perm (List.range 4) ∧
    ∃ level, IsLeveling chainedRecords packetWrites level ∧
      [2, 3, 1, 0].Pairwise (fun i j => level i < level j ∨ level i = level j ∧ i < j) := by
  intro packetWrites
  have horder : schedule chainedRecords packetWrites 0 = .ok [2, 3, 1, 0] := by
    decide +kernel
  obtain ⟨hperm, ⟨level, hlevels, hsorted, -⟩, -⟩ := schedule_sorted_by_level _ _ _ _ horder
  exact ⟨horder, hperm, level, hlevels, hsorted⟩

/-! ## Producers -/

/-- **Which producers run before a record that needs them**, for any records and any set of
registers that the packet is said to write. When an order is found and a record needs a register,
another record that writes the register stands in front of it. So does every other record that
writes it and needs nothing itself, and one that is alone in writing it; a producer that waits for
others may stand behind when there is a second one. -/
theorem schedule_producer_before_consumer (footprints : List Footprint)
    (packetWrites : RegisterSet) (packetPc : Word) (order : List Nat)
    (h : schedule footprints packetWrites packetPc = .ok order) (i : Nat) (f : Footprint)
    (hf : footprints[i]? = some f) (r : Register)
    (hneeded : (f.needed packetWrites).contains r = true) :
    (∃ j g, footprints[j]? = some g ∧ j ≠ i ∧ g.writes.contains r = true ∧
      order.idxOf j < order.idxOf i) ∧
    ∀ j g, footprints[j]? = some g → j ≠ i → g.writes.contains r = true →
      (g.needed packetWrites = .empty ∨
        ∀ k other, footprints[k]? = some other → other.writes.contains r = true → k = j) →
      order.idxOf j < order.idxOf i := by
  obtain ⟨level, hordered⟩ := exists_ordered_of_schedule h
  obtain ⟨k, other, hother, hlt, hproduces⟩ := hordered.levels.exists_producer hf hneeded
  have hbefore : order.idxOf k < order.idxOf i := hordered.idxOf_lt hother hf (.inl hlt)
  constructor
  · refine ⟨k, other, hother, ?_, hproduces, hbefore⟩
    rintro rfl
    exact absurd hlt (Nat.lt_irrefl _)
  · rintro j g hg - - (hnone | halone)
    · have hbottom := (hordered.levels.eq_zero_iff hg).mpr hnone
      exact hordered.idxOf_lt hg hf (.inl (by omega))
    · obtain rfl := halone k other hother hproduces
      exact hbefore

/-- Three records. The first needs a register that both others write, and the second of these writes
what the first of them waits for. -/
def contestedRecords : List Footprint :=
  [Footprint.none.withRead (.general 1),
    (Footprint.none.withRead (.general 2)).withWrite (.general 1),
    (Footprint.none.withWrite (.general 1)).withWrite (.general 2)]

theorem schedule_producer_before_consumer_contestedRecords :
    let packetWrites := unionOver Footprint.writes .empty contestedRecords
    schedule contestedRecords packetWrites 0 = .ok [2, 0, 1] ∧
    (contestedRecords[0].needed packetWrites).contains (.general 1) = true ∧
    (∃ j g, contestedRecords[j]? = some g ∧ j ≠ 0 ∧ g.writes.contains (.general 1) = true ∧
      [2, 0, 1].idxOf j < [2, 0, 1].idxOf 0) ∧
    [2, 0, 1].idxOf 2 < [2, 0, 1].idxOf 0 := by
  intro packetWrites
  have horder : schedule contestedRecords packetWrites 0 = .ok [2, 0, 1] := by
    decide +kernel
  have hneeded : (contestedRecords[0].needed packetWrites).contains (.general 1) = true := by
    decide
  obtain ⟨hsome, hall⟩ := schedule_producer_before_consumer contestedRecords packetWrites 0 _
    horder 0 _ rfl (.general 1) hneeded
  exact ⟨horder, hneeded, hsome, hall 2 _ rfl (by decide) (by decide) (.inl (by decide))⟩

/-- **A record may run before a producer of what it needs**: it is not so that in every packet of
at most four records each record stands behind all others that write a register it needs. -/
theorem not_forall_producer_before_consumer :
    ¬∀ footprints : List Footprint, footprints.length ≤ 4 → ∀ packetPc order,
      schedule footprints (unionOver Footprint.writes .empty footprints) packetPc = .ok order →
      ∀ i j f g r, footprints[i]? = some f → footprints[j]? = some g → i ≠ j →
        (f.needed (unionOver Footprint.writes .empty footprints)).contains r = true →
        g.writes.contains r = true → order.idxOf j < order.idxOf i := by
  intro hall
  have horder : schedule contestedRecords (unionOver Footprint.writes .empty contestedRecords) 0 =
      .ok [2, 0, 1] := by
    decide +kernel
  have hbefore := hall contestedRecords (by decide) 0 [2, 0, 1] horder 0 1 _ _ (.general 1) rfl rfl
    (by decide) (by decide) (by decide)
  exact absurd hbefore (by decide)

end PacketLift
