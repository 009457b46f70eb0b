import Mathlib.Data.Finset.Union
import Mathlib.Data.List.DropRight
import PacketLift.Packet.Roster
import PacketLift.Proofs.Register.Slots

/-!
# What a roster keeps at hand

A roster holds the records of a packet and keeps, beside them, what they come to: the registers
that are written, those that are written under a predicate, and the targets in order. These are
brought up to date with every record and are never computed anew. This module computes them anew.
Whatever records are pushed and whenever the roster is cleared, it holds the first four records
since then, and what it keeps at hand is what they come to.

A footprint names its targets by the numbers that it was given and its written registers by their
slots, so that two targets may stand for one slot. What it names and what it writes agree all the
same, if it was built step by step.

## Main definitions

* `Footprint.Built`: the footprints that are built step by step
* `Roster.TargetsWritten`: every target is among the registers that the packet writes
* `Roster.Summarizes`: what the roster keeps at hand is what its records come to
* `Roster.Call`, `Roster.Call.after`: pushing and clearing, and the roster afterwards
* `Roster.pushedSinceClear`: the records that calls have pushed since the last clearing

## Main results

* `Footprint.Built.targetSlots_eq`: a footprint that was built names what it writes
* `Roster.Summarizes.add`: one more record
* `Roster.calls_keep_summaries`: the roster after any calls
-/

namespace PacketLift

/-! ## Targets -/

/-- **A footprint that was built step by step**, from the one that touches nothing. -/
inductive Footprint.Built : Footprint → Prop where
  | none : Built .none
  | withRead {f : Footprint} (r : Register) : Built f → Built (f.withRead r)
  | withWrite {f : Footprint} (r : Register) : Built f → Built (f.withWrite r)
  | withConditional {f : Footprint} (r : Register) : Built f → Built (f.withConditional r)
  | withPair {f : Footprint} (number : Byte) : Built f → Built (f.withPair number)

namespace Footprint

variable (f : Footprint) (r : Register)

/-- The slots of the targets. -/
def targetSlots : Finset (Fin 64) := (f.targets.map Register.slot).toFinset

/-- Naming a target adds its slot, also when another target has that slot already. -/
@[simp] theorem targetSlots_addTarget :
    (f.addTarget r).targetSlots = insert r.slot f.targetSlots := by
  unfold addTarget targetSlots
  split_ifs with hmem
  · have hslot : r.slot ∈ f.targets.map Register.slot := List.mem_map_of_mem hmem
    rw [Finset.insert_eq_of_mem (List.mem_toFinset.mpr hslot)]
  · rw [List.map_append, List.toFinset_append, Finset.union_comm]
    rfl

theorem slots_writes : f.writes.slots = f.written.slots ∪ f.conditional.slots :=
  RegisterSet.slots_union _ _

/-- **One more register**, named and written, keeps what is named and what is written in step. -/
theorem targetSlots_eq_of_insert {f g : Footprint} {i : Fin 64}
    (h : f.targetSlots = f.writes.slots) (htargets : g.targetSlots = insert i f.targetSlots)
    (hwrites : g.writes.slots = insert i f.writes.slots) : g.targetSlots = g.writes.slots := by
  rw [htargets, hwrites, h]

theorem slots_writes_withWrite : (f.withWrite r).writes.slots = insert r.slot f.writes.slots := by
  simp [slots_writes]

theorem slots_writes_withConditional :
    (f.withConditional r).writes.slots = insert r.slot f.writes.slots := by
  simp [slots_writes]

/-- **A footprint that was built names what it writes**, slot by slot. -/
theorem Built.targetSlots_eq {f : Footprint} (h : f.Built) : f.targetSlots = f.writes.slots := by
  have hwrite : ∀ (f : Footprint) r, f.targetSlots = f.writes.slots →
      (f.withWrite r).targetSlots = (f.withWrite r).writes.slots := fun f r hf =>
    targetSlots_eq_of_insert hf (targetSlots_addTarget _ r) (f.slots_writes_withWrite r)
  induction h with
  | none => rfl
  | withRead r _ ih => exact ih
  | withWrite r _ ih => exact hwrite _ r ih
  | withConditional r _ ih =>
    exact targetSlots_eq_of_insert ih (targetSlots_addTarget _ r)
      (slots_writes_withConditional _ r)
  | withPair number _ ih => exact hwrite _ _ (hwrite _ _ ih)

end Footprint

/-- Every target of the records is among the registers that the packet writes. -/
def Roster.TargetsWritten (roster : Roster) : Prop :=
  ∀ r, some r ∈ roster.targets → roster.writes.contains r = true

namespace Roster

variable {roster : Roster} {record : Record}

theorem mem_targetEntries {f : Footprint} {r : Register} :
    some r ∈ targetEntries f ↔ r ∈ f.targets := by
  unfold targetEntries
  split_ifs with hnil
  · simp [List.isEmpty_iff.mp hnil]
  · simp

theorem slots_writes_add :
    (roster.add record).writes.slots = roster.writes.slots ∪ record.footprint.writes.slots :=
  RegisterSet.slots_union _ _

theorem targetsWritten_empty : Roster.empty.TargetsWritten :=
  fun _ hr => absurd hr List.not_mem_nil

/-- One more record keeps all targets written, if it was built. -/
theorem TargetsWritten.add (h : roster.TargetsWritten) (hbuilt : record.footprint.Built) :
    (roster.add record).TargetsWritten := by
  intro r hr
  rw [RegisterSet.contains_iff_mem_slots, slots_writes_add, Finset.mem_union]
  rcases List.mem_append.mp hr with hr | hr
  · exact .inl ((RegisterSet.contains_iff_mem_slots _ r).mp (h r hr))
  · refine .inr ?_
    rw [← hbuilt.targetSlots_eq]
    exact List.mem_toFinset.mpr (List.mem_map_of_mem (mem_targetEntries.mp hr))

/-! ## Summaries -/

/-- **What a roster keeps at hand is what its records come to.** -/
structure Summarizes (roster : Roster) : Prop where
  /-- All that is written, under a predicate or not. -/
  writes_eq : roster.writes.slots = roster.records.toFinset.biUnion fun record =>
    record.footprint.written.slots ∪ record.footprint.conditional.slots
  /-- All that is written under a predicate. -/
  conditional_eq : roster.conditional.slots = roster.records.toFinset.biUnion fun record =>
    record.footprint.conditional.slots
  /-- Predicates are written if some record writes them. -/
  predicates_iff : roster.predicatesWritten = true ↔ ∃ record ∈ roster.records,
    record.footprint.written.contains .p = true ∨ record.footprint.conditional.contains .p = true
  /-- The targets in order, and an empty entry for each record that has none. -/
  targets_eq : roster.targets = roster.records.flatMap fun record =>
    if record.footprint.targets = [] then [none] else record.footprint.targets.map some
  /-- Every target is written. -/
  written_of_target : roster.TargetsWritten
  /-- Every written slot is that of a target. -/
  target_of_written : ∀ i ∈ roster.writes.slots, ∃ r, some r ∈ roster.targets ∧ r.slot = i

namespace Summarizes

theorem empty : Roster.empty.Summarizes where
  writes_eq := RegisterSet.slots_empty
  conditional_eq := RegisterSet.slots_empty
  predicates_iff := by simp [Roster.empty, predicatesWritten]
  targets_eq := rfl
  written_of_target := targetsWritten_empty
  target_of_written := by simp [Roster.empty]

/-- Computed anew with one more record, a union has what that record adds. -/
theorem biUnion_records_add (slots : Record → Finset (Fin 64)) :
    (roster.add record).records.toFinset.biUnion slots =
      roster.records.toFinset.biUnion slots ∪ slots record := by
  have hrecords : (roster.add record).records.toFinset = roster.records.toFinset ∪ {record} :=
    List.toFinset_append
  rw [hrecords, Finset.union_biUnion, Finset.singleton_biUnion]

/-- **One more record** is taken into what the roster keeps at hand. -/
theorem add (h : roster.Summarizes) (hbuilt : record.footprint.Built) :
    (roster.add record).Summarizes where
  writes_eq := by
    rw [slots_writes_add, h.writes_eq, Footprint.slots_writes, biUnion_records_add]
  conditional_eq := by
    rw [biUnion_records_add, ← h.conditional_eq]
    exact RegisterSet.slots_union _ _
  predicates_iff := by
    have hp : (roster.add record).predicatesWritten =
        (roster.predicatesWritten || record.footprint.writes.contains .p) :=
      RegisterSet.hasSlot_union _ _ _
    rw [hp, Bool.or_eq_true, h.predicates_iff]
    simp [Roster.add, Footprint.writes, RegisterSet.contains, or_and_right, exists_or]
  targets_eq := by
    show roster.targets ++ targetEntries record.footprint = _
    rw [h.targets_eq]
    simp [Roster.add, targetEntries]
  written_of_target := h.written_of_target.add hbuilt
  target_of_written := by
    intro i hi
    rw [slots_writes_add, Finset.mem_union] at hi
    rcases hi with hi | hi
    · obtain ⟨r, hr, hslot⟩ := h.target_of_written i hi
      exact ⟨r, List.mem_append_left _ hr, hslot⟩
    · rw [← hbuilt.targetSlots_eq] at hi
      obtain ⟨r, hr, hslot⟩ := List.mem_map.mp (List.mem_toFinset.mp hi)
      exact ⟨r, List.mem_append_right _ (mem_targetEntries.mpr hr), hslot⟩

end Summarizes

/-! ## Calls -/

/-- **One call of a roster.** -/
inductive Call where
  /-- A record is pushed, for the packet at `packetPc`. -/
  | push (record : Record) (packetPc : Word)
  /-- All records are dropped. -/
  | clear

namespace Call

/-- The roster that a call leaves, whether it fails or not. -/
def after (roster : Roster) : Call → Roster
  | push record packetPc => (roster.push record packetPc).2
  | clear => roster.clear

/-- The record that a call pushes. -/
def pushed? : Call → Option Record
  | push record _ => some record
  | clear => none

end Call

/-- The records that calls have pushed since the last clearing, accepted or not. -/
def pushedSinceClear (calls : List Call) : List Record :=
  (calls.rtakeWhile fun call => call.pushed?.isSome).filterMap Call.pushed?

theorem pushedSinceClear_concat_push (calls : List Call) (packetPc : Word) :
    pushedSinceClear (calls ++ [.push record packetPc]) = pushedSinceClear calls ++ [record] := by
  unfold pushedSinceClear
  rw [List.rtakeWhile_concat_pos _ _ _ rfl, List.filterMap_append]
  rfl

theorem pushedSinceClear_concat_clear (calls : List Call) :
    pushedSinceClear (calls ++ [.clear]) = [] := by
  unfold pushedSinceClear
  rw [List.rtakeWhile_concat_neg _ _ _ (by simp [Call.pushed?])]
  rfl

/-- **What one call keeps**: the summaries stay exact. -/
theorem Summarizes.after (h : roster.Summarizes) {call : Call}
    (hbuilt : ∀ record ∈ call.pushed?, record.footprint.Built) :
    (call.after roster).Summarizes := by
  cases call with
  | clear => exact Summarizes.empty
  | push record packetPc =>
    rcases Nat.lt_or_ge roster.size capacity with hsize | hsize
    · rw [Call.after, push_of_lt record packetPc hsize]
      exact h.add (hbuilt record rfl)
    · rwa [Call.after, push_of_le record packetPc hsize]

/-- One call does to the records what it does to the first ones of those pushed. -/
theorem records_after {calls : List Call}
    (h : roster.records = (pushedSinceClear calls).take capacity) (call : Call) :
    (call.after roster).records = (pushedSinceClear (calls ++ [call])).take capacity := by
  have hlength : roster.size = min capacity (pushedSinceClear calls).length := by
    rw [size, h, List.length_take]
  cases call with
  | clear =>
    rw [pushedSinceClear_concat_clear]
    rfl
  | push record packetPc =>
    rw [pushedSinceClear_concat_push, List.take_append]
    rcases Nat.lt_or_ge roster.size capacity with hsize | hsize
    · have hroom : [record].length ≤ capacity - (pushedSinceClear calls).length := by
        simp only [List.length_singleton]
        omega
      rw [Call.after, push_of_lt record packetPc hsize, List.take_of_length_le hroom]
      exact congrArg (· ++ [record]) h
    · have hfull : capacity - (pushedSinceClear calls).length = 0 := by omega
      rw [Call.after, push_of_le record packetPc hsize, hfull, h]
      simp

/-- **What a roster keeps at hand stays exact** through any calls whose footprints were built. The
roster holds the first four records pushed since the last clearing, and what it keeps at hand is
what they come to. A record takes the place behind the others as long as there are fewer than four,
it is refused if there are four, and a refusal leaves the roster as it was. -/
theorem calls_keep_summaries (calls : List Call)
    (hbuilt : ∀ call ∈ calls, ∀ record ∈ call.pushed?, record.footprint.Built) :
    let roster := calls.foldl Call.after .empty
    roster.records = (pushedSinceClear calls).take 4 ∧ roster.size ≤ 4 ∧ roster.Summarizes ∧
      ∀ record packetPc,
        (roster.size < 4 →
          roster.push record packetPc = (.ok roster.size, roster.add record)) ∧
        (∀ fault, (roster.push record packetPc).1 = .error fault ↔
          roster.size = 4 ∧ fault = .packetFull 4 packetPc) ∧
        (∀ fault, (roster.push record packetPc).1 = .error fault →
          (roster.push record packetPc).2 = roster) := by
  -- the last call is split off, as the calls before it decide what it meets
  have hrun : (calls.foldl Call.after .empty).records = (pushedSinceClear calls).take capacity ∧
      (calls.foldl Call.after .empty).Summarizes := by
    induction calls using List.reverseRecOn with
    | nil => exact ⟨rfl, Summarizes.empty⟩
    | append_singleton calls call ih =>
      obtain ⟨hrecords, hsummarizes⟩ := ih fun c hc => hbuilt c (List.mem_append_left _ hc)
      rw [List.foldl_append]
      exact ⟨records_after hrecords call, hsummarizes.after (hbuilt call (by simp))⟩
  obtain ⟨hrecords, hsummarizes⟩ := hrun
  have hsize : (calls.foldl Call.after .empty).size ≤ 4 := by
    rw [size, hrecords]
    exact List.length_take_le _ _
  refine ⟨hrecords, hsize, hsummarizes, fun record packetPc =>
    ⟨push_of_lt record packetPc, fun fault => ?_, fun fault h => ?_⟩⟩
  · rw [push_fst_eq_error_iff]
    exact and_congr_left fun _ => ⟨fun hfull => Nat.le_antisymm hsize hfull, fun hfull => hfull.ge⟩
  · rw [push_of_le record packetPc (push_fst_eq_error_iff.mp h).1]

/-- Calls with two targets of one slot, a record without targets, a pair, and one record more than
there is room for. -/
def crowdedCalls : List Call :=
  let twice := (Footprint.none.withWrite (.general 1)).withConditional (.general 33)
  [.push ⟨0, .none, none⟩ 0, .clear, .push ⟨0, twice, none⟩ 0, .push ⟨4, .none, none⟩ 0,
    .push ⟨8, Footprint.none.withPair 5, none⟩ 0, .push ⟨12, Footprint.none.withWrite .p, none⟩ 0,
    .push ⟨16, Footprint.none.withWrite (.general 7), none⟩ 0]

theorem calls_keep_summaries_crowded :
    (∀ call ∈ crowdedCalls, ∀ record ∈ call.pushed?, record.footprint.Built) ∧
      let roster := crowdedCalls.foldl Call.after .empty
      roster.size = 4 ∧ roster.targets =
          [some (.general 1), some (.general 33), none, some (.general 4), some (.general 5),
            some .p] ∧
        roster.Summarizes ∧ (roster.push ⟨20, .none, none⟩ 0).1 = .error (.packetFull 4 0) ∧
        (roster.push ⟨20, .none, none⟩ 0).2 = roster := by
  have hbuilt : ∀ call ∈ crowdedCalls, ∀ record ∈ call.pushed?, record.footprint.Built := by
    simp only [crowdedCalls, List.forall_mem_cons, Call.pushed?, Option.mem_def, Option.some.injEq,
      forall_eq', reduceCtorEq, false_implies, implies_true, List.not_mem_nil, true_and, and_true]
    exact ⟨.none, .withConditional _ (.withWrite _ .none), .none, .withPair _ .none,
      .withWrite _ .none, .withWrite _ .none⟩
  obtain ⟨-, -, hsummarizes, hpush⟩ := calls_keep_summaries crowdedCalls hbuilt
  have hsize : (crowdedCalls.foldl Call.after .empty).size = 4 := by decide
  obtain ⟨-, hfails, hkept⟩ := hpush ⟨20, .none, none⟩ 0
  have hfault := (hfails _).mpr ⟨hsize, rfl⟩
  exact ⟨hbuilt, hsize, by decide, hsummarizes, hfault, hkept _ hfault⟩

end Roster

end PacketLift
