import Mathlib.Data.List.Perm.Basic
import PacketLift.Packet.Schedule
import PacketLift.Proofs.Packet.Footprint

/-!
# The order that rounds find

Each round takes some of the waiting records and leaves the others, so the order that the rounds
find has every waiting record exactly once.

## Main definitions

* `Waiting.ofFootprints`: the records of a packet before the first round

## Main results

* `Waiting.isReady_iff`, `Waiting.contains_written`: what rounds ask for and what they add
* `rounds_perm`, `schedule_perm`: an order is a permutation of the records
* `rounds_of_next_ready`: the order when two rounds are enough
* `eq_range_of_not_isReordered`: an order that is not a new one is program order
-/

namespace PacketLift

namespace Waiting

/-- A round only divides the records. -/
theorem taken_append_left_perm (packetWrites done : RegisterSet) (ws : List Waiting) :
    (taken packetWrites done ws ++ left packetWrites done ws).Perm ws := by
  unfold taken left
  exact List.filter_append_perm _ ws

theorem hasSlot_written (done : RegisterSet) (ws : List Waiting) (slot : Nat) :
    (written done ws).hasSlot slot =
      (done.hasSlot slot || ws.any fun w => w.footprint.writes.hasSlot slot) := by
  have hunion : written done ws =
      unionOver Footprint.writes done (ws.map Waiting.footprint) := by
    rw [unionOver, List.foldl_map]
    rfl
  rw [hunion, hasSlot_unionOver, List.any_map]
  rfl

variable {packetWrites done : RegisterSet} {ws : List Waiting} {w : Waiting} {r : Register}

theorem contains_written : (written done ws).contains r = true ↔
    done.contains r = true ∨ ∃ w ∈ ws, w.footprint.writes.contains r = true := by
  unfold RegisterSet.contains
  rw [hasSlot_written, Bool.or_eq_true, List.any_eq_true]

theorem isReady_iff : w.isReady packetWrites done = true ↔
    ∀ r, (w.footprint.needed packetWrites).contains r = true → done.contains r = true :=
  RegisterSet.isSubset_iff_contains _ _

theorem mem_taken : w ∈ taken packetWrites done ws ↔
    w ∈ ws ∧ w.isReady packetWrites done = true :=
  List.mem_filter

theorem mem_left : w ∈ left packetWrites done ws ↔
    w ∈ ws ∧ w.isReady packetWrites done = false := by
  rw [left, List.mem_filter, Bool.not_eq_true']

/-- The records of a packet, all of them waiting. -/
def ofFootprints (footprints : List Footprint) : List Waiting :=
  footprints.mapIdx fun i f => ⟨i, f⟩

theorem mem_ofFootprints {footprints : List Footprint} :
    w ∈ ofFootprints footprints ↔ footprints[w.index]? = some w.footprint := by
  unfold ofFootprints
  rw [List.mem_mapIdx]
  constructor
  · rintro ⟨i, hi, rfl⟩
    exact List.getElem?_eq_getElem hi
  · intro h
    obtain ⟨hi, hw⟩ := List.getElem?_eq_some_iff.mp h
    refine ⟨w.index, hi, ?_⟩
    rw [hw]

theorem map_index_ofFootprints (footprints : List Footprint) :
    (ofFootprints footprints).map index = List.range footprints.length := by
  apply List.ext_getElem
  · simp [ofFootprints]
  · intro i hi hi'
    simp [ofFootprints]

end Waiting

/-- **All rounds together** place each waiting record once. -/
theorem rounds_perm {packetWrites done : RegisterSet} {waiting : List Waiting} {order : List Nat}
    (h : rounds packetWrites done waiting = .ok order) :
    order.Perm (waiting.map Waiting.index) := by
  fun_induction rounds packetWrites done waiting generalizing order with
  | case1 done waiting hempty =>
    cases h
    simp [List.isEmpty_iff.mp hempty]
  | case2 done waiting hempty hnone => cases h
  | case3 done waiting hempty hsome taken left =>
    rename_i ih
    cases hrest : rounds packetWrites (Waiting.written done taken) left with
    | error unplaced =>
      rw [hrest] at h
      cases h
    | ok rest =>
      rw [hrest] at h
      cases h
      -- what the round takes comes first, and the rounds behind it place what it leaves
      have hdivided := (Waiting.taken_append_left_perm packetWrites done waiting).map Waiting.index
      rw [List.map_append] at hdivided
      exact ((ih hrest).append_left _).trans hdivided

/-- **Records that are all ready** are placed in program order. -/
theorem rounds_of_all_ready {packetWrites done : RegisterSet} {waiting : List Waiting}
    (h : ∀ w ∈ waiting, w.isReady packetWrites done = true) :
    rounds packetWrites done waiting = .ok (waiting.map Waiting.index) := by
  have htaken : Waiting.taken packetWrites done waiting = waiting := List.filter_eq_self.mpr h
  have hleft : Waiting.left packetWrites done waiting = [] :=
    List.filter_eq_nil_iff.mpr fun w hw => by simp [h w hw]
  by_cases hnil : waiting = []
  · rw [hnil, rounds]
    rfl
  · rw [rounds, if_neg (by simpa using hnil), dif_neg (by simpa [htaken] using hnil)]
    simp only [htaken, hleft]
    rw [rounds]
    simp [Except.map]

/-- **Two rounds** place all records when the first takes some and makes the others ready. -/
theorem rounds_of_next_ready {packetWrites done : RegisterSet} {waiting : List Waiting}
    (hsome : waiting ≠ [] → Waiting.taken packetWrites done waiting ≠ [])
    (hnext : ∀ w ∈ Waiting.left packetWrites done waiting, w.isReady packetWrites
      (Waiting.written done (Waiting.taken packetWrites done waiting)) = true) :
    rounds packetWrites done waiting = .ok ((Waiting.taken packetWrites done waiting
      ++ Waiting.left packetWrites done waiting).map Waiting.index) := by
  by_cases hnil : waiting = []
  · rw [hnil, rounds]
    rfl
  · rw [rounds, if_neg (by simpa using hnil), dif_neg (by simpa using hsome hnil)]
    simp only [rounds_of_all_ready hnext]
    rw [List.map_append]
    rfl

theorem schedule_eq_ok_iff {footprints : List Footprint} {packetWrites : RegisterSet}
    {packetPc : Word} {order : List Nat} :
    schedule footprints packetWrites packetPc = .ok order ↔
      rounds packetWrites .empty (footprints.mapIdx fun i f => ⟨i, f⟩) = .ok order := by
  simp only [schedule]
  cases rounds packetWrites .empty (footprints.mapIdx fun i f => ⟨i, f⟩) <;> simp

/-- **An order** has the place of each record once. -/
theorem schedule_perm {footprints : List Footprint} {packetWrites : RegisterSet} {packetPc : Word}
    {order : List Nat} (h : schedule footprints packetWrites packetPc = .ok order) :
    order.Perm (List.range footprints.length) := by
  rw [← Waiting.map_index_ofFootprints]
  exact rounds_perm (schedule_eq_ok_iff.mp h)

theorem eq_range_of_not_isReordered {order : List Nat} (h : isReordered order = false) :
    order = List.range order.length := by
  unfold isReordered at h
  exact of_not_not fun hne => by simp [hne] at h

end PacketLift
