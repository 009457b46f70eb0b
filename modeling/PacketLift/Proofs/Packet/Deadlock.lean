import Mathlib.Data.Finset.Card
import Mathlib.Order.Bounds.Basic
import PacketLift.Proofs.Packet.Order

/-!
# Records that wait for each other

A round that takes nothing ends the search for an order, and the records that are left cannot be
placed. That this is no weakness of the search can be said without it. Records wait for each other
if each of them needs a register that no record outside of them writes: whichever order is tried,
the first of them to run does not have what it needs. The rounds keep these sets of records as they
are, since none of their members is ever ready, and what is left in the end is such a set itself. So
it is the largest one.

## Main definitions

* `IsDeadlock`: a set of records that wait for each other
* `Waiting.IsStuck`: the same for the records that are left before a round

## Main results

* `Waiting.isStuck_iff_of_round`: a round keeps such sets
* `Waiting.exists_isGreatest_stuck`: rounds fail with the largest of them
* `schedule_rejects_iff_deadlock`: which packets have no order
-/

namespace PacketLift

variable {footprints : List Footprint} {packetWrites : RegisterSet} {places : Finset Nat}

/-- **Records that wait for each other**: each of them needs a register that no record outside of
them writes. -/
def IsDeadlock (footprints : List Footprint) (packetWrites : RegisterSet) (places : Finset Nat) :
    Prop :=
  ∀ i ∈ places, ∃ f, footprints[i]? = some f ∧
    ∃ r, (f.needed packetWrites).contains r = true ∧
      ∀ j g, footprints[j]? = some g → j ∉ places → g.writes.contains r = false

/-! ## Rounds -/

namespace Waiting

variable {done : RegisterSet} {ws : List Waiting}

/-- **Waiting records that wait for each other**: each of them needs a register that is not written
yet, and that no waiting record outside of them writes. -/
def IsStuck (packetWrites done : RegisterSet) (ws : List Waiting) (places : Finset Nat) : Prop :=
  ∀ i ∈ places, ∃ w ∈ ws, w.index = i ∧
    ∃ r, (w.footprint.needed packetWrites).contains r = true ∧ done.contains r = false ∧
      ∀ v ∈ ws, v.index ∉ places → v.footprint.writes.contains r = false

theorem isReady_eq_false_iff {w : Waiting} : w.isReady packetWrites done = false ↔
    ∃ r, (w.footprint.needed packetWrites).contains r = true ∧ done.contains r = false := by
  rw [← Bool.not_eq_true, isReady_iff]
  push Not
  simp only [ne_eq, Bool.not_eq_true]

/-- None of them is ready. -/
theorem IsStuck.isReady_eq_false (h : IsStuck packetWrites done ws places)
    (hdistinct : (ws.map index).Nodup) {w : Waiting} (hw : w ∈ ws) (hplace : w.index ∈ places) :
    w.isReady packetWrites done = false := by
  obtain ⟨v, hv, heq, r, hneeded, hdone, -⟩ := h w.index hplace
  obtain rfl := List.inj_on_of_nodup_map hdistinct hv hw heq
  exact isReady_eq_false_iff.mpr ⟨r, hneeded, hdone⟩

/-- **A round keeps the sets of records that wait for each other**: it takes none of these records,
adds no new set, and writes nothing that one of them waits for. -/
theorem isStuck_iff_of_round (hdistinct : (ws.map index).Nodup) :
    IsStuck packetWrites done ws places ↔
      IsStuck packetWrites (written done (taken packetWrites done ws))
        (left packetWrites done ws) places := by
  constructor
  · intro h i hi
    obtain ⟨w, hw, rfl, r, hneeded, hdone, hothers⟩ := h i hi
    have hleft := mem_left.mpr ⟨hw, h.isReady_eq_false hdistinct hw hi⟩
    refine ⟨w, hleft, rfl, r, hneeded, ?_, ?_⟩
    · rw [← Bool.not_eq_true, contains_written]
      rintro (hr | ⟨v, hv, hr⟩)
      · rw [hdone] at hr
        cases hr
      · obtain ⟨hv, hready⟩ := mem_taken.mp hv
        have hout : v.index ∉ places := by
          intro hplace
          rw [h.isReady_eq_false hdistinct hv hplace] at hready
          cases hready
        rw [hothers v hv hout] at hr
        cases hr
    · intro v hv hout
      exact hothers v (mem_left.mp hv).1 hout
  · intro h i hi
    obtain ⟨w, hw, rfl, r, hneeded, hdone, hothers⟩ := h i hi
    rw [← Bool.not_eq_true, contains_written, not_or] at hdone
    obtain ⟨hnow, htaken⟩ := hdone
    refine ⟨w, (mem_left.mp hw).1, rfl, r, hneeded, Bool.eq_false_iff.mpr hnow, ?_⟩
    intro v hv hout
    cases hready : v.isReady packetWrites done with
    | true =>
      refine Bool.eq_false_iff.mpr ?_
      intro hr
      exact htaken ⟨v, mem_taken.mpr ⟨hv, hready⟩, hr⟩
    | false => exact hothers v (mem_left.mpr ⟨hv, hready⟩) hout

/-- When a round takes nothing, all waiting records wait for each other. -/
theorem isGreatest_stuck_of_taken_eq_nil (hnone : taken packetWrites done ws = []) :
    IsGreatest {places | IsStuck packetWrites done ws places} (ws.map index).toFinset := by
  constructor
  · intro i hi
    obtain ⟨w, hw, rfl⟩ := List.mem_map.mp (List.mem_toFinset.mp hi)
    have hready : w.isReady packetWrites done = false := by
      refine Bool.eq_false_iff.mpr ?_
      intro hready
      have hw' := mem_taken.mpr ⟨hw, hready⟩
      rw [hnone] at hw'
      cases hw'
    obtain ⟨r, hneeded, hdone⟩ := isReady_eq_false_iff.mp hready
    refine ⟨w, hw, rfl, r, hneeded, hdone, ?_⟩
    intro v hv hout
    exact absurd (List.mem_toFinset.mpr (List.mem_map_of_mem hv)) hout
  · intro places h i hi
    obtain ⟨w, hw, rfl, -⟩ := h i hi
    exact List.mem_toFinset.mpr (List.mem_map_of_mem hw)

/-- **Rounds fail with the largest set of records that wait for each other**, unless it is empty. -/
theorem exists_isGreatest_stuck (packetWrites done : RegisterSet) {ws : List Waiting}
    (hdistinct : (ws.map index).Nodup) :
    ∃ largest, IsGreatest {places | IsStuck packetWrites done ws places} largest ∧
      ∀ n, rounds packetWrites done ws = .error n ↔ largest.Nonempty ∧ largest.card = n := by
  -- on the rounds: those that take something keep the sets, and the last one shows the largest
  fun_induction rounds packetWrites done ws with
  | case1 done ws hempty =>
    obtain rfl := List.isEmpty_iff.mp hempty
    refine ⟨∅, isGreatest_stuck_of_taken_eq_nil rfl, ?_⟩
    simp
  | case2 done ws hempty hnone =>
    refine ⟨_, isGreatest_stuck_of_taken_eq_nil (List.isEmpty_iff.mp hnone), ?_⟩
    intro n
    have hne : (ws.map index).toFinset.Nonempty := by simpa using hempty
    have hcard : (ws.map index).toFinset.card = ws.length := by
      rw [List.toFinset_card_of_nodup hdistinct, List.length_map]
    rw [hcard, Except.error.injEq]
    exact (and_iff_right hne).symm
  | case3 done ws hempty hsome taken left =>
    rename_i ih
    have hleft : (left.map index).Nodup := hdistinct.sublist (List.filter_sublist.map index)
    obtain ⟨largest, hlargest, herror⟩ := ih hleft
    refine ⟨largest, ?_, ?_⟩
    · simp only [isStuck_iff_of_round hdistinct]
      exact hlargest
    · intro n
      rw [← herror n]
      cases rounds packetWrites (written done taken) left <;> simp [Except.map]

theorem isStuck_ofFootprints_iff :
    IsStuck packetWrites .empty (ofFootprints footprints) places ↔
      IsDeadlock footprints packetWrites places := by
  constructor
  · intro h i hi
    obtain ⟨w, hw, rfl, r, hneeded, -, hothers⟩ := h i hi
    refine ⟨w.footprint, mem_ofFootprints.mp hw, r, hneeded, ?_⟩
    intro j g hg hout
    exact hothers ⟨j, g⟩ (mem_ofFootprints.mpr hg) hout
  · intro h i hi
    obtain ⟨f, hf, r, hneeded, hothers⟩ := h i hi
    refine ⟨⟨i, f⟩, mem_ofFootprints.mpr hf, rfl, r, hneeded, RegisterSet.contains_empty r, ?_⟩
    intro v hv hout
    exact hothers v.index v.footprint (mem_ofFootprints.mp hv) hout

end Waiting

/-! ## Packets -/

theorem schedule_eq_error_iff {packetPc : Word} {fault : Fault} :
    schedule footprints packetWrites packetPc = .error fault ↔
      ∃ n, rounds packetWrites .empty (Waiting.ofFootprints footprints) = .error n ∧
        fault = .dependencyCycle packetPc n := by
  simp only [schedule, Waiting.ofFootprints]
  cases rounds packetWrites .empty (footprints.mapIdx fun i f => ⟨i, f⟩) with
  | ok order => simp
  | error n => simp [eq_comm]

/-- **Which packets have no order**, for any records, any set of registers that the packet is said
to write, and any address. There is no order if and only if some records wait for each other: there
are some, and each of them needs a register that no record outside of them writes. The fault then
names the address of the packet and the size of the largest set of records that do; all other such
sets are part of it. No other fault can arise. -/
theorem schedule_rejects_iff_deadlock (footprints : List Footprint) (packetWrites : RegisterSet)
    (packetPc : Word) :
    ((∃ unplaced, schedule footprints packetWrites packetPc =
        .error (.dependencyCycle packetPc unplaced)) ↔
      ∃ places : Finset Nat, places.Nonempty ∧ IsDeadlock footprints packetWrites places) ∧
    ∀ fault, schedule footprints packetWrites packetPc = .error fault ↔
      ∃ largest : Finset Nat, largest.Nonempty ∧
        IsGreatest {places | IsDeadlock footprints packetWrites places} largest ∧
        fault = .dependencyCycle packetPc largest.card := by
  have hdistinct : ((Waiting.ofFootprints footprints).map Waiting.index).Nodup := by
    rw [Waiting.map_index_ofFootprints]
    exact List.nodup_range
  obtain ⟨largest, hlargest, herror⟩ :=
    Waiting.exists_isGreatest_stuck packetWrites .empty hdistinct
  simp only [Waiting.isStuck_ofFootprints_iff] at hlargest
  have hfault : ∀ fault, schedule footprints packetWrites packetPc = .error fault ↔
      largest.Nonempty ∧ fault = .dependencyCycle packetPc largest.card := by
    intro fault
    rw [schedule_eq_error_iff]
    constructor
    · rintro ⟨n, hn, rfl⟩
      obtain ⟨hne, rfl⟩ := (herror n).mp hn
      exact ⟨hne, rfl⟩
    · rintro ⟨hne, rfl⟩
      exact ⟨largest.card, (herror _).mpr ⟨hne, rfl⟩, rfl⟩
  constructor
  · constructor
    · rintro ⟨unplaced, h⟩
      exact ⟨largest, ((hfault _).mp h).1, hlargest.1⟩
    · rintro ⟨places, hne, hplaces⟩
      exact ⟨largest.card, (hfault _).mpr ⟨hne.mono (hlargest.2 hplaces), rfl⟩⟩
  · intro fault
    rw [hfault]
    constructor
    · rintro ⟨hne, rfl⟩
      exact ⟨largest, hne, hlargest, rfl⟩
    · rintro ⟨other, hne, hother, rfl⟩
      obtain rfl := hother.unique hlargest
      exact ⟨hne, rfl⟩

-- two records that wait for each other, one that waits for both, and one that does not wait
example :
    let footprints : List Footprint :=
      [(Footprint.none.withRead (.general 2)).withWrite (.general 1),
        (Footprint.none.withRead (.general 1)).withWrite (.general 2),
        (Footprint.none.withRead (.general 1)).withRead (.general 2),
        Footprint.none.withWrite (.general 9)]
    schedule footprints (unionOver Footprint.writes .empty footprints) 0x80 =
      .error (.dependencyCycle 0x80 3) := by
  decide +kernel

end PacketLift
