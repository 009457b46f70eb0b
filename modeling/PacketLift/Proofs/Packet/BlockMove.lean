import PacketLift.Packet.Schedule
import PacketLift.Proofs.Packet.Moves
import PacketLift.Proofs.Packet.Order

/-!
# Relocation as the move of a block

Relocation moves the ranges of some records one by one. What comes out is the move of one block:
the ranges together are cut out of the listing and put behind the anchor, and nothing else changes.
A block that is in its place already stays there, so a second relocation does nothing.

## Main definitions

* `Listing.MovesBlock l l' front back moved ranges`: the two listings differ by the move of a block

## Main results

* `Represents.movesBlock`: relocation moves the block of the ranges that it is asked for
* `Represents.relocate_eq_self`: a block in its place stays
* `relocate_moves_block`: both, with what follows for a second relocation and for one that is not
  needed
-/

namespace PacketLift

namespace Listing

/-- **An exact move of a block**: `moved` is cut out of the entries `front ++ back` of `l` and put
behind `front`, and that is all that changes. -/
structure MovesBlock (l l' : Listing) (front back moved : List Entry)
    (ranges : List (List Entry)) : Prop where
  entries_eq : l'.entries = front.filter (· ∉ moved) ++ moved ++ back.filter (· ∉ moved)
  /-- The links form one ring through these entries. -/
  ring : l'.Represents l'.entries
  /-- No operation is lost or there twice. -/
  perm : l'.entries.Perm l.entries
  get_eq : ∀ id, l'.get? id = l.get? id
  temps_eq : l'.temps = l.temps
  /-- The operations outside of the block keep their order. -/
  others : l'.entries.filter (· ∉ moved) = l.entries.filter (· ∉ moved)
  /-- Each range is one run as before, moved or not. -/
  contiguous : ∀ range ∈ ranges, range <:+: l'.entries

theorem get?_relocate (l : Listing) (anchor : OpId) (records : List Record) (order : List Nat)
    (id : OpId) : (l.relocate anchor records order).get? id = l.get? id := by
  unfold relocate
  generalize plannedMoves anchor (inOrder records order) = moves
  induction moves generalizing l with
  | nil => rfl
  | cons m moves ih => exact (ih _).trans (get?_moveAfter l m.span m.after id)

/-- Each anchor cuts the entries in two. -/
theorem exists_front {es : List Entry} {anchor : OpId}
    (h : anchor = 0 ∨ anchor ∈ es.map Entry.id) :
    ∃ front back, es = front ++ back ∧ (front.map Entry.id).getLastD 0 = anchor := by
  rcases h with rfl | hmem
  · exact ⟨[], es, rfl, rfl⟩
  · obtain ⟨e, he, rfl⟩ := List.mem_map.mp hmem
    obtain ⟨as, bs, rfl⟩ := List.append_of_mem he
    exact ⟨as ++ [e], bs, by simp, by simp⟩

section Ranges

variable {α : Type} {ranges : List (List α)} {front back : List α}

/-- The first ranges in program order are at the start of all ranges. -/
theorem range_flatMap_isPrefix {n : Nat} (hn : n ≤ ranges.length) :
    (List.range n).flatMap (ranges.getD · []) <+: ranges.flatten := by
  obtain ⟨k, hk⟩ := Nat.exists_eq_add_of_le hn
  rw [← range_flatMap_getD, hk, List.range_add, List.flatMap_append]
  exact List.prefix_append _ _

/-- A block has nothing but what its ranges have. -/
theorem flatMap_subset_of_apart (h : ∀ range ∈ ranges, Apart front back range)
    (order : List Nat) : order.flatMap (ranges.getD · []) ⊆ front ++ back := by
  intro a ha
  obtain ⟨i, -, hi⟩ := List.mem_flatMap.mp ha
  obtain ⟨range, hrange, hmem⟩ := exists_mem_of_mem_getD hi
  rcases (h range hrange).side with hx | hy
  · exact List.mem_append_left back (hx.subset hmem)
  · exact List.mem_append_right front (hy.subset hmem)

variable [DecidableEq α]

/-- The cut leaves the element in front of the cursor. -/
theorem getLast?_filter_notMem {moved : List α} (h : ∀ a ∈ front.getLast?, a ∉ moved) :
    (front.filter (· ∉ moved)).getLast? = front.getLast? := by
  rcases List.eq_nil_or_concat front with rfl | ⟨init, a, rfl⟩
  · rfl
  · have ha : a ∉ moved := h a (by simp)
    simp [ha]

/-- A range stays one run, whether it is in the block or not. -/
theorem infix_of_apart (hdisjoint : ranges.Pairwise List.Disjoint) {range : List α}
    (hrange : range ∈ ranges) (hapart : Apart front back range) (order : List Nat) :
    range <:+: front.filter (· ∉ order.flatMap (ranges.getD · [])) ++
      order.flatMap (ranges.getD · []) ++
        back.filter (· ∉ order.flatMap (ranges.getD · [])) := by
  obtain ⟨k, hk, rfl⟩ := List.getElem_of_mem hrange
  have hget : ranges.getD k [] = ranges[k] := by simp [hk]
  by_cases hmem : k ∈ order
  · have hin : ranges[k] <:+: order.flatMap (ranges.getD · []) := by
      rw [← hget, List.flatMap_def]
      exact List.infix_of_mem_flatten (List.mem_map_of_mem hmem)
    exact hin.trans ⟨_, _, rfl⟩
  · have hd : (order.flatMap (ranges.getD · [])).Disjoint ranges[k] := by
      intro e he hr
      obtain ⟨j, hj, hej⟩ := List.mem_flatMap.mp he
      have hpair : [j, k].Nodup := by simpa using ne_of_mem_of_not_mem hj hmem
      have hjk := List.pairwise_pair.mp (pairwise_disjoint_getD hdisjoint hpair)
      rw [hget] at hjk
      exact hjk hej hr
    rcases hapart.side with hx | hy
    · refine (infix_filter_of_disjoint hx hd).trans ?_
      exact ((List.prefix_append _ _).trans (List.prefix_append _ _)).isInfix
    · exact (infix_filter_of_disjoint hy hd).trans (List.suffix_append _ _).isInfix

end Ranges

section Relocate

variable {l : Listing} {front back : List Entry} {records : List Record}
  {ranges : List (List Entry)} {order : List Nat}

/-- **Relocation moves the block** of the ranges that the order names. -/
theorem Represents.movesBlock (h : l.Represents (front ++ back))
    (hrec : List.Forall₂ Record.Holds records ranges)
    (hapart : ∀ range ∈ ranges, Apart front back range)
    (hdisjoint : ranges.Pairwise List.Disjoint) (hnd : order.Nodup)
    (hvalid : ∀ i ∈ order, i < records.length) :
    l.MovesBlock (l.relocate ((front.map Entry.id).getLastD 0) records order) front back
      (order.flatMap (ranges.getD · [])) ranges := by
  have h' := h.relocate_apart hrec hapart hdisjoint hnd hvalid
  refine ⟨h'.entries_eq, h'.entries_eq.symm ▸ h', ?_, get?_relocate l _ records order,
    temps_relocate .., ?_, ?_⟩
  · -- no entry is there twice, before or after, so it is enough to compare the members
    rw [h'.entries_eq, h.entries_eq]
    have hin := flatMap_subset_of_apart hapart order
    refine (List.perm_ext_iff_of_nodup (.of_map _ h'.nodup) (.of_map _ h.nodup)).mpr fun e => ?_
    have he : e ∈ order.flatMap (ranges.getD · []) → e ∈ front ∨ e ∈ back := fun hm =>
      List.mem_append.mp (hin hm)
    simp only [List.mem_append, List.mem_filter, decide_eq_true_eq]
    tauto
  · have hblock : (order.flatMap (ranges.getD · [])).filter
        (· ∉ order.flatMap (ranges.getD · [])) = [] := by simp
    rw [h'.entries_eq, h.entries_eq, List.filter_append, List.filter_append, List.filter_append,
      hblock, List.append_nil, List.filter_filter, List.filter_filter]
    simp only [Bool.and_self]
  · intro range hrange
    rw [h'.entries_eq]
    exact infix_of_apart hdisjoint hrange (hapart range hrange) order

/-- **A block in its place** stays there, and relocation gives the same listing. -/
theorem Represents.relocate_eq_self (h : l.Represents (front ++ back))
    (hrec : List.Forall₂ Record.Holds records ranges)
    (hvalid : ∀ i ∈ order, i < records.length)
    (hplace : order.flatMap (ranges.getD · []) <+: back) :
    l.relocate ((front.map Entry.id).getLastD 0) records order = l := by
  obtain ⟨rest, rfl⟩ := hplace
  rw [← List.append_assoc] at h
  exact h.applyMoves_eq_self (exists_holds hrec hvalid)

/-- Without a new order, the block has the first ranges in program order. -/
theorem flatMap_prefix_of_not_isReordered (h : isReordered order = false)
    (hvalid : ∀ i ∈ order, i < ranges.length) :
    order.flatMap (ranges.getD · []) <+: ranges.flatten := by
  have horder := eq_range_of_not_isReordered h
  have hlength : order.length ≤ ranges.length := by
    rcases Nat.eq_zero_or_pos order.length with hzero | hpos
    · omega
    · have hlast : order.length - 1 ∈ order := by
        rw [horder, List.length_range, List.mem_range]
        omega
      have := hvalid _ hlast
      omega
  rw [horder]
  exact range_flatMap_isPrefix hlength

/-- **Relocation is an exact move of a block, and doing it again changes nothing.** The records may
have their ranges anywhere, in front of the anchor too, and the order need not name all of them.
When the block follows the anchor already, the listing stays as it is; so when the ranges follow it
in program order, relocation may be left out for an order that is not a new one. -/
theorem relocate_moves_block {l : Listing} {es : List Entry} (h : l.Represents es)
    {anchor : OpId} (hanchor : anchor = 0 ∨ anchor ∈ es.map Entry.id) {records : List Record}
    {ranges : List (List Entry)} (hrec : List.Forall₂ Record.Holds records ranges)
    (hruns : ∀ range ∈ ranges, range <:+: es ∧ anchor ∉ range.map Entry.id)
    (hdisjoint : ranges.Pairwise List.Disjoint) {order : List Nat} (hnd : order.Nodup)
    (hvalid : ∀ i ∈ order, i < records.length) :
    ∃ front back, es = front ++ back ∧ (front.map Entry.id).getLastD 0 = anchor ∧
      l.MovesBlock (l.relocate anchor records order) front back
        (order.flatMap (ranges.getD · [])) ranges ∧
      (l.relocate anchor records order).relocate anchor records order =
        l.relocate anchor records order ∧
      (order.flatMap (ranges.getD · []) <+: back → l.relocate anchor records order = l) ∧
      (ranges.flatten <+: back →
        (if isReordered order then l.relocate anchor records order else l) =
          l.relocate anchor records order) := by
  obtain ⟨front, back, rfl, rfl⟩ := exists_front hanchor
  have hcursor : ∀ range ∈ ranges, ∀ e ∈ front.getLast?, e ∉ range := by
    intro range hrange e he hmem
    have hlast : (front.map Entry.id).getLastD 0 = e.id := by
      rw [List.getLastD_eq_getLast?, List.getLast?_map, he]
      rfl
    exact (hruns range hrange).2 (hlast ▸ List.mem_map_of_mem hmem)
  have hapart : ∀ range ∈ ranges, Apart front back range := fun range hrange =>
    .of_isInfix (hruns range hrange).1 (hcursor range hrange)
  have hvalid' : ∀ i ∈ order, i < ranges.length := hrec.length_eq ▸ hvalid
  refine ⟨front, back, rfl, rfl, h.movesBlock hrec hapart hdisjoint hnd hvalid, ?_, ?_, ?_⟩
  · have h' := h.relocate_apart hrec hapart hdisjoint hnd hvalid
    have hkept : ∀ e ∈ front.getLast?, e ∉ order.flatMap (ranges.getD · []) := by
      intro e he hmem
      obtain ⟨i, -, hi⟩ := List.mem_flatMap.mp hmem
      obtain ⟨range, hrange, hin⟩ := exists_mem_of_mem_getD hi
      exact hcursor range hrange e he hin
    have hanchor' : ((front.filter (· ∉ order.flatMap (ranges.getD · []))).map
        Entry.id).getLastD 0 = (front.map Entry.id).getLastD 0 := by
      rw [List.getLastD_eq_getLast?, List.getLast?_map, getLast?_filter_notMem hkept,
        ← List.getLast?_map, ← List.getLastD_eq_getLast?]
    rw [List.append_assoc] at h'
    have hagain := h'.relocate_eq_self hrec hvalid (List.prefix_append _ _)
    rwa [hanchor'] at hagain
  · exact h.relocate_eq_self hrec hvalid
  · intro hplace
    cases hnew : isReordered order with
    | true => rfl
    | false =>
      have hblock := (flatMap_prefix_of_not_isReordered hnew hvalid').trans hplace
      exact (h.relocate_eq_self hrec hvalid hblock).symm

/-- Six operations, anchored at the second: one range in front of the anchor and one behind it are
put there, a record between them has no operations, and the order of the others stays. -/
theorem relocate_moves_block_six :
    ∃ (l : Listing) (records : List Record) (front back moved : List Entry)
      (ranges : List (List Entry)),
      l.ids = [1, 2, 3, 4, 5, 6] ∧ moved.map Entry.id = [1, 5, 6] ∧
      (l.relocate 2 records [2, 1, 0]).ids = [2, 1, 5, 6, 3, 4] ∧
      l.MovesBlock (l.relocate 2 records [2, 1, 0]) front back moved ranges ∧
      (l.relocate 2 records [2, 1, 0]).relocate 2 records [2, 1, 0] =
        l.relocate 2 records [2, 1, 0] := by
  let ops : List MicroOp := [.packetStart 0, .packetStart 4, .packetStart 8, .packetStart 12,
    .packetStart 16, .packetStart 20]
  let records : List Record :=
    [⟨0, .none, some ⟨5, 6⟩⟩, ⟨4, .none, none⟩, ⟨8, .none, some ⟨1, 1⟩⟩]
  let ranges : List (List Entry) :=
    [[⟨5, .packetStart 16⟩, ⟨6, .packetStart 20⟩], [], [⟨1, .packetStart 0⟩]]
  have h : (Listing.empty.extend ops []).Represents (numbered 1 ops) :=
    represents_empty.extend ops []
  have hrec : List.Forall₂ Record.Holds records ranges :=
    .cons ⟨rfl, rfl⟩ (.cons rfl (.cons ⟨rfl, rfl⟩ .nil))
  have hruns : ∀ range ∈ ranges, range <:+: numbered 1 ops ∧ 2 ∉ range.map Entry.id := by
    decide
  have hdisjoint : ranges.Pairwise List.Disjoint := by
    simp [ranges, List.Disjoint]
  have hanchor : 2 = 0 ∨ 2 ∈ (numbered 1 ops).map Entry.id := Or.inr (by decide)
  have hnd : [2, 1, 0].Nodup := by decide
  obtain ⟨front, back, -, -, hmoves, hagain, -⟩ :=
    relocate_moves_block h hanchor hrec hruns hdisjoint hnd (by decide)
  exact ⟨_, records, front, back, _, ranges, by decide, by decide, by decide, hmoves, hagain⟩

end Relocate

end Listing

end PacketLift
