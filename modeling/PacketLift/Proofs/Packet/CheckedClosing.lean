import PacketLift.Proofs.Packet.CheckedOrder
import PacketLift.Proofs.Packet.Epilogue
import PacketLift.Proofs.Packet.Roster

/-!
# Closing a packet with all conditions checked

Closing a packet relies on conditions that it does not look at. A move takes the operations from
the first to the last of a span, so the links have to lead from one to the other without meeting
the head, and the place it goes to has to lie outside. The order names places, and each has to have
a record. Every target that a record names has to be among the registers that the packet writes.

This module closes a packet with these conditions checked where they are relied on. The first one
that does not hold ends it with a `Violation`. When the records hold ranges of the listing behind
the anchor, and their targets are written, none is violated, and closing comes to the same.

## Main definitions

* `Listing.runTo?`: the identities between two operations, as the links give them
* `Checked.moveAfter`, `Checked.relocate`, `Checked.primeConditional`, `Checked.closePacket`

## Main results

* `Checked.moveAfter_eq`: a range on one side of the cursor can be moved there
* `Checked.relocate_eq`: ranges can be moved one by one
* `Checked.closePacket_eq`: closing a packet violates nothing
-/

namespace PacketLift

/-- **The identities from a cursor to `last`**, as the links give them, if `last` comes within the
given number of steps and before the head. -/
def Listing.runTo? (l : Listing) (last : OpId) : Nat → OpId → Option (List OpId)
  | 0, _ => none
  | steps + 1, cursor =>
    if cursor = 0 then none
    else if cursor = last then some [cursor]
    else (l.runTo? last steps (l.next cursor)).map (cursor :: ·)

namespace Checked

/-- Go on if a condition holds. -/
def require (condition : Bool) (violation : Violation) : Except Violation Unit :=
  if condition then .ok () else .error violation

/-- **The listing with a span moved behind the operation `after`.** The span is a run of linked
operations, none of them the head or `after`. -/
def moveAfter (l : Listing) (span : Span) (after : OpId) : Except Violation Listing := do
  require (span.first ≠ 0 ∧ span.last ≠ 0) (.movesHead span)
  -- no run has more operations than the listing, so a walk that takes more steps goes astray
  let some run := l.runTo? span.last l.size span.first | throw (.brokenRun span)
  require (after ∉ run) (.targetInRun span after)
  (after :: run).forM fun id => require (id < l.nodes.size) (.unknownId id)
  return l.moveAfter span after

/-- **The listing with the operations of records put behind a cursor**, in the given order. Each
place of the order has a record. -/
def relocate (records : List Record) (l : Listing) (cursor : OpId) :
    List Nat → Except Violation Listing
  | [] => return l
  | i :: order => do
    match (← lookUp records i).ops with
    | none => relocate records l cursor order
    | some span => relocate records (← moveAfter l span cursor) span.last order

/-- **Live values for staging words**, emitted behind `anchor`. -/
def primeConditional (conditional : RegisterSet) (anchor : OpId) (l : Listing) :
    Except Violation (RegisterSet × Listing) := do
  let primed := conditional.erase .pc
  let copies : Emit Unit :=
    primed.toList.forM fun r => emit (.copy (Global.staged r) (Global.live r))
  let copied := (copies.run l).2
  match copied.spanSince l.lastId with
  | none => return (primed, copied)
  | some span => return (primed, ← moveAfter copied span anchor)

/-- A target is among the registers that are written; an empty entry asks for nothing. -/
def requireWritten (writes : RegisterSet) : Option Register → Except Violation Unit
  | none => return
  | some r => require (writes.contains r) (.targetNotWritten r)

/-- Close a packet whose records run in the given order. -/
def closeInOrder (roster : Roster) (site : PacketSite) (l : Listing) (order : List Nat) :
    Except Violation (Closing × Listing) := do
  let ordered ←
    (if isReordered order then relocate roster.records l site.anchor order else pure l)
  -- what is written is committed next, so a target outside of it would be lost
  roster.targets.forM (requireWritten roster.writes)
  let changesPc := roster.writes.contains .pc || site.loopEnd.isSome
  let (committed, behind) := (emitEpilogue roster.writes site changesPc).run ordered
  let (primed, listing) ← primeConditional roster.conditional site.anchor behind
  return ({ order, changesPc, committed, primed }, listing)

/-- **Close a packet** with all conditions checked. -/
def closePacket (roster : Roster) (site : PacketSite) (l : Listing) :
    Except Violation (Except Fault (Closing × Listing)) := do
  match ← schedule (roster.records.map (·.footprint)) roster.writes site.packetPc with
  | .error fault => return .error fault
  | .ok order => return .ok (← closeInOrder roster site l order)

end Checked

/-! ## Moves -/

/-- **The links lead through a linked run** to its last identity. -/
theorem Listing.runTo?_eq {l : Listing} {run : List OpId} {first last : OpId} {steps : Nat}
    (hlinked : l.Linked run) (hfirst : run.head? = some first) (hlast : run.getLast? = some last)
    (hnd : run.Nodup) (hzero : 0 ∉ run) (hsteps : run.length ≤ steps) :
    l.runTo? last steps first = some run := by
  -- no identity comes twice, so the walk does not meet `last` before the end of the run
  induction run generalizing first steps with
  | nil => cases hfirst
  | cons id run ih =>
    obtain rfl : id = first := Option.some.inj hfirst
    obtain ⟨hnotMem, hnd⟩ := List.nodup_cons.mp hnd
    have hne : id ≠ 0 := fun hid => hzero (by simp [hid])
    cases steps with
    | zero => simp at hsteps
    | succ steps =>
      rw [runTo?, if_neg hne]
      cases run with
      | nil =>
        obtain rfl : id = last := Option.some.inj hlast
        exact if_pos rfl
      | cons id' run =>
        rw [List.getLast?_cons_cons] at hlast
        have hother : id ≠ last := fun hid => hnotMem (hid ▸ List.mem_of_getLast? hlast)
        obtain ⟨hlink, hlinked⟩ := List.isChain_cons_cons.mp hlinked
        rw [if_neg hother, hlink.1, ih hlinked rfl hlast hnd (fun hmem => hzero (by simp [hmem]))
          (by simpa using hsteps)]
        rfl

/-- **The cursor stands outside** of a range that keeps apart from it: it is the head, or the entry
in front of the cursor, which the range does not have. -/
theorem Listing.Represents.cursor_notMem {l : Listing} {xs ys range : List Entry}
    (h : l.Represents (xs ++ ys)) (hin : range <:+: xs ++ ys) (hapart : Apart xs ys range) :
    (xs.map Entry.id).getLastD 0 ∉ range.map Entry.id := by
  intro hmem
  obtain ⟨e, he, hid⟩ := List.mem_map.mp hmem
  rcases List.eq_nil_or_concat xs with rfl | ⟨init, last, rfl⟩
  · exact h.zero_notMem (List.mem_map.mpr ⟨e, hin.subset he, hid⟩)
  · have hlast : e.id = last.id := by simpa using hid
    have heq : e = last := List.inj_on_of_nodup_map h.nodup (hin.subset he) (by simp) hlast
    exact hapart.cursor last (by simp) (heq ▸ he)

theorem Listing.Represents.cursor_lt {l : Listing} {xs ys : List Entry}
    (h : l.Represents (xs ++ ys)) : (xs.map Entry.id).getLastD 0 < l.nodes.size := by
  rcases List.eq_nil_or_concat xs with rfl | ⟨init, last, rfl⟩
  · exact h.head
  · have hlast : ((init.concat last).map Entry.id).getLastD 0 = last.id := by simp
    rw [hlast]
    exact ((h.mem_iff last.id).mp (by simp)).2

namespace Checked

theorem require_eq {condition : Bool} {violation : Violation} (h : condition = true) :
    require condition violation = .ok () := if_pos h

/-- Checks that hold one by one hold together. -/
theorem forM_eq {α : Type} {xs : List α} {check : α → Except Violation Unit}
    (h : ∀ a ∈ xs, check a = .ok ()) : xs.forM check = .ok () := by
  induction xs with
  | nil => rfl
  | cons a xs ih =>
    rw [List.forM, h a List.mem_cons_self]
    exact ih fun b hb => h b (List.mem_cons_of_mem a hb)

/-- **A range on one side of the cursor can be moved there.** -/
theorem moveAfter_eq {l : Listing} {xs ys range : List Entry} {span : Span}
    (h : l.Represents (xs ++ ys)) (hs : span.Covers (range.map Entry.id))
    (hapart : Apart xs ys range) :
    moveAfter l span ((xs.map Entry.id).getLastD 0) =
      .ok (l.moveAfter span ((xs.map Entry.id).getLastD 0)) := by
  have hin : range <:+: xs ++ ys := hapart.side.elim
    (fun hx => hx.trans (List.prefix_append xs ys).isInfix)
    (fun hy => hy.trans (List.suffix_append xs ys).isInfix)
  have hids : range.map Entry.id <:+: (xs ++ ys).map Entry.id := hin.map Entry.id
  have hzero : 0 ∉ range.map Entry.id := fun hmem => h.zero_notMem (hids.subset hmem)
  have hrun : l.runTo? span.last l.size span.first = some (range.map Entry.id) := by
    refine Listing.runTo?_eq ?_ hs.1 hs.2 (h.nodup.sublist hids.sublist) hzero ?_
    · exact h.linked.infix (hids.trans ⟨[0], [0], rfl⟩)
    · rw [← h.length_eq, List.length_map]
      exact hin.length_le
  have hends : span.first ≠ 0 ∧ span.last ≠ 0 :=
    ⟨fun hid => hzero (hid ▸ List.mem_of_head? hs.1),
      fun hid => hzero (hid ▸ List.mem_of_getLast? hs.2)⟩
  have hknown : ∀ id ∈ (xs.map Entry.id).getLastD 0 :: range.map Entry.id,
      require (id < l.nodes.size) (.unknownId id) = .ok () := by
    intro id hid
    refine require_eq (decide_eq_true ?_)
    rcases List.mem_cons.mp hid with rfl | hid
    · exact h.cursor_lt
    · exact ((h.mem_iff id).mp (hids.subset hid)).2
  unfold moveAfter
  rw [require_eq (decide_eq_true hends), hrun]
  show (do
    require ((xs.map Entry.id).getLastD 0 ∉ range.map Entry.id) (.targetInRun span _)
    _ : Except Violation Listing) = _
  rw [require_eq (decide_eq_true (h.cursor_notMem hin hapart)), forM_eq hknown]
  rfl

example :
    let l := ((Listing.empty.append .exitBlock).append .exitBlock).append .exitBlock
    moveAfter l ⟨2, 1⟩ 3 = .error (.brokenRun ⟨2, 1⟩) ∧
      moveAfter l ⟨1, 2⟩ 1 = .error (.targetInRun ⟨1, 2⟩ 1) := ⟨rfl, rfl⟩

/-- **Ranges can be moved one by one**, each behind the one before it, wherever they stand. -/
theorem relocate_eq {records : List Record} {ranges : Nat → List Entry} {order : List Nat}
    {l : Listing} {xs ys : List Entry} (h : l.Represents (xs ++ ys))
    (hrec : ∀ i ∈ order, ∃ record, records[i]? = some record ∧ record.Holds (ranges i))
    (hapart : ∀ i ∈ order, Apart xs ys (ranges i))
    (hdisjoint : order.Pairwise fun i j => (ranges i).Disjoint (ranges j)) :
    relocate records l ((xs.map Entry.id).getLastD 0) order =
      .ok (l.relocate ((xs.map Entry.id).getLastD 0) records order) := by
  -- each move changes what stands on the two sides of the cursor, and the ranges that are left
  -- keep apart from it
  induction order generalizing l xs ys with
  | nil => rfl
  | cons i order ih =>
    obtain ⟨hd, hdisjoint⟩ := List.pairwise_cons.mp hdisjoint
    obtain ⟨record, hi, hholds⟩ := hrec i List.mem_cons_self
    have hrec' : ∀ j ∈ order, ∃ record, records[j]? = some record ∧ record.Holds (ranges j) :=
      fun j hj => hrec j (List.mem_cons_of_mem i hj)
    have hin : inOrder records (i :: order) = record :: inOrder records order := by
      simp [inOrder, hi]
    rw [relocate, lookUp_of_getElem? hi, Listing.relocate, hin, plannedMoves]
    unfold Record.Holds at hholds
    show (match record.ops with
      | none => relocate records l ((xs.map Entry.id).getLastD 0) order
      | some span => do
        relocate records (← moveAfter l span ((xs.map Entry.id).getLastD 0)) span.last order) = _
    cases hops : record.ops with
    | none =>
      exact ih h hrec' (fun j hj => hapart j (List.mem_cons_of_mem i hj)) hdisjoint
    | some span =>
      rw [hops] at hholds
      have hne : ranges i ≠ [] := Span.Covers.ne_nil hholds
      have hmove := moveAfter_eq h hholds (hapart i List.mem_cons_self)
      have hmoved := h.moveAfter_apart hholds (hapart i List.mem_cons_self)
      have hlast : ((xs.filter (· ∉ ranges i) ++ ranges i).map Entry.id).getLastD 0 =
          span.last := Span.Covers.getLastD_append hholds _
      have hrest := ih hmoved hrec'
        (fun j hj => (hapart j (List.mem_cons_of_mem i hj)).step hne (hd j hj)) hdisjoint
      rw [hlast] at hrest
      simp only [hmove]
      exact hrest

/-- **All ranges of a packet can be moved** behind its anchor. -/
theorem relocate_eq_of_perm {l : Listing} {records : List Record} {ranges : List (List Entry)}
    {front : List Entry} {order : List Nat} (h : l.Represents (front ++ ranges.flatten))
    (hrec : List.Forall₂ Record.Holds records ranges)
    (hperm : order.Perm (List.range records.length)) :
    relocate records l ((front.map Entry.id).getLastD 0) order =
      .ok (l.relocate ((front.map Entry.id).getLastD 0) records order) := by
  have hall : (front ++ ranges.flatten).Nodup := List.Nodup.of_map _ h.nodup
  have hflat := List.nodup_flatten.mp (List.nodup_append'.mp hall).2.1
  have hvalid : ∀ i ∈ order, i < records.length := fun i hi =>
    List.mem_range.mp (hperm.mem_iff.mp hi)
  have hnd : order.Nodup := hperm.nodup_iff.mpr List.nodup_range
  refine relocate_eq h (Listing.exists_holds hrec hvalid) (fun i hi => ?_)
    (Listing.pairwise_disjoint_getD hflat.2 hnd)
  have hlt : i < ranges.length := hrec.length_eq ▸ hvalid i hi
  have hin : ranges.getD i [] <:+: ranges.flatten := by
    rw [List.getD_eq_getElem?_getD, List.getElem?_eq_getElem hlt, Option.getD_some]
    exact List.infix_of_mem_flatten (List.getElem_mem hlt)
  exact .of_behind hall hin

/-! ## The whole -/

/-- **What is primed can be moved** behind the anchor. -/
theorem primeConditional_eq {l : Listing} {front rest : List Entry}
    (h : l.Represents (front ++ rest)) (conditional : RegisterSet) :
    primeConditional conditional ((front.map Entry.id).getLastD 0) l =
      .ok ((PacketLift.primeConditional conditional ((front.map Entry.id).getLastD 0)).run l) := by
  let copies : Emit Unit := (conditional.erase .pc).toList.forM fun r =>
    emit (.copy (Global.staged r) (Global.live r))
  let ops := primeOps (conditional.erase .pc)
  have hcopies : copies.run l = ((), l.extend ops []) :=
    Emits.forM _ _ (fun r => .copy (Global.staged r) (Global.live r)) l.tempCount
      (fun r _ => Emits.emit _ _) l rfl
  have hrun : (PacketLift.primeConditional conditional ((front.map Entry.id).getLastD 0)).run l =
      (conditional.erase .pc, ((copies.run l).2.spanSince l.lastId).elim (copies.run l).2
        ((copies.run l).2.moveAfter · ((front.map Entry.id).getLastD 0))) := rfl
  have hchecked : primeConditional conditional ((front.map Entry.id).getLastD 0) l =
      match (copies.run l).2.spanSince l.lastId with
      | none => .ok (conditional.erase .pc, (copies.run l).2)
      | some span => do
        return (conditional.erase .pc,
          ← moveAfter (copies.run l).2 span ((front.map Entry.id).getLastD 0)) := rfl
  rw [hrun, hchecked, hcopies]
  by_cases hne : ops = []
  · rw [hne, Listing.spanSince_extend_nil]
    rfl
  · obtain ⟨span, hspan, hcovers⟩ := h.spanSince_extend hne []
    have hextended : (l.extend ops []).Represents
        (front ++ (rest ++ Listing.numbered l.nodes.size ops)) := by
      rw [← List.append_assoc]
      exact h.extend ops []
    have hapart : Apart front (rest ++ Listing.numbered l.nodes.size ops)
        (Listing.numbered l.nodes.size ops) :=
      .of_behind (List.Nodup.of_map _ hextended.nodup) (List.suffix_append _ _).isInfix
    rw [hspan]
    simp only [moveAfter_eq hextended hcovers hapart]
    rfl

section Closing

variable {roster : Roster} {site : PacketSite} {l : Listing} {front : List Entry}
  {ranges : List (List Entry)}

theorem closeInOrder_eq {order : List Nat} (h : l.Represents (front ++ ranges.flatten))
    (hrec : List.Forall₂ Record.Holds roster.records ranges)
    (hanchor : site.anchor = (front.map Entry.id).getLastD 0)
    (htargets : roster.TargetsWritten)
    (horder : PacketLift.schedule (roster.records.map (·.footprint)) roster.writes site.packetPc =
      .ok order) :
    ∃ closed, closeInOrder roster site l order = .ok closed ∧
      PacketLift.closePacket roster site l = .ok closed := by
  have hperm : order.Perm (List.range roster.records.length) := by
    simpa using schedule_perm horder
  let ordered := if isReordered order then l.relocate site.anchor roster.records order else l
  have hrelocate : (if isReordered order then relocate roster.records l site.anchor order
      else pure l) = .ok ordered := by
    rw [hanchor, relocate_eq_of_perm h hrec hperm, ← hanchor]
    exact (apply_ite Except.ok _ _ _).symm
  have hwritten : roster.targets.forM (requireWritten roster.writes) = .ok () := by
    refine forM_eq fun target htarget => ?_
    cases target with
    | none => rfl
    | some r => exact require_eq (htargets r htarget)
  have hordered : ordered.Represents (front ++ order.flatMap (ranges.getD · [])) := by
    have hrep := h.ordered hrec hperm
    rwa [← hanchor] at hrep
  let changesPc := roster.writes.contains .pc || site.loopEnd.isSome
  let epilogue := (emitEpilogue roster.writes site changesPc).run ordered
  obtain ⟨ops, locals, hepilogue⟩ : ∃ ops locals, epilogue.2 = ordered.extend ops locals :=
    ⟨_, _, congrArg Prod.snd
      (emits_emitEpilogue roster.writes site changesPc ordered.tempCount ordered rfl)⟩
  have hbehind : epilogue.2.Represents (front ++ (order.flatMap (ranges.getD · []) ++
      Listing.numbered ordered.nodes.size ops)) := by
    rw [hepilogue, ← List.append_assoc]
    exact hordered.extend ops locals
  have hprime := primeConditional_eq hbehind roster.conditional
  rw [← hanchor] at hprime
  let prime := (PacketLift.primeConditional roster.conditional site.anchor).run epilogue.2
  refine ⟨({ order, changesPc, committed := epilogue.1, primed := prime.1 }, prime.2), ?_, ?_⟩
  · calc closeInOrder roster site l order
        = primeConditional roster.conditional site.anchor epilogue.2 >>= fun prime =>
            pure ({ order, changesPc, committed := epilogue.1, primed := prime.1 }, prime.2) := by
          rw [closeInOrder, hrelocate, hwritten]
          rfl
      _ = .ok ({ order, changesPc, committed := epilogue.1, primed := prime.1 }, prime.2) := by
          rw [hprime]
          rfl
  · rw [PacketLift.closePacket, horder]
    rfl

/-- **Closing a packet violates nothing**, when its records hold the ranges behind the anchor and
all their targets are written. -/
theorem closePacket_eq (h : l.Represents (front ++ ranges.flatten))
    (hrec : List.Forall₂ Record.Holds roster.records ranges)
    (hanchor : site.anchor = (front.map Entry.id).getLastD 0)
    (htargets : roster.TargetsWritten) :
    closePacket roster site l = .ok (PacketLift.closePacket roster site l) := by
  rw [closePacket, schedule_eq]
  cases horder :
      PacketLift.schedule (roster.records.map (·.footprint)) roster.writes site.packetPc with
  | error fault =>
    rw [PacketLift.closePacket, horder]
    rfl
  | ok order =>
    obtain ⟨closed, hchecked, hclosed⟩ := closeInOrder_eq h hrec hanchor htargets horder
    show (closeInOrder roster site l order >>= fun closed => pure (Except.ok closed)) = _
    rw [hchecked, hclosed]
    rfl

-- a roster with a target that no record writes
example : (closePacket { targets := [none, some .pc] } ⟨0, 0, 0, none⟩ .empty).map (fun _ => ()) =
    .error (.targetNotWritten .pc) := by decide +kernel

end Closing

end Checked

end PacketLift
