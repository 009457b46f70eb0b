import PacketLift.Packet.Relocation
import PacketLift.Proofs.Listing.Ring

/-!
# Moving the operations of records

Each record of a packet has its operations as one run of a listing. Moving some of the runs cuts
them out and puts them one behind the other behind an anchor. Each move changes the neighbours of
the runs that are still to be moved, and it may take operations from both sides of the cursor. So
the induction is on the order, and it keeps two facts about each run that is left: the run lies on
one side of the cursor, and it does not have the operation in front of the cursor.

## Main definitions

* `Record.Holds record range`: the record's span covers the range
* `Apart xs ys range`: a range on one side of a cursor

## Main results

* `Represents.moveAfter_apart`: one range cut out on its side of the cursor and put there
* `Represents.applyMoves`: ranges moved one by one
* `Represents.applyMoves_eq_self`: ranges that are in place already stay
* `Represents.relocate_apart`: any ranges put behind an anchor
* `Represents.relocate`: all ranges of a packet in a new order
-/

namespace PacketLift

/-! ## Ranges on one side of a cursor -/

section Apart

variable {α : Type} {xs ys range range' : List α}

/-- A range lies on one side of the cursor between `xs` and `ys`, and the cursor can stay where it
is when the range is cut out. -/
structure Apart (xs ys range : List α) : Prop where
  side : range <:+: xs ∨ range <:+: ys
  cursor : ∀ a ∈ xs.getLast?, a ∉ range

/-- A run that does not have the element in front of the cursor does not go across it. -/
theorem Apart.of_isInfix (h : range <:+: xs ++ ys) (hcursor : ∀ a ∈ xs.getLast?, a ∉ range) :
    Apart xs ys range := by
  refine ⟨?_, hcursor⟩
  obtain ⟨pre, post, heq⟩ := h
  rcases List.append_eq_append_iff.mp heq with ⟨zs, hxs, -⟩ | ⟨zs, hcut, hys⟩
  · exact Or.inl ⟨pre, zs, hxs.symm⟩
  · rcases List.append_eq_append_iff.mp hcut with ⟨ws, hxs, hrange⟩ | ⟨ws, -, hzs⟩
    · rcases List.eq_nil_or_concat ws with rfl | ⟨init, a, rfl⟩
      · exact Or.inr ⟨[], post, by rw [hys, hrange]; rfl⟩
      · have hlast : xs.getLast? = some a := by simp [hxs]
        exact absurd (by simp [hrange]) (hcursor a hlast)
    · exact Or.inr ⟨ws, post, by rw [hys, hzs]⟩

/-- A run behind the cursor does not have the element in front of it. -/
theorem Apart.of_behind (hnd : (xs ++ ys).Nodup) (h : range <:+: ys) : Apart xs ys range :=
  ⟨.inr h, fun _ ha hmem =>
    (List.nodup_append'.mp hnd).2.2 (List.mem_of_getLast? ha) (h.subset hmem)⟩

variable [DecidableEq α]

/-- The cut leaves a range in place that has nothing in common with what is cut out. -/
theorem filter_notMem_of_disjoint (h : range.Disjoint range') :
    range.filter (· ∉ range') = range :=
  List.filter_eq_self.mpr fun _ ha => decide_eq_true fun hr => h ha hr

/-- Cutting other elements out keeps a range as it is. -/
theorem infix_filter_of_disjoint (h : range' <:+: xs) (hd : range.Disjoint range') :
    range' <:+: xs.filter (· ∉ range) := by
  obtain ⟨pre, post, rfl⟩ := h
  rw [List.filter_append, List.filter_append, filter_notMem_of_disjoint (List.disjoint_symm hd)]
  exact ⟨_, _, rfl⟩

/-- A range cut out of a list without repetition. -/
theorem filter_notMem_of_nodup {pre post : List α} (h : (pre ++ range ++ post).Nodup) :
    (pre ++ range ++ post).filter (· ∉ range) = pre ++ post := by
  obtain ⟨hfront, -, hpost⟩ := List.nodup_append'.mp h
  obtain ⟨-, -, hpre⟩ := List.nodup_append'.mp hfront
  have hpost' := List.disjoint_of_disjoint_append_left_right hpost
  have hrange : range.filter (· ∉ range) = [] := by simp
  rw [List.filter_append, List.filter_append, filter_notMem_of_disjoint hpre, hrange,
    filter_notMem_of_disjoint (List.disjoint_symm hpost'), List.append_nil]

/-- **A range that is left** stays on one side when another one is cut out and put in front of the
cursor. -/
theorem Apart.step (h : Apart xs ys range') (hne : range ≠ []) (hd : range.Disjoint range') :
    Apart (xs.filter (· ∉ range) ++ range) (ys.filter (· ∉ range)) range' where
  side := by
    rcases h.side with hx | hy
    · exact Or.inl ((infix_filter_of_disjoint hx hd).trans (List.prefix_append _ _).isInfix)
    · exact Or.inr (infix_filter_of_disjoint hy hd)
  cursor := by
    intro a ha
    rw [List.getLast?_append_of_ne_nil _ hne] at ha
    exact hd (List.mem_of_getLast? ha)

/-- Two cuts are one. -/
theorem filter_filter_notMem (xs range range' : List α) :
    (xs.filter (· ∉ range)).filter (· ∉ range') = xs.filter (· ∉ range ++ range') := by
  rw [List.filter_filter]
  congr 1
  funext a
  rw [← Bool.decide_and, decide_eq_decide, List.mem_append, not_or, and_comm]

end Apart

/-- The span of a record covers a range of entries, and a record without operations has an empty
range. -/
def Record.Holds (record : Record) (range : List Entry) : Prop :=
  match record.ops with
  | none => range = []
  | some span => span.Covers (range.map Entry.id)

namespace Span.Covers

variable {span : Span} {range : List Entry}

theorem ne_nil (hs : span.Covers (range.map Entry.id)) : range ≠ [] := by
  rintro rfl
  cases hs.1

/-- The last identity of entries that end with a range. -/
theorem getLastD_append (hs : span.Covers (range.map Entry.id)) (xs : List Entry) :
    ((xs ++ range).map Entry.id).getLastD 0 = span.last := by
  rw [List.map_append, List.getLastD_eq_getLast?, List.getLast?_append, hs.2]
  rfl

end Span.Covers

namespace Listing

/-- **One range moved**: cut out on its side of the cursor and put there. -/
theorem Represents.moveAfter_apart {l : Listing} {xs ys range : List Entry} {span : Span}
    (h : l.Represents (xs ++ ys)) (hs : span.Covers (range.map Entry.id))
    (hapart : Apart xs ys range) :
    (l.moveAfter span ((xs.map Entry.id).getLastD 0)).Represents
      (xs.filter (· ∉ range) ++ range ++ ys.filter (· ∉ range)) := by
  have hnd : (xs ++ ys).Nodup := List.Nodup.of_map _ h.nodup
  obtain ⟨hndx, hndy, hxy⟩ := List.nodup_append'.mp hnd
  rcases hapart.side with ⟨pre, post, rfl⟩ | ⟨pre, post, rfl⟩
  · have hlast : ((pre ++ range ++ post).map Entry.id).getLastD 0 =
        ((pre ++ post).map Entry.id).getLastD 0 := by
      rcases List.eq_nil_or_concat post with rfl | ⟨init, e, rfl⟩
      · exfalso
        have hne := hs.ne_nil
        have hcursor := hapart.cursor (range.getLast hne)
        rw [List.append_nil, List.getLast?_append_of_ne_nil _ hne] at hcursor
        exact hcursor (List.getLast?_eq_some_getLast hne) (List.getLast_mem hne)
      · simp
    have hd : ys.Disjoint range := fun e he hr => hxy (by simp [hr]) he
    rw [List.append_assoc] at h
    rw [hlast, filter_notMem_of_nodup hndx, filter_notMem_of_disjoint hd]
    exact h.moveAfter hs (List.append_assoc pre post ys).symm
  · have hd : xs.Disjoint range := fun e he hr => hxy he (by simp [hr])
    rw [← List.append_assoc, ← List.append_assoc] at h
    rw [filter_notMem_of_nodup hndy, filter_notMem_of_disjoint hd]
    exact h.moveAfter hs (List.append_assoc xs pre post)

/-- **The ranges are moved one by one**, each behind the one before it, wherever they stand. -/
theorem Represents.applyMoves {records : List Record} {ranges : Nat → List Entry}
    {order : List Nat} {l : Listing} {xs ys : List Entry} (h : l.Represents (xs ++ ys))
    (hrec : ∀ i ∈ order, ∃ record, records[i]? = some record ∧ record.Holds (ranges i))
    (hapart : ∀ i ∈ order, Apart xs ys (ranges i))
    (hdisjoint : order.Pairwise fun i j => (ranges i).Disjoint (ranges j)) :
    (l.applyMoves (plannedMoves ((xs.map Entry.id).getLastD 0)
      (inOrder records order))).Represents (xs.filter (· ∉ order.flatMap ranges) ++
        order.flatMap ranges ++ ys.filter (· ∉ order.flatMap ranges)) := by
  induction order generalizing l xs ys with
  | nil => simpa [inOrder, plannedMoves, Listing.applyMoves] using h
  | cons i order ih =>
    obtain ⟨hd, hdisjoint⟩ := List.pairwise_cons.mp hdisjoint
    obtain ⟨record, hi, hholds⟩ := hrec i List.mem_cons_self
    have hrec' : ∀ j ∈ order, ∃ record, records[j]? = some record ∧ record.Holds (ranges j) :=
      fun j hj => hrec j (List.mem_cons_of_mem i hj)
    have hin : inOrder records (i :: order) = record :: inOrder records order := by
      simp [inOrder, hi]
    rw [hin]
    unfold Record.Holds at hholds
    cases hops : record.ops with
    | none =>
      rw [hops] at hholds
      have hstill := ih h hrec' (fun j hj => hapart j (List.mem_cons_of_mem i hj)) hdisjoint
      simpa [plannedMoves, hops, hholds] using hstill
    | some span =>
      rw [hops] at hholds
      have hne : ranges i ≠ [] := Span.Covers.ne_nil hholds
      have hmoved := h.moveAfter_apart hholds (hapart i List.mem_cons_self)
      have hapart' : ∀ j ∈ order, Apart (xs.filter (· ∉ ranges i) ++ ranges i)
          (ys.filter (· ∉ ranges i)) (ranges j) :=
        fun j hj => (hapart j (List.mem_cons_of_mem i hj)).step hne (hd j hj)
      have hlast : ((xs.filter (· ∉ ranges i) ++ ranges i).map Entry.id).getLastD 0 =
          span.last := Span.Covers.getLastD_append hholds _
      have hnext := ih hmoved hrec' hapart' hdisjoint
      have hrest : (ranges i).Disjoint (order.flatMap ranges) := by
        intro e he hmem
        obtain ⟨j, hj, hej⟩ := List.mem_flatMap.mp hmem
        exact hd j hj he hej
      rw [hlast, List.filter_append, filter_filter_notMem, filter_filter_notMem,
        filter_notMem_of_disjoint hrest, List.append_assoc _ (ranges i)] at hnext
      rw [List.flatMap_cons]
      simpa only [plannedMoves, hops, Listing.applyMoves, List.foldl_cons] using hnext

/-- **Ranges that follow the cursor in their order** stay, and the listing is the same one. -/
theorem Represents.applyMoves_eq_self {records : List Record} {ranges : Nat → List Entry}
    {order : List Nat} {l : Listing} {xs ys : List Entry}
    (h : l.Represents (xs ++ order.flatMap ranges ++ ys))
    (hrec : ∀ i ∈ order, ∃ record, records[i]? = some record ∧ record.Holds (ranges i)) :
    l.applyMoves (plannedMoves ((xs.map Entry.id).getLastD 0) (inOrder records order)) = l := by
  induction order generalizing xs with
  | nil => rfl
  | cons i order ih =>
    obtain ⟨record, hi, hholds⟩ := hrec i List.mem_cons_self
    have hrec' : ∀ j ∈ order, ∃ record, records[j]? = some record ∧ record.Holds (ranges j) :=
      fun j hj => hrec j (List.mem_cons_of_mem i hj)
    have hin : inOrder records (i :: order) = record :: inOrder records order := by
      simp [inOrder, hi]
    rw [hin]
    rw [List.flatMap_cons, ← List.append_assoc] at h
    have hnext := ih h hrec'
    unfold Record.Holds at hholds
    cases hops : record.ops with
    | none =>
      rw [hops] at hholds
      rw [hholds, List.append_nil] at hnext
      simpa only [plannedMoves, hops] using hnext
    | some span =>
      rw [hops] at hholds
      have hlast : ((xs ++ ranges i).map Entry.id).getLastD 0 = span.last :=
        Span.Covers.getLastD_append hholds xs
      have hprev : l.prev span.first = (xs.map Entry.id).getLastD 0 := by
        rw [List.append_assoc, List.append_assoc] at h
        have hlink := h.neighbours.2
        rwa [List.map_append, List.headD_eq_head?_getD, List.head?_append, hholds.1] at hlink
      have hstays : l.moveAfter span ((xs.map Entry.id).getLastD 0) = l := if_pos hprev
      rw [hlast] at hnext
      simpa only [plannedMoves, hops, Listing.applyMoves, List.foldl_cons, hstays] using hnext

@[simp] theorem temps_applyMoves (l : Listing) (moves : List Move) :
    (l.applyMoves moves).temps = l.temps := by
  induction moves generalizing l with
  | nil => rfl
  | cons m moves ih => exact (ih _).trans (temps_moveAfter l m.span m.after)

@[simp] theorem temps_relocate (l : Listing) (anchor : OpId) (records : List Record)
    (order : List Nat) : (l.relocate anchor records order).temps = l.temps :=
  temps_applyMoves l _

/-- The ranges in program order are all ranges. -/
theorem range_flatMap_getD {α : Type} (ranges : List (List α)) :
    (List.range ranges.length).flatMap (ranges.getD · []) = ranges.flatten := by
  have hmap : (List.range ranges.length).map (ranges.getD · []) = ranges := by
    refine List.ext_getElem (by simp) fun i hi hi' => ?_
    simp [List.getElem?_eq_getElem hi']
  rw [List.flatMap_def, hmap]

/-- The records at the places of an order hold their ranges. -/
theorem exists_holds {records : List Record} {ranges : List (List Entry)}
    (hrec : List.Forall₂ Record.Holds records ranges) {order : List Nat}
    (hvalid : ∀ i ∈ order, i < records.length) :
    ∀ i ∈ order, ∃ record, records[i]? = some record ∧ record.Holds (ranges.getD i []) := by
  intro i hi
  have hlt := hvalid i hi
  have hlt' : i < ranges.length := hrec.length_eq ▸ hlt
  refine ⟨records[i], List.getElem?_eq_getElem hlt, ?_⟩
  rw [List.getD_eq_getElem?_getD, List.getElem?_eq_getElem hlt', Option.getD_some]
  exact hrec.get hlt hlt'

theorem exists_mem_of_mem_getD {α : Type} {ranges : List (List α)} {a : α} {i : Nat}
    (h : a ∈ ranges.getD i []) :
    ∃ range ∈ ranges, a ∈ range := by
  rw [List.getD_eq_getElem?_getD] at h
  cases hi : ranges[i]? with
  | none => simp [hi] at h
  | some range => exact ⟨range, List.mem_of_getElem? hi, by simpa [hi] using h⟩

/-- Ranges that are disjoint stay so in any order without repetition. -/
theorem pairwise_disjoint_getD {α : Type} {ranges : List (List α)}
    (h : ranges.Pairwise List.Disjoint) {order : List Nat} (hnd : order.Nodup) :
    order.Pairwise fun i j => (ranges.getD i []).Disjoint (ranges.getD j []) := by
  refine hnd.imp fun {i j} hne => ?_
  rw [List.getD_eq_getElem?_getD, List.getD_eq_getElem?_getD]
  cases hi : ranges[i]? with
  | none => exact List.disjoint_nil_left _
  | some r =>
    cases hj : ranges[j]? with
    | none => exact List.disjoint_nil_right _
    | some r' =>
      obtain ⟨hi', rfl⟩ := List.getElem?_eq_some_iff.mp hi
      obtain ⟨hj', rfl⟩ := List.getElem?_eq_some_iff.mp hj
      rcases Nat.lt_or_gt_of_ne hne with hlt | hgt
      · exact List.pairwise_iff_getElem.mp h i j hi' hj' hlt
      · exact List.disjoint_symm (List.pairwise_iff_getElem.mp h j i hj' hi' hgt)

/-- **Ranges moved behind an anchor**: what is cut out on both sides of it stands there in the given
order. -/
theorem Represents.relocate_apart {l : Listing} {records : List Record}
    {ranges : List (List Entry)} {xs ys : List Entry} {order : List Nat}
    (h : l.Represents (xs ++ ys)) (hrec : List.Forall₂ Record.Holds records ranges)
    (hapart : ∀ range ∈ ranges, Apart xs ys range) (hdisjoint : ranges.Pairwise List.Disjoint)
    (hnd : order.Nodup) (hvalid : ∀ i ∈ order, i < records.length) :
    (l.relocate ((xs.map Entry.id).getLastD 0) records order).Represents
      (xs.filter (· ∉ order.flatMap (ranges.getD · [])) ++ order.flatMap (ranges.getD · []) ++
        ys.filter (· ∉ order.flatMap (ranges.getD · []))) := by
  refine h.applyMoves (exists_holds hrec hvalid) (fun i hi => ?_)
    (pairwise_disjoint_getD hdisjoint hnd)
  have hlt : i < ranges.length := hrec.length_eq ▸ hvalid i hi
  refine hapart _ ?_
  rw [List.getD_eq_getElem?_getD, List.getElem?_eq_getElem hlt, Option.getD_some]
  exact List.getElem_mem hlt

/-- **All ranges of a packet in a new order**, behind its anchor. -/
theorem Represents.relocate {l : Listing} {records : List Record} {ranges : List (List Entry)}
    {front back : List Entry} {order : List Nat}
    (h : l.Represents (front ++ ranges.flatten ++ back))
    (hrec : List.Forall₂ Record.Holds records ranges)
    (hperm : order.Perm (List.range records.length)) :
    (l.relocate ((front.map Entry.id).getLastD 0) records order).Represents
      (front ++ order.flatMap (ranges.getD · []) ++ back) := by
  rw [List.append_assoc] at h
  have hnd : (front ++ (ranges.flatten ++ back)).Nodup := List.Nodup.of_map _ h.nodup
  obtain ⟨-, hnd', hfront⟩ := List.nodup_append'.mp hnd
  obtain ⟨hflat, -, hback⟩ := List.nodup_append'.mp hnd'
  have hmoved : (order.flatMap (ranges.getD · [])).Perm ranges.flatten := by
    rw [← range_flatMap_getD, ← hrec.length_eq]
    exact hperm.flatMap_right _
  have hapart : ∀ range ∈ ranges, Apart front (ranges.flatten ++ back) range := by
    intro range hrange
    have hin : range <:+: ranges.flatten := List.infix_of_mem_flatten hrange
    exact .of_behind hnd (hin.trans (List.prefix_append _ _).isInfix)
  have hkept : front.Disjoint (order.flatMap (ranges.getD · [])) := fun e he hr =>
    hfront he (List.mem_append_left back (hmoved.mem_iff.mp hr))
  have hkept' : back.Disjoint (order.flatMap (ranges.getD · [])) := fun e he hr =>
    hback (hmoved.mem_iff.mp hr) he
  have hcut : ranges.flatten.filter (· ∉ order.flatMap (ranges.getD · [])) = [] :=
    List.filter_eq_nil_iff.mpr fun e he hr => of_decide_eq_true hr (hmoved.mem_iff.mpr he)
  have hall := h.relocate_apart hrec hapart (List.nodup_flatten.mp hflat).2
    (hperm.nodup_iff.mpr List.nodup_range) fun i hi => List.mem_range.mp (hperm.mem_iff.mp hi)
  rwa [List.filter_append, filter_notMem_of_disjoint hkept, filter_notMem_of_disjoint hkept', hcut,
    List.nil_append] at hall

end Listing

end PacketLift
