import Mathlib.Data.List.Chain
import Mathlib.Data.List.Nodup
import PacketLift.MicroOp.Listing

/-!
# Links of a listing

Every identity of a listing names the one behind it and the one in front of it. This module says
what each operation does to the single links, and follows a run that is taken out of a chain of
linked identities and put back into another place.

A ring is written as a list with the head at both ends, `0 :: ids ++ [0]`. No identity comes twice
among the sources of its links, `0 :: ids`, nor among their targets, `ids ++ [0]`. A link that is
changed therefore belongs to exactly one pair of neighbours, whichever of the identities involved
coincide with each other or with the head.

## Main definitions

* `Span.Covers span run`: the span names the first and the last identity of the run
* `Listing.Linked l xs`: neighbours in `xs` are linked to each other

## Main results

* `Linked.congr`: which links a chain depends on
* `Linked.unlink`, `Linked.relink`: a run is taken out of a ring and put into one
-/

namespace PacketLift

/-- A span covers a run when it names the run's first and last identity. -/
def Span.Covers (span : Span) (run : List OpId) : Prop :=
  run.head? = some span.first ∧ run.getLast? = some span.last

/-- The first identity of a run comes once in it, and so does the last. -/
theorem Span.Covers.not_mem {span : Span} {run : List OpId} (hs : span.Covers run)
    (hnd : run.Nodup) : span.first ∉ run.tail ∧ span.last ∉ run.dropLast := by
  obtain ⟨rest, rfl⟩ := List.head?_eq_some_iff.mp hs.1
  refine ⟨(List.nodup_cons.mp hnd).1, fun hmem => ?_⟩
  obtain ⟨init, hinit⟩ := List.getLast?_eq_some_iff.mp hs.2
  rw [hinit, List.dropLast_concat] at hmem
  rw [hinit] at hnd
  exact (List.nodup_append.mp hnd).2.2 _ hmem _ (by simp) rfl

namespace Listing

/-! ## Single links -/

section Links

variable (l : Listing) (i j v : OpId)

@[simp] theorem size_nodes_setNext : (l.setNext i v).nodes.size = l.nodes.size := by
  simp [setNext]

@[simp] theorem size_nodes_setPrev : (l.setPrev i v).nodes.size = l.nodes.size := by
  simp [setPrev]

theorem node_setNext :
    (l.setNext i v).node j =
      if j = i ∧ i < l.nodes.size then { l.node i with next := v } else l.node j := by
  simp only [setNext, node, Array.getD_eq_getD_getElem?, Array.getElem?_setIfInBounds]
  by_cases hij : i = j <;> by_cases hi : i < l.nodes.size <;> grind

theorem node_setPrev :
    (l.setPrev i v).node j =
      if j = i ∧ i < l.nodes.size then { l.node i with prev := v } else l.node j := by
  simp only [setPrev, node, Array.getD_eq_getD_getElem?, Array.getElem?_setIfInBounds]
  by_cases hij : i = j <;> by_cases hi : i < l.nodes.size <;> grind

theorem next_setNext :
    (l.setNext i v).next j = if j = i ∧ i < l.nodes.size then v else l.next j := by
  unfold next
  rw [node_setNext]
  split_ifs <;> rfl

theorem prev_setPrev :
    (l.setPrev i v).prev j = if j = i ∧ i < l.nodes.size then v else l.prev j := by
  unfold prev
  rw [node_setPrev]
  split_ifs <;> rfl

@[simp] theorem prev_setNext : (l.setNext i v).prev j = l.prev j := by
  unfold prev
  rw [node_setNext]
  split_ifs with h
  · rw [h.1]
  · rfl

@[simp] theorem next_setPrev : (l.setPrev i v).next j = l.next j := by
  unfold next
  rw [node_setPrev]
  split_ifs with h
  · rw [h.1]
  · rfl

@[simp] theorem get?_setNext : (l.setNext i v).get? j = l.get? j := by
  simp only [get?, setNext, node, Array.getElem?_setIfInBounds, Array.getD_eq_getD_getElem?]
  by_cases hij : i = j <;> by_cases hi : i < l.nodes.size <;> grind

@[simp] theorem get?_setPrev : (l.setPrev i v).get? j = l.get? j := by
  simp only [get?, setPrev, node, Array.getElem?_setIfInBounds, Array.getD_eq_getD_getElem?]
  by_cases hij : i = j <;> by_cases hi : i < l.nodes.size <;> grind

@[simp] theorem temps_setNext : (l.setNext i v).temps = l.temps := rfl

@[simp] theorem temps_setPrev : (l.setPrev i v).temps = l.temps := rfl

end Links

/-! ## What the operations leave alone -/

section Frame

variable (l : Listing) (span : Span) (op : MicroOp) (after id : OpId)

@[simp] theorem size_nodes_unlink : (l.unlink span).nodes.size = l.nodes.size := by
  simp [unlink]

@[simp] theorem size_nodes_relink : (l.relink span after).nodes.size = l.nodes.size := by
  simp [relink]

@[simp] theorem size_nodes_moveAfter : (l.moveAfter span after).nodes.size = l.nodes.size := by
  unfold moveAfter
  split_ifs <;> simp

@[simp] theorem get?_moveAfter : (l.moveAfter span after).get? id = l.get? id := by
  unfold moveAfter
  split_ifs <;> simp [unlink, relink]

@[simp] theorem temps_moveAfter : (l.moveAfter span after).temps = l.temps := by
  unfold moveAfter
  split_ifs <;> simp [unlink, relink]

@[simp] theorem size_nodes_append : (l.append op).nodes.size = l.nodes.size + 1 := by
  simp [append]

@[simp] theorem temps_append : (l.append op).temps = l.temps := rfl

theorem get?_append :
    (l.append op).get? id = if id = l.nodes.size then some op else l.get? id := by
  rw [append, get?_setPrev, get?_setNext, get?, Array.getElem?_push]
  split_ifs <;> rfl

theorem next_append : (l.append op).next id =
    if id = l.lastId ∧ id ≤ l.nodes.size then l.nodes.size
    else if id = l.nodes.size then 0 else l.next id := by
  simp only [append, next_setPrev, next_setNext, Array.size_push]
  simp only [next, node, Array.getD_eq_getD_getElem?, Array.getElem?_push]
  grind

theorem prev_append : (l.append op).prev id =
    if id = 0 then l.nodes.size else if id = l.nodes.size then l.lastId else l.prev id := by
  simp only [append, prev_setPrev, prev_setNext, size_nodes_setNext, Array.size_push]
  simp only [prev, node, Array.getD_eq_getD_getElem?, Array.getElem?_push]
  grind

end Frame

/-! ## Linked neighbours -/

/-- Each identity of `xs` is linked to the one behind it, and back. -/
def Linked (l : Listing) (xs : List OpId) : Prop :=
  xs.IsChain fun a b => l.next a = b ∧ l.prev b = a

/-- Only the links between neighbours matter: those that lead out of all but the last identity,
and those that lead back from all but the first. -/
theorem Linked.congr {l l' : Listing} {xs : List OpId} (h : l.Linked xs)
    (hnext : ∀ a ∈ xs.dropLast, l'.next a = l.next a)
    (hprev : ∀ b ∈ xs.tail, l'.prev b = l.prev b) : l'.Linked xs := by
  induction xs with
  | nil => exact List.isChain_nil
  | cons a xs ih =>
    cases xs with
    | nil => exact List.isChain_singleton a
    | cons b ys =>
      obtain ⟨⟨hab, hba⟩, hrest⟩ := List.isChain_cons_cons.mp h
      refine List.isChain_cons_cons.mpr ⟨⟨?_, ?_⟩, ?_⟩
      · rw [hnext a (by simp), hab]
      · rw [hprev b (by simp), hba]
      · refine ih hrest (fun c hc => hnext c ?_) fun c hc => hprev c ?_
        · simp only [List.dropLast_cons_of_ne_nil (List.cons_ne_nil b ys)]
          exact List.mem_cons_of_mem a hc
        · exact List.mem_of_mem_tail hc

/-- A list that can be a ring: no identity has two links that lead out, or two that lead back. -/
structure Circular (l : Listing) (xs : List OpId) : Prop where
  sources : xs.dropLast.Nodup
  targets : xs.tail.Nodup
  bound : ∀ a ∈ xs, a < l.nodes.size

/-- The links at both ends of a run between `a` and `b`. -/
theorem Linked.ends {l : Listing} {front run back : List OpId} {a b : OpId} {span : Span}
    (h : l.Linked (front ++ a :: (run ++ b :: back))) (hs : span.Covers run) :
    l.prev span.first = a ∧ l.next span.last = b := by
  have hrun := (List.isChain_split.mp h).2
  obtain ⟨hfirst, htail⟩ := List.isChain_cons.mp hrun
  obtain ⟨-, -, hlast⟩ := List.isChain_append.mp htail
  refine ⟨(hfirst span.first ?_).2, (hlast span.last hs.2 b ?_).1⟩
  · simp [List.head?_append, hs.1]
  · simp

/-- The sources and the targets of a ring that is cut in front of and behind a run. -/
theorem Circular.cut {l : Listing} {front run back : List OpId} {a b : OpId}
    (hc : l.Circular (front ++ a :: (run ++ b :: back))) :
    (front ++ a :: (run ++ (b :: back).dropLast)).Nodup ∧
      ((front ++ [a]).tail ++ (run ++ b :: back)).Nodup := by
  refine ⟨?_, ?_⟩
  · have h := hc.sources
    rwa [List.dropLast_append_of_ne_nil (by simp), List.dropLast_cons_of_ne_nil (by simp),
      List.dropLast_append_of_ne_nil (by simp)] at h
  · have h := hc.targets
    rwa [show front ++ a :: (run ++ b :: back) = (front ++ [a]) ++ (run ++ b :: back) by simp,
      List.tail_append_of_ne_nil (by simp)] at h

/-- Taking a run out of the ring closes the ring in its place, and leaves the run linked. -/
theorem Linked.unlink {l : Listing} {front run back : List OpId} {a b : OpId} {span : Span}
    (h : l.Linked (front ++ a :: (run ++ b :: back)))
    (hc : l.Circular (front ++ a :: (run ++ b :: back))) (hs : span.Covers run) :
    (l.unlink span).Linked (front ++ a :: b :: back) ∧ (l.unlink span).Linked run := by
  obtain ⟨hprev, hnext⟩ := h.ends hs
  obtain ⟨hfront, hrest⟩ := List.isChain_split.mp h
  obtain ⟨hrun, hback, -⟩ := List.isChain_append.mp (List.isChain_cons.mp hrest).2
  have ha := hc.bound a (by simp)
  have hb := hc.bound b (by simp)
  obtain ⟨hsources, htargets⟩ := hc.cut
  -- two links change, the one that leads out of `a` and the one that leads back from `b`
  have hkeep : ∀ xs : List OpId, l.Linked xs → a ∉ xs.dropLast → b ∉ xs.tail →
      ((l.setNext a b).setPrev b a).Linked xs := by
    intro xs hxs hxa hxb
    refine hxs.congr (fun c hc => ?_) fun c hc => ?_
    · simp [next_setNext, ne_of_mem_of_not_mem hc hxa]
    · simp [prev_setPrev, ne_of_mem_of_not_mem hc hxb]
  unfold Listing.unlink
  rw [hprev, hnext]
  refine ⟨List.isChain_append_cons_cons.mpr ⟨hkeep _ hfront ?_ ?_, ?_, hkeep _ hback ?_ ?_⟩,
    hkeep _ hrun ?_ ?_⟩
  · grind
  · grind
  · simp [next_setNext, prev_setPrev, ha, hb]
  · grind
  · grind
  · have := (List.dropLast_sublist run).subset (a := a)
    grind
  · have := (List.tail_sublist run).subset (a := b)
    grind

/-- Putting a linked run behind `a` opens the ring there and closes it around the run. -/
theorem Linked.relink {l : Listing} {front run back : List OpId} {a b : OpId} {span : Span}
    (h : l.Linked (front ++ a :: b :: back)) (hrun : l.Linked run)
    (hc : l.Circular (front ++ a :: (run ++ b :: back))) (hs : span.Covers run) :
    (l.relink span a).Linked (front ++ a :: (run ++ b :: back)) := by
  obtain ⟨hfront, ⟨hnext, -⟩, hback⟩ := List.isChain_append_cons_cons.mp h
  obtain ⟨hsources, htargets⟩ := hc.cut
  have hfirst : span.first ∈ run := List.mem_of_mem_head? hs.1
  have hlast : span.last ∈ run := List.mem_of_mem_getLast? hs.2
  have hnd : run.Nodup := by grind
  obtain ⟨hfirst', hlast'⟩ := hs.not_mem hnd
  have hba := hc.bound a (by simp)
  have hbb := hc.bound b (by simp)
  have hbf := hc.bound span.first (by simp [hfirst])
  have hbl := hc.bound span.last (by simp [hlast])
  -- no two of the four links that change are the same, even if the run is a single identity
  have hnexts : ∀ c, (l.relink span a).next c =
      if c = span.last then b else if c = a then span.first else l.next c := by
    intro c
    simp [Listing.relink, next_setNext, hnext, hba, hbl]
  have hprevs : ∀ c, (l.relink span a).prev c =
      if c = b then span.last else if c = span.first then a else l.prev c := by
    intro c
    simp [Listing.relink, prev_setPrev, hnext, hbb, hbf]
  have hkeep : ∀ xs : List OpId, l.Linked xs → a ∉ xs.dropLast → span.last ∉ xs.dropLast →
      b ∉ xs.tail → span.first ∉ xs.tail → (l.relink span a).Linked xs := by
    intro xs hxs hxa hxl hxb hxf
    refine hxs.congr (fun c hc => ?_) fun c hc => ?_
    · rw [hnexts, if_neg (ne_of_mem_of_not_mem hc hxl), if_neg (ne_of_mem_of_not_mem hc hxa)]
    · rw [hprevs, if_neg (ne_of_mem_of_not_mem hc hxb), if_neg (ne_of_mem_of_not_mem hc hxf)]
  have hsub := (List.dropLast_sublist run).subset
  have hsub' := (List.tail_sublist run).subset
  refine List.isChain_split.mpr ⟨hkeep _ hfront ?_ ?_ ?_ ?_, List.isChain_cons.mpr ⟨?_, ?_⟩⟩
  · grind
  · grind
  · grind
  · grind
  · intro c hc
    have he : c = span.first := by
      rw [List.head?_append, hs.1] at hc
      exact (Option.some.inj hc).symm
    rw [he, hnexts, hprevs]
    grind
  · refine List.isChain_append.mpr ⟨hkeep _ hrun ?_ ?_ ?_ ?_, hkeep _ hback ?_ ?_ ?_ ?_, ?_⟩
    · grind
    · exact hlast'
    · grind
    · exact hfirst'
    · grind
    · grind
    · grind
    · grind
    · intro c hc d hd
      have hc' : c = span.last := by
        rw [hs.2] at hc
        exact (Option.some.inj hc).symm
      have hd' : d = b := (Option.some.inj hd).symm
      simp [hc', hd', hnexts, hprevs]

end Listing

end PacketLift
