import PacketLift.Proofs.Listing.Ring

/-!
# Edits of a listing and of a plain list

A listing grows and changes by three kinds of edits: an operation is appended, a temporary is
added, a span is moved behind an operation. On a plain list of identities the same edits are easy
to say: append at the end, or cut a run out and insert it elsewhere. This module shows that a
listing is such a list, after any sequence of edits whose moves name a run of neighbours and a
place outside of it.

## Main definitions

* `Edit`, `Edit.apply`, `Edit.onIds`: an edit, of a listing and of the list of its identities
* `Edit.Fits`, `Edit.AllFit`: moves that name a run and a place outside of it
* `Edit.appended`: the operations that edits append

## Main results

* `Represents.edit`: an edit that fits does the same to a listing and to its list
* `ring_refines_list`: the links, neighbours, places, operations and spans of a listing after any
  edits, by the list of its identities
-/

namespace PacketLift

/-! ## Cutting and inserting in a plain list -/

/-- The identities up to and including `a`, and none for the head. -/
def through (a : OpId) (ids : List OpId) : List OpId :=
  if a = 0 then [] else ids.takeWhile (· != a) ++ [a]

/-- The identities behind `a`, and all for the head. -/
def behind (a : OpId) (ids : List OpId) : List OpId :=
  if a = 0 then ids else (ids.dropWhile (· != a)).drop 1

/-- **A run moved in a plain list**: cut out from `span.first` to `span.last`, and inserted behind
`after`. -/
def moveRun (span : Span) (after : OpId) (ids : List OpId) : List OpId :=
  let front := ids.takeWhile (· != span.first)
  let rest := ids.dropWhile (· != span.first)
  let others := front ++ behind span.last rest
  through after others ++ through span.last rest ++ behind after others

section Cut

variable {xs ys : List OpId}

theorem takeWhile_append_of_notMem (ys : List OpId) {a : OpId} (h : a ∉ xs) :
    (xs ++ a :: ys).takeWhile (· != a) = xs ∧ (xs ++ a :: ys).dropWhile (· != a) = a :: ys := by
  have hall : ∀ b ∈ xs, (b != a) = true := by
    intro b hb
    simpa using ne_of_mem_of_not_mem hb h
  rw [List.takeWhile_append_of_pos hall, List.dropWhile_append_of_pos hall]
  simp

/-- Cutting behind the last identity of `xs` gives `xs` and the rest. -/
theorem through_behind_getLastD (hnd : (xs ++ ys).Nodup) (hz : 0 ∉ xs ++ ys) :
    through (xs.getLastD 0) (xs ++ ys) = xs ∧ behind (xs.getLastD 0) (xs ++ ys) = ys := by
  rcases List.eq_nil_or_concat xs with rfl | ⟨init, a, rfl⟩
  · simp [through, behind]
  · have hlast : (init.concat a).getLastD 0 = a := by simp
    have ha : a ≠ 0 := fun he => hz (by simp [he])
    have hmem : a ∉ init := by
      rw [List.concat_eq_append, List.append_assoc] at hnd
      exact fun hm => (List.nodup_append.mp hnd).2.2 a hm a (by simp) rfl
    obtain ⟨htake, hdrop⟩ := takeWhile_append_of_notMem ys hmem
    rw [hlast, List.concat_eq_append, List.append_assoc, List.singleton_append]
    simp [through, behind, ha, htake, hdrop]

/-- Moving a covered run puts it behind `xs` when the other identities are `xs ++ ys`. -/
theorem moveRun_eq {pre run post : List OpId} {span : Span} (hnd : (pre ++ run ++ post).Nodup)
    (hz : 0 ∉ pre ++ run ++ post) (hs : span.Covers run) (hothers : pre ++ post = xs ++ ys) :
    moveRun span (xs.getLastD 0) (pre ++ run ++ post) = xs ++ run ++ ys := by
  obtain ⟨tail, rfl⟩ := List.head?_eq_some_iff.mp hs.1
  have hfirst : span.first ∉ pre := by
    intro hm
    rw [List.append_assoc] at hnd
    exact (List.nodup_append.mp hnd).2.2 _ hm _ (by simp) rfl
  have hlast : (span.first :: tail).getLastD 0 = span.last := by
    rw [List.getLastD_eq_getLast?, hs.2, Option.getD_some]
  have hrest : (span.first :: tail ++ post).Nodup ∧ 0 ∉ span.first :: tail ++ post := by
    rw [List.append_assoc] at hnd hz
    exact ⟨(List.nodup_append.mp hnd).2.1, fun hm => hz (List.mem_append_right pre hm)⟩
  have hkept : (xs ++ ys).Nodup ∧ 0 ∉ xs ++ ys := by
    have hsub : (pre ++ post).Sublist (pre ++ span.first :: tail ++ post) :=
      List.Sublist.append (List.sublist_append_left _ _) (List.Sublist.refl post)
    rw [← hothers]
    exact ⟨hsub.nodup hnd, fun hm => hz (hsub.subset hm)⟩
  -- three cuts: in front of the run, behind it, and behind `xs` in what is left
  obtain ⟨hfront, hback⟩ := takeWhile_append_of_notMem (tail ++ post) hfirst
  obtain ⟨hrun, hpost⟩ := through_behind_getLastD hrest.1 hrest.2
  obtain ⟨hx, hy⟩ := through_behind_getLastD hkept.1 hkept.2
  rw [hlast] at hrun hpost
  have happ : pre ++ span.first :: tail ++ post = pre ++ span.first :: (tail ++ post) := by simp
  have hcons : span.first :: (tail ++ post) = span.first :: tail ++ post := rfl
  simp only [moveRun, happ, hfront, hback]
  rw [hcons, hpost, hrun, hothers, hx, hy]

end Cut

/-! ## Edits -/

/-- **One edit of a listing.** -/
inductive Edit where
  /-- An operation is appended. -/
  | append (op : MicroOp)
  /-- A temporary is added, a local or a global. -/
  | addTemp (t : Temp)
  /-- A span is moved behind an operation, or to the front if `after` is the head. -/
  | move (span : Span) (after : OpId)

namespace Edit

/-- The listing after an edit. -/
def apply (l : Listing) : Edit → Listing
  | append op => l.append op
  | addTemp t => l.addTemp t
  | move span after => l.moveAfter span after

/-- The list of identities after an edit. -/
def onIds (ids : List OpId) : Edit → List OpId
  | append _ => ids ++ [ids.length + 1]
  | addTemp _ => ids
  | move span after => moveRun span after ids

/-- The operation that an edit appends. -/
def appended? : Edit → Option MicroOp
  | append op => some op
  | addTemp _ => none
  | move _ _ => none

/-- A move names a run of neighbours, and a place that is not in the run: an operation or the
head. -/
def Fits (ids : List OpId) : Edit → Prop
  | append _ => True
  | addTemp _ => True
  | move span after =>
    ∃ pre run post, ids = pre ++ run ++ post ∧ span.Covers run ∧ after ∉ run ∧
      (after = 0 ∨ after ∈ ids)

/-- Each edit of a sequence fits the list that the edits before it have led to. -/
def AllFit : List OpId → List Edit → Prop
  | _, [] => True
  | ids, e :: es => e.Fits ids ∧ AllFit (e.onIds ids) es

/-- A place outside of a run is behind some of the other identities. -/
theorem exists_split_of_fits {pre run post : List OpId} {after : OpId}
    (hout : after ∉ run) (hin : after = 0 ∨ after ∈ pre ++ run ++ post) :
    ∃ xs ys, pre ++ post = xs ++ ys ∧ after = xs.getLastD 0 := by
  rcases hin with rfl | hin
  · exact ⟨[], pre ++ post, rfl, rfl⟩
  · have hmem : after ∈ pre ++ post := by
      simp only [List.mem_append] at hin ⊢
      tauto
    obtain ⟨xs, ys, heq⟩ := List.append_of_mem hmem
    exact ⟨xs ++ [after], ys, by simp [heq], by simp⟩

end Edit

namespace Listing

/-- **One edit** that fits does to a listing what it does to the list of its identities. -/
theorem Represents.edit {l : Listing} {es : List Entry} (h : l.Represents es) {e : Edit}
    (hfit : e.Fits (es.map Entry.id)) :
    ∃ es', (e.apply l).Represents es' ∧ es'.map Entry.id = e.onIds (es.map Entry.id) := by
  cases e with
  | append op =>
    refine ⟨_, h.append op, ?_⟩
    have hsize : l.nodes.size = es.length + 1 := by
      have := h.length_eq
      have := h.head
      unfold size at *
      omega
    simp [Edit.onIds, hsize]
  | addTemp t => exact ⟨es, h.setTemps _, rfl⟩
  | move span after =>
    obtain ⟨pre, run, post, hids, hs, hout, hin⟩ := hfit
    obtain ⟨es₁, post', rfl, hes₁, rfl⟩ := List.map_eq_append_iff.mp hids
    obtain ⟨pre', run', rfl, rfl, rfl⟩ := List.map_eq_append_iff.mp hes₁
    rw [List.map_append, List.map_append] at hin
    obtain ⟨xs, ys, hothers, rfl⟩ := Edit.exists_split_of_fits hout hin
    have hnd := h.nodup
    have hz := h.zero_notMem
    rw [List.map_append, List.map_append] at hnd hz
    obtain ⟨xs', ys', hxy, rfl, rfl⟩ :=
      List.map_eq_append_iff.mp ((List.map_append).trans hothers)
    refine ⟨_, h.moveAfter hs hxy, ?_⟩
    rw [Edit.onIds, List.map_append, List.map_append, List.map_append, List.map_append,
      moveRun_eq hnd hz hs hothers]

/-- **A sequence of edits** that fit does to a listing what it does to the list. -/
theorem Represents.edits {l : Listing} {es : List Entry} (h : l.Represents es) {edits : List Edit}
    (hfit : Edit.AllFit (es.map Entry.id) edits) :
    ∃ es', (edits.foldl Edit.apply l).Represents es' ∧
      es'.map Entry.id = edits.foldl Edit.onIds (es.map Entry.id) := by
  induction edits generalizing l es with
  | nil => exact ⟨es, h, rfl⟩
  | cons e edits ih =>
    obtain ⟨es', h', hids⟩ := h.edit hfit.1
    rw [List.foldl_cons, List.foldl_cons, ← hids]
    exact ih h' (by rw [hids]; exact hfit.2)

/-- An operation keeps its identity through all edits, and appended ones are numbered in turn. -/
theorem get?_edits (l : Listing) (edits : List Edit) (id : Nat) :
    (edits.foldl Edit.apply l).get? id =
      if id < l.nodes.size then l.get? id
      else (edits.filterMap Edit.appended?)[id - l.nodes.size]? := by
  induction edits generalizing l with
  | nil =>
    split_ifs with hid
    · rfl
    · simp [get?, Nat.not_lt.mp hid]
  | cons e edits ih =>
    rw [List.foldl_cons, ih]
    cases e with
    | addTemp t => rfl
    | move span after =>
      rw [Edit.apply, size_nodes_moveAfter, get?_moveAfter]
      rfl
    | append op => exact get?_append_or l op _ id

/-- **A listing that is a plain list of identities**, where `appended` are the operations in the
order in which they were appended. -/
structure IsList (l : Listing) (ids : List OpId) (appended : List MicroOp) : Prop where
  /-- The links form one ring through the head and the identities. -/
  ring : l.Linked (0 :: (ids ++ [0]))
  /-- Each identity from 1 on stands in it exactly once. -/
  once : ids.Perm (List.range' 1 l.size)
  ids_eq : l.ids = ids
  next_eq : ∀ k ≤ ids.length, l.next? ((0 :: ids).getD k 0) = ids[k]?
  prev_eq : ∀ k ≤ ids.length, l.prev ((ids ++ [0]).getD k 0) = (0 :: ids).getD k 0
  last_eq : l.lastId = ids.getLastD 0
  position_eq : ∀ id k, l.position? id = some k ↔ ids[k]? = some id
  /-- Going through the listing ends, after as many steps as there are operations. -/
  ends : ∃ es, l.Finds (l.next 0) es ∧ es.length = l.size ∧ es.map Entry.id = ids
  get_eq : ∀ k, l.get? (k + 1) = appended[k]?
  /-- The span since the last operation covers what is then appended. -/
  span_eq : ∀ ops ts, ops ≠ [] → ∃ span, (l.extend ops ts).spanSince l.lastId = some span ∧
    span.Covers (List.range' (l.size + 1) ops.length) ∧
    (l.extend ops ts).ids = ids ++ List.range' (l.size + 1) ops.length

theorem getLastD_take (ids : List OpId) {k : Nat} (hk : k ≤ ids.length) :
    (ids.take k).getLastD 0 = (0 :: ids).getD k 0 := by
  cases k with
  | zero => rfl
  | succ k =>
    rw [List.getLastD_eq_getLast?, List.getLast?_take, List.getD_cons_succ,
      List.getD_eq_getElem?_getD, if_neg (Nat.succ_ne_zero k), Nat.add_sub_cancel,
      List.getElem?_eq_getElem hk]
    rfl

theorem headD_drop (ids : List OpId) (k : Nat) :
    (ids.drop k).headD 0 = ids[k]?.getD 0 ∧
      (ids.drop k).headD 0 = (ids ++ [0]).getD k 0 := by
  have hdrop : (ids.drop k).headD 0 = ids[k]?.getD 0 := by
    rw [List.headD_eq_head?_getD, List.head?_drop]
  refine ⟨hdrop, ?_⟩
  rw [hdrop, List.getD_eq_getElem?_getD, List.getElem?_append]
  split_ifs with hk
  · rfl
  · rw [List.getElem?_eq_none (Nat.not_lt.mp hk)]
    cases k - ids.length <;> rfl

/-- Among identities without repetition, the place found is the place where the identity is. -/
theorem findIdx?_eq_some_iff_of_nodup {ids : List OpId} (hnd : ids.Nodup) (id : OpId) (k : Nat) :
    ids.findIdx? (· == id) = some k ↔ ids[k]? = some id := by
  rw [List.findIdx?_eq_some_iff_getElem]
  constructor
  · rintro ⟨hk, heq, -⟩
    rw [List.getElem?_eq_getElem hk, beq_iff_eq.mp heq]
  · intro hk
    obtain ⟨hlt, heq⟩ := List.getElem?_eq_some_iff.mp hk
    refine ⟨hlt, beq_iff_eq.mpr heq, fun j hj hjk => ?_⟩
    have hsame : ids[j] = ids[k] := by rw [beq_iff_eq.mp hjk, heq]
    exact hj.ne ((hnd.getElem_inj_iff).mp hsame)

/-- The invariant gives all that a plain list has. -/
theorem Represents.isList {l : Listing} {es : List Entry} (h : l.Represents es)
    {appended : List MicroOp} (hget : ∀ k, l.get? (k + 1) = appended[k]?) :
    l.IsList (es.map Entry.id) appended where
  ring := h.linked
  once := h.perm
  ids_eq := h.ids_eq
  next_eq := by
    intro k hk
    have hsplit : l.Represents (es.take k ++ es.drop k) := by rwa [List.take_append_drop]
    have hnext := hsplit.neighbours.1
    rw [List.map_take, List.map_drop, getLastD_take _ hk, (headD_drop _ k).1] at hnext
    rw [next?, hnext]
    cases hid : (es.map Entry.id)[k]? with
    | none => rfl
    | some id =>
      have hne : id ≠ 0 := ne_of_mem_of_not_mem (List.mem_of_getElem? hid) h.zero_notMem
      exact if_neg hne
  prev_eq := by
    intro k hk
    have hsplit : l.Represents (es.take k ++ es.drop k) := by rwa [List.take_append_drop]
    have hprev := hsplit.neighbours.2
    rwa [List.map_take, List.map_drop, getLastD_take _ hk, (headD_drop _ k).2] at hprev
  last_eq := h.lastId_eq
  position_eq := by
    intro id k
    rw [position?, h.ids_eq]
    exact findIdx?_eq_some_iff_of_nodup h.nodup id k
  ends := ⟨es, h.finds, h.length_eq, rfl⟩
  get_eq := hget
  span_eq := by
    intro ops ts hne
    obtain ⟨span, hspan, hcovers⟩ := h.spanSince_extend hne ts
    have hsize : l.nodes.size = l.size + 1 := by
      have := h.head
      unfold size
      omega
    refine ⟨span, hspan, ?_, ?_⟩
    · rwa [map_id_numbered, hsize] at hcovers
    · rw [(h.extend ops ts).ids_eq, List.map_append, map_id_numbered, hsize]

/-- **A listing is a plain list**, after any edits that fit: its links form one ring, its
neighbours, places and operations are those of the list, and going through it ends. -/
theorem ring_refines_list (edits : List Edit) (hfit : Edit.AllFit [] edits) :
    (edits.foldl Edit.apply Listing.empty).IsList (edits.foldl Edit.onIds [])
      (edits.filterMap Edit.appended?) := by
  obtain ⟨es, h, hids⟩ := represents_empty.edits hfit
  have hget : ∀ k, (edits.foldl Edit.apply Listing.empty).get? (k + 1) =
      (edits.filterMap Edit.appended?)[k]? := by
    intro k
    rw [get?_edits]
    simp [Listing.empty]
  rw [List.map_nil] at hids
  rw [← hids]
  exact h.isList hget

/-- Four operations, the last two moved to the front, and one of them then to the end: the head,
the first and the last operation are all next to a run that moves. -/
theorem ring_refines_list_front_and_end :
    ∃ edits : List Edit, Edit.AllFit [] edits ∧ edits.foldl Edit.onIds [] = [4, 1, 2, 3] ∧
      (edits.foldl Edit.apply Listing.empty).IsList [4, 1, 2, 3]
        [.packetStart 0, .packetStart 4, .packetStart 8, .exitBlock] := by
  let edits : List Edit :=
    [.append (.packetStart 0), .append (.packetStart 4), .addTemp .scratch,
      .append (.packetStart 8), .append .exitBlock, .move ⟨3, 4⟩ 0, .move ⟨3, 3⟩ 2]
  have hfit : Edit.AllFit [] edits := by
    refine ⟨trivial, trivial, trivial, trivial, trivial, ?_, ?_, trivial⟩
    · exact ⟨[1, 2], [3, 4], [], rfl, ⟨rfl, rfl⟩, by decide, Or.inl rfl⟩
    · exact ⟨[], [3], [4, 1, 2], by decide, ⟨rfl, rfl⟩, by decide, Or.inr (by decide)⟩
  exact ⟨edits, hfit, by decide, ring_refines_list edits hfit⟩

end Listing

end PacketLift
