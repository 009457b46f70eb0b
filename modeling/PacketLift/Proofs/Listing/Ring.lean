import PacketLift.Proofs.Listing.Links

/-!
# The ring of a listing

The links of a listing form one ring: from the head through all operations in order and back to
the head. This module says so as an invariant, `Listing.Represents l es`, and shows that the two
operations that change the links keep it: appending puts an entry at the end of `es`, and moving a
run cuts it out of `es` and puts it back elsewhere.

## Main definitions

* `Listing.Represents l es`: the ring of `l` goes through the entries `es`
* `Listing.Finds l cursor es`: going through `l` from a cursor finds `es` and ends
* `Listing.extend l ops ts`: several operations appended, and temporaries added

## Main results

* `Represents.append`: appending an operation
* `Represents.moveAfter`: moving a run to any place among the other entries
* `Represents.neighbours`, `Represents.finds`, `Represents.entries_eq`: what the links tell
* `Represents.spanSince_extend`: the span since a mark covers what was appended
-/

namespace PacketLift

namespace Listing

/-! ## The invariant -/

/-- **The ring of `l` goes through the entries `es`**, each with its own operation, and through
nothing else. -/
structure Represents (l : Listing) (es : List Entry) : Prop where
  linked : l.Linked (0 :: (es.map Entry.id ++ [0]))
  perm : (es.map Entry.id).Perm (List.range' 1 l.size)
  op : ∀ e ∈ es, l.get? e.id = some e.op
  head : 0 < l.nodes.size

theorem represents_empty : Listing.empty.Represents [] where
  linked := by simp [Linked, Listing.empty, next, prev, node]
  perm := by simp [Listing.empty, size]
  op := by simp
  head := by simp [Listing.empty]

namespace Represents

variable {l : Listing} {es : List Entry}

theorem mem_iff (h : l.Represents es) (id : Nat) :
    id ∈ es.map Entry.id ↔ 1 ≤ id ∧ id < l.nodes.size := by
  rw [h.perm.mem_iff, List.mem_range'_1]
  have := h.head
  unfold size
  omega

theorem nodup (h : l.Represents es) : (es.map Entry.id).Nodup :=
  h.perm.nodup_iff.mpr List.nodup_range'

theorem zero_notMem (h : l.Represents es) : 0 ∉ es.map Entry.id := by
  simp [h.mem_iff 0]

theorem length_eq (h : l.Represents es) : es.length = l.size := by
  simpa using h.perm.length_eq

/-- A permutation of the entries' identities, between two heads, can be a ring. -/
theorem circular (h : l.Represents es) {ids : List OpId} (hp : ids.Perm (es.map Entry.id)) :
    l.Circular (0 :: (ids ++ [0])) where
  sources := by
    rw [List.dropLast_cons_of_ne_nil (by simp), List.dropLast_concat, List.nodup_cons,
      hp.mem_iff, hp.nodup_iff]
    exact ⟨h.zero_notMem, h.nodup⟩
  targets := by
    have hz : 0 ∉ ids := by
      rw [hp.mem_iff]
      exact h.zero_notMem
    have hnd : ids.Nodup := hp.nodup_iff.mpr h.nodup
    simp only [List.tail_cons, List.nodup_append, List.nodup_singleton, List.mem_singleton]
    exact ⟨hnd, trivial, fun a ha b hb he => hz (by rwa [← hb, ← he])⟩
  bound := by
    intro a ha
    simp only [List.mem_cons, List.mem_append, List.not_mem_nil, or_false, hp.mem_iff,
      h.mem_iff] at ha
    rcases ha with rfl | ha | rfl
    · exact h.head
    · exact ha.2
    · exact h.head

/-- The ring opened behind some of the entries. -/
theorem exists_snoc (es : List Entry) :
    ∃ front, 0 :: es.map Entry.id = front ++ [(es.map Entry.id).getLastD 0] := by
  rcases List.eq_nil_or_concat es with rfl | ⟨init, e, rfl⟩
  · exact ⟨[], rfl⟩
  · exact ⟨0 :: init.map Entry.id, by simp⟩

/-- **Neighbours are linked**, wherever the entries are split; the head stands in for what is not
there. -/
theorem neighbours {xs ys : List Entry} (h : l.Represents (xs ++ ys)) :
    l.next ((xs.map Entry.id).getLastD 0) = (ys.map Entry.id).headD 0 ∧
      l.prev ((ys.map Entry.id).headD 0) = (xs.map Entry.id).getLastD 0 := by
  obtain ⟨front, hfront⟩ := exists_snoc xs
  have hl := h.linked
  rw [List.map_append, ← List.cons_append, ← List.cons_append, hfront, List.append_assoc,
    List.append_assoc] at hl
  have hpair := (List.isChain_cons.mp (List.isChain_append.mp hl).2.1).1
  exact hpair ((ys.map Entry.id).headD 0) (by cases ys <;> simp)

/-- The last operation is the one in front of the head. -/
theorem lastId_eq (h : l.Represents es) : l.lastId = (es.map Entry.id).getLastD 0 := by
  have hsplit : l.Represents (es ++ []) := by rwa [List.append_nil]
  exact hsplit.neighbours.2

theorem next_zero (h : l.Represents es) : l.next 0 = (es.map Entry.id).headD 0 := by
  have hsplit : l.Represents ([] ++ es) := h
  exact hsplit.neighbours.1

/-- **Appending** puts one entry at the end. -/
theorem append (h : l.Represents es) (op : MicroOp) :
    (l.append op).Represents (es ++ [⟨l.nodes.size, op⟩]) where
  linked := by
    obtain ⟨front, hfront⟩ := exists_snoc es
    rw [← h.lastId_eq] at hfront
    have hl := h.linked
    rw [← List.cons_append, hfront, List.append_assoc] at hl
    obtain ⟨hinner, -, -⟩ := List.isChain_append_cons_cons.mp hl
    have hbound : ∀ c ∈ front ++ [l.lastId], c < l.nodes.size := by
      rw [← hfront]
      intro c hc
      exact (h.circular (List.Perm.refl _)).bound c (List.mem_append_left [0] hc)
    have hnd : (front ++ [l.lastId]).Nodup := by
      rw [← hfront]
      exact List.nodup_cons.mpr ⟨h.zero_notMem, h.nodup⟩
    have htail := hbound l.lastId (by simp)
    have hne : l.nodes.size ≠ 0 := h.head.ne'
    rw [List.map_append, ← List.cons_append, ← List.cons_append, hfront, List.append_assoc,
      List.append_assoc]
    refine List.isChain_append_cons_cons.mpr ⟨?_, ⟨?_, ?_⟩, List.isChain_pair.mpr ⟨?_, ?_⟩⟩
    · refine Linked.congr hinner (fun c hc => ?_) fun c hc => ?_
      · have hlt := hbound c (by grind)
        rw [List.dropLast_concat] at hc
        rw [next_append]
        grind
      · have hlt := hbound c (List.mem_of_mem_tail hc)
        rw [← hfront, List.tail_cons] at hc
        rw [prev_append, if_neg (ne_of_mem_of_not_mem hc h.zero_notMem), if_neg hlt.ne]
    · rw [next_append, if_pos ⟨rfl, htail.le⟩]
    · rw [prev_append, if_neg hne, if_pos rfl]
    · rw [next_append, if_neg fun hc => htail.ne' hc.1, if_pos rfl]
    · rw [prev_append, if_pos rfl]
  perm := by
    have hsize : (l.append op).size = l.size + 1 := by
      have := h.head
      simp only [size, size_nodes_append]
      omega
    have hlast : 1 + l.size = l.nodes.size := by
      have := h.head
      unfold size
      omega
    rw [hsize, List.range'_1_concat, List.map_append, hlast]
    exact h.perm.append_right [l.nodes.size]
  op := by
    intro e he
    rw [get?_append]
    rcases List.mem_append.mp he with he | he
    · have hlt := ((h.mem_iff e.id).mp (List.mem_map_of_mem he)).2
      rw [if_neg hlt.ne, h.op e he]
    · obtain rfl := List.mem_singleton.mp he
      exact if_pos rfl
  head := by simp

/-- The last identity changes when identities are added. -/
theorem eq_nil_of_getLastD_eq (xs ys : List OpId) (hnd : (xs ++ ys).Nodup) (hz : 0 ∉ xs ++ ys)
    (h : xs.getLastD 0 = (xs ++ ys).getLastD 0) : ys = [] := by
  rcases List.eq_nil_or_concat ys with rfl | ⟨init, b, rfl⟩
  · rfl
  · exfalso
    have hb : (xs ++ init.concat b).getLastD 0 = b := by simp
    rw [hb] at h
    rcases List.eq_nil_or_concat xs with rfl | ⟨init', a, rfl⟩
    · exact hz (by simp [← h])
    · have ha : (init'.concat a).getLastD 0 = a := by simp
      rw [ha] at h
      exact (List.nodup_append.mp hnd).2.2 a (by simp) b (by simp) h

/-- Two ways to open the ring behind the same identity are the same. -/
theorem eq_of_getLastD_eq {pre post xs ys : List Entry}
    (hnd : ((pre ++ post).map Entry.id).Nodup) (hz : 0 ∉ (pre ++ post).map Entry.id)
    (heq : pre ++ post = xs ++ ys)
    (hlast : (pre.map Entry.id).getLastD 0 = (xs.map Entry.id).getLastD 0) : pre = xs := by
  -- one of them would go on where the other one ends, but then its last identity is another
  rcases List.append_eq_append_iff.mp heq with ⟨zs, rfl, rfl⟩ | ⟨zs, rfl, rfl⟩
  · have hnil : zs.map Entry.id = [] := by
      refine eq_nil_of_getLastD_eq (pre.map Entry.id) _ ?_ ?_ (by simpa using hlast)
      · rw [← List.append_assoc, List.map_append, List.map_append] at hnd
        exact (List.nodup_append.mp hnd).1
      · rw [← List.append_assoc, List.map_append, List.map_append] at hz
        exact fun hmem => hz (List.mem_append_left _ hmem)
    rw [List.map_eq_nil_iff.mp hnil, List.append_nil]
  · have hnil : zs.map Entry.id = [] := by
      refine eq_nil_of_getLastD_eq (xs.map Entry.id) _ ?_ ?_ (by simpa using hlast.symm)
      · rw [List.map_append, List.map_append] at hnd
        exact (List.nodup_append.mp hnd).1
      · rw [List.map_append, List.map_append] at hz
        exact fun hmem => hz (List.mem_append_left _ hmem)
    rw [List.map_eq_nil_iff.mp hnil, List.append_nil]

/-- The ring opened between `xs` and `ys`, with any run put there. -/
theorem exists_opening (xs ys : List Entry) :
    ∃ front b back, ∀ run : List OpId,
      0 :: (xs.map Entry.id ++ run ++ ys.map Entry.id ++ [0]) =
        front ++ (xs.map Entry.id).getLastD 0 :: (run ++ b :: back) := by
  obtain ⟨front, hfront⟩ := exists_snoc xs
  obtain ⟨b, back, hback⟩ : ∃ b back, ys.map Entry.id ++ [0] = b :: back := by
    cases ys with
    | nil => exact ⟨0, [], rfl⟩
    | cons e ys => exact ⟨e.id, ys.map Entry.id ++ [0], rfl⟩
  refine ⟨front, b, back, fun run => ?_⟩
  calc 0 :: (xs.map Entry.id ++ run ++ ys.map Entry.id ++ [0])
      = (0 :: xs.map Entry.id) ++ (run ++ (ys.map Entry.id ++ [0])) := by simp
    _ = front ++ (xs.map Entry.id).getLastD 0 :: (run ++ b :: back) := by
      rw [hfront, hback, List.append_assoc, List.singleton_append]

/-- **Moving a run** cuts it out of the entries and puts it back at any place among the others:
behind `xs` when the others are `xs ++ ys`. -/
theorem moveAfter {pre run post xs ys : List Entry} {span : Span}
    (h : l.Represents (pre ++ run ++ post)) (hs : span.Covers (run.map Entry.id))
    (hothers : pre ++ post = xs ++ ys) :
    (l.moveAfter span ((xs.map Entry.id).getLastD 0)).Represents (xs ++ run ++ ys) := by
  have hperm : (xs ++ run ++ ys).Perm (pre ++ run ++ post) := by
    have hmiddle : ∀ as bs : List Entry, (as ++ run ++ bs).Perm (run ++ (as ++ bs)) := by
      intro as bs
      rw [← List.append_assoc]
      exact List.perm_append_comm.append_right bs
    have hxy := hmiddle xs ys
    rw [← hothers] at hxy
    exact hxy.trans (hmiddle pre post).symm
  refine ⟨?_, ?_, ?_, by simpa using h.head⟩
  · obtain ⟨front, b, back, hopen⟩ := exists_opening pre post
    obtain ⟨front', b', back', hopen'⟩ := exists_opening xs ys
    -- without the run, the ring is the same whether it is opened at the old place or the new
    have hclosed : front ++ (pre.map Entry.id).getLastD 0 :: ([] ++ b :: back) =
        front' ++ (xs.map Entry.id).getLastD 0 :: ([] ++ b' :: back') := by
      rw [← hopen, ← hopen', List.append_nil, List.append_nil, ← List.map_append,
        ← List.map_append, hothers]
    rw [List.nil_append, List.nil_append] at hclosed
    have hlinked := h.linked
    have hcirc := h.circular (List.Perm.refl _)
    rw [List.map_append, List.map_append, hopen] at hlinked hcirc
    unfold Listing.moveAfter
    rw [(hlinked.ends hs).1]
    split_ifs with hlast
    · have hnd := h.nodup
      have hz := h.zero_notMem
      have hsub : ((pre ++ post).map Entry.id).Sublist ((pre ++ run ++ post).map Entry.id) := by
        refine List.Sublist.map _ ?_
        exact List.Sublist.append (List.sublist_append_left pre run) (List.Sublist.refl post)
      obtain rfl := eq_of_getLastD_eq (hsub.nodup hnd) (fun hm => hz (hsub.subset hm)) hothers hlast
      rw [List.append_cancel_left hothers] at h
      exact h.linked
    · obtain ⟨hring, hrun⟩ := hlinked.unlink hcirc hs
      rw [hclosed] at hring
      have hcirc' := h.circular (hperm.map Entry.id)
      rw [List.map_append, List.map_append, hopen'] at hcirc' ⊢
      refine Linked.relink hring hrun ⟨hcirc'.sources, hcirc'.targets, ?_⟩ hs
      simpa using hcirc'.bound
  · have hsize : (l.moveAfter span ((xs.map Entry.id).getLastD 0)).size = l.size := by
      simp [size]
    rw [hsize]
    exact (hperm.map Entry.id).trans h.perm
  · intro e he
    rw [get?_moveAfter]
    exact h.op e (hperm.mem_iff.mp he)

end Represents

/-! ## Going through the ring -/

theorem op_node (l : Listing) (id : OpId) : (l.node id).op = l.get? id := by
  simp only [node, get?, Array.getD_eq_getD_getElem?]
  cases l.nodes[id]? <;> rfl

/-- From the cursor on there are exactly the given entries, and then the end. -/
inductive Finds (l : Listing) : OpId → List Entry → Prop where
  | done {cursor : OpId} : l.visit? cursor = none → Finds l cursor []
  | step {cursor behind : OpId} {e : Entry} {es : List Entry} :
      l.visit? cursor = some (e, behind) → Finds l behind es → Finds l cursor (e :: es)

/-- As many steps as there are entries find them all. -/
theorem Finds.entriesFrom_eq {l : Listing} {cursor : OpId} {es : List Entry}
    (h : l.Finds cursor es) {steps : Nat} (hsteps : es.length ≤ steps) :
    l.entriesFrom steps cursor = es := by
  induction h generalizing steps with
  | done hv =>
    cases steps with
    | zero => rfl
    | succ steps => simp [entriesFrom, hv]
  | step hv _ ih =>
    cases steps with
    | zero => simp at hsteps
    | succ steps => simp [entriesFrom, hv, ih (by simpa using hsteps)]

/-- A chain that ends at the head is found from its first identity on. -/
theorem finds_of_linked {l : Listing} {es : List Entry} (h : l.Linked (es.map Entry.id ++ [0]))
    (hz : 0 ∉ es.map Entry.id) (hop : ∀ e ∈ es, l.get? e.id = some e.op) :
    l.Finds ((es.map Entry.id).headD 0) es := by
  induction es with
  | nil => exact .done rfl
  | cons e es ih =>
    have hnext : l.next e.id = (es.map Entry.id).headD 0 := by
      have hpair := (List.isChain_cons.mp h).1 ((es.map Entry.id).headD 0) (by cases es <;> simp)
      exact hpair.1
    have hne : e.id ≠ 0 := fun he => hz (by simp [he])
    refine .step (?_ : l.visit? e.id = some (e, l.next e.id)) ?_
    · simp [visit?, hne, op_node, hop e (by simp), next]
    · rw [hnext]
      refine ih (List.isChain_cons.mp h).2 (fun hm => hz (by simp_all)) fun e' he' => ?_
      exact hop e' (List.mem_cons_of_mem e he')

namespace Represents

variable {l : Listing} {es : List Entry}

/-- **Going through the listing** from its head finds the entries and ends behind the last. -/
theorem finds (h : l.Represents es) : l.Finds (l.next 0) es := by
  rw [h.next_zero]
  exact finds_of_linked (List.isChain_cons.mp h.linked).2 h.zero_notMem h.op

theorem entries_eq (h : l.Represents es) : l.entries = es :=
  h.finds.entriesFrom_eq h.length_eq.le

theorem ids_eq (h : l.Represents es) : l.ids = es.map Entry.id := by
  rw [ids, h.entries_eq]

theorem ops_eq (h : l.Represents es) : l.ops = es.map Entry.op := by
  rw [ops, h.entries_eq]

end Represents

/-! ## Appending several operations -/

/-- Entries with the identities from `n` on. -/
def numbered (n : OpId) : List MicroOp → List Entry
  | [] => []
  | op :: ops => ⟨n, op⟩ :: numbered (n + 1) ops

@[simp] theorem map_op_numbered (n : OpId) (ops : List MicroOp) :
    (numbered n ops).map Entry.op = ops := by
  induction ops generalizing n with
  | nil => rfl
  | cons op ops ih => simp [numbered, ih]

@[simp] theorem map_id_numbered (n : OpId) (ops : List MicroOp) :
    (numbered n ops).map Entry.id = List.range' n ops.length := by
  induction ops generalizing n with
  | nil => rfl
  | cons op ops ih => simp [numbered, ih, List.range'_succ]

/-- The listing with operations at its end, and more temporaries. -/
def extend (l : Listing) (ops : List MicroOp) (ts : List Temp) : Listing :=
  ops.foldl append { l with temps := l.temps ++ ts.toArray }

@[simp] theorem temps_extend (l : Listing) (ops : List MicroOp) (ts : List Temp) :
    (l.extend ops ts).temps = l.temps ++ ts.toArray := by
  suffices ∀ m : Listing, (ops.foldl append m).temps = m.temps from this _
  intro m
  induction ops generalizing m with
  | nil => rfl
  | cons op ops ih => rw [List.foldl_cons, ih, temps_append]

/-- One operation appended, and then others: all of them in a row behind what there was. -/
theorem get?_append_or (l : Listing) (op : MicroOp) (rest : List MicroOp) (id : Nat) :
    (if id < (l.append op).nodes.size then (l.append op).get? id
      else rest[id - (l.append op).nodes.size]?) =
      if id < l.nodes.size then l.get? id else (op :: rest)[id - l.nodes.size]? := by
  rw [size_nodes_append, get?_append]
  rcases Nat.lt_trichotomy id l.nodes.size with hlt | heq | hgt
  · rw [if_pos (by omega), if_neg hlt.ne, if_pos hlt]
  · rw [if_pos (by omega), if_pos heq, if_neg (by omega), heq, Nat.sub_self,
      List.getElem?_cons_zero]
  · rw [if_neg (by omega), if_neg (by omega),
      show id - l.nodes.size = id - (l.nodes.size + 1) + 1 by omega, List.getElem?_cons_succ]

/-- What was appended to a listing can be read off it. -/
theorem get?_extend (l : Listing) (ops : List MicroOp) (ts : List Temp) (id : Nat) :
    (l.extend ops ts).get? id =
      if id < l.nodes.size then l.get? id else ops[id - l.nodes.size]? := by
  suffices ∀ m : Listing, (ops.foldl append m).get? id =
      if id < m.nodes.size then m.get? id else ops[id - m.nodes.size]? from this _
  intro m
  induction ops generalizing m with
  | nil =>
    split_ifs with hid
    · rfl
    · simp [get?, Nat.not_lt.mp hid]
  | cons op ops ih => rw [List.foldl_cons, ih, get?_append_or]

theorem extend_inj {l : Listing} {ops ops' : List MicroOp} {ts ts' : List Temp}
    (h : l.extend ops ts = l.extend ops' ts') : ops = ops' ∧ ts = ts' := by
  constructor
  · refine List.ext_getElem? fun i => ?_
    have hbehind : ¬l.nodes.size + i < l.nodes.size := by omega
    have hi : (l.extend ops ts).get? (l.nodes.size + i) =
        (l.extend ops' ts').get? (l.nodes.size + i) := by rw [h]
    rwa [get?_extend, get?_extend, if_neg hbehind, if_neg hbehind, Nat.add_sub_cancel_left] at hi
  · have htemps := congrArg (·.temps.toList) h
    simpa using htemps

theorem spanSince_extend_nil (l : Listing) (ts : List Temp) :
    (l.extend [] ts).spanSince l.lastId = none := if_pos rfl

namespace Represents

variable {l : Listing} {es : List Entry}

theorem setTemps (h : l.Represents es) (ts : Array Temp) :
    ({ l with temps := ts } : Listing).Represents es :=
  ⟨h.linked, h.perm, h.op, h.head⟩

theorem extend (h : l.Represents es) (ops : List MicroOp) (ts : List Temp) :
    (l.extend ops ts).Represents (es ++ numbered l.nodes.size ops) := by
  suffices ∀ (m : Listing) (es : List Entry), m.Represents es →
      (ops.foldl Listing.append m).Represents (es ++ numbered m.nodes.size ops) from
    this _ es (h.setTemps _)
  induction ops with
  | nil =>
    intro m es hm
    simpa [numbered] using hm
  | cons op ops ih =>
    intro m es hm
    have hrest := ih (m.append op) _ (hm.append op)
    rw [size_nodes_append, List.append_assoc, List.singleton_append] at hrest
    exact hrest

/-- **The span since a mark** covers exactly what was appended behind it. -/
theorem spanSince_extend (h : l.Represents es) {ops : List MicroOp} (hne : ops ≠ [])
    (ts : List Temp) :
    ∃ span, (l.extend ops ts).spanSince l.lastId = some span ∧
      span.Covers ((numbered l.nodes.size ops).map Entry.id) := by
  have hx := h.extend ops ts
  have hlast : (l.extend ops ts).lastId ≠ l.lastId := by
    rw [hx.lastId_eq, h.lastId_eq, List.map_append]
    intro heq
    have hnil := eq_nil_of_getLastD_eq _ _ (by simpa using hx.nodup)
      (by simpa using hx.zero_notMem) heq.symm
    exact hne (by simpa using hnil)
  refine ⟨⟨(l.extend ops ts).next l.lastId, (l.extend ops ts).lastId⟩, if_neg hlast, ?_, ?_⟩
  · rw [h.lastId_eq, hx.neighbours.1]
    obtain ⟨op, ops, rfl⟩ := List.exists_cons_of_ne_nil hne
    rfl
  · rw [hx.lastId_eq, List.map_append, List.getLastD_eq_getLast?, List.getLast?_append]
    cases hl : ((numbered l.nodes.size ops).map Entry.id).getLast? with
    | none => exact absurd (by simpa using List.getLast?_eq_none_iff.mp hl) hne
    | some last => rfl

end Represents

end Listing

end PacketLift
