import PacketLift.Proofs.Packet.Order

/-!
# The order of a packet, found by place

Rounds take waiting records off a list. The same order can be found without taking anything away:
the records stay in their table, a second table has what each of them needs, a third one tells
which of them are placed, and each pass goes through all places. Such a search looks things up by
place, and a table may have nothing there. This module writes the search down with every look-up
checked. No look-up fails, and what the search finds is the order of the rounds.

## Main definitions

* `Violation`: the conditions that closing a packet relies on, when they do not hold
* `Search`, `Search.visit`, `Search.pass`, `Search.run`: the search with its tables
* `Checked.schedule`: the order of a packet, with every look-up checked
* `waitingFrom`: the records that are not placed

## Main results

* `Search.run_eq`: the search finds what the rounds find
* `Checked.schedule_eq`: no look-up fails
-/

namespace PacketLift

/-- **A condition that does not hold**, though closing a packet relies on it. -/
inductive Violation where
  /-- A table has nothing at a place. -/
  | noSuchPlace (i : Nat)
  /-- A span that is to be moved starts or ends with the head. -/
  | movesHead (span : Span)
  /-- The links do not lead from the first operation of a span to its last one. -/
  | brokenRun (span : Span)
  /-- A span is to be moved behind an operation of its own. -/
  | targetInRun (span : Span) (after : OpId)
  /-- A move names an identity that the listing has not given. -/
  | unknownId (id : OpId)
  /-- A record names a target that the packet does not write. -/
  | targetNotWritten (r : Register)
  deriving DecidableEq, Repr

/-- What a table has at a place. -/
def Checked.lookUp {α : Type} (table : List α) (i : Nat) : Except Violation α :=
  match table[i]? with
  | some a => .ok a
  | none => .error (.noSuchPlace i)

theorem Checked.lookUp_of_getElem? {α : Type} {table : List α} {i : Nat} {a : α}
    (h : table[i]? = some a) : lookUp table i = .ok a := by
  rw [lookUp, h]

/-! ## The search -/

/-- **How far a search is.** -/
structure Search where
  /-- Which records are placed. -/
  placed : List Bool
  /-- The places of these records, in the order in which they run. -/
  order : List Nat := []
  /-- The registers that they write. -/
  satisfied : RegisterSet := .empty

namespace Search

/-- The search with the record at `i` placed. -/
def place (s : Search) (i : Nat) (f : Footprint) : Search where
  placed := s.placed.set i true
  order := s.order ++ [i]
  satisfied := s.satisfied.union f.writes

/-- Look at the record at `i`, and place it if it needs only registers of `visible`. -/
def visit (footprints : List Footprint) (needed : List RegisterSet) (visible : RegisterSet)
    (s : Search) (i : Nat) : Except Violation Search := do
  if ← Checked.lookUp s.placed i then
    return s
  if (← Checked.lookUp needed i).isSubset visible then
    return s.place i (← Checked.lookUp footprints i)
  return s

/-- Look at all records once. What is placed on the way becomes visible to the next pass. -/
def pass (footprints : List Footprint) (needed : List RegisterSet) (s : Search) :
    Except Violation Search :=
  (List.range footprints.length).foldlM (visit footprints needed s.satisfied) s

/-- **Pass after pass**, until all records are placed or a pass places none. The result is the order
of the records, or how many of them are left. -/
def run (footprints : List Footprint) (needed : List RegisterSet) (s : Search) :
    Except Violation (Except Nat (List Nat)) :=
  if _ : s.order.length < footprints.length then
    match s.pass footprints needed with
    | .error violation => .error violation
    | .ok behind =>
      if _ : s.order.length < behind.order.length then behind.run footprints needed
      else .ok (.error (footprints.length - behind.order.length))
  else .ok (.ok s.order)
termination_by footprints.length - s.order.length

end Search

/-- **The order in which the records of a packet run**, with every look-up checked. -/
def Checked.schedule (footprints : List Footprint) (packetWrites : RegisterSet)
    (packetPc : Word) : Except Violation (Except Fault (List Nat)) := do
  let needed := footprints.map (·.needed packetWrites)
  let found ← Search.run footprints needed { placed := List.replicate footprints.length false }
  return found.mapError (.dependencyCycle packetPc)

/-! ## Passes are rounds -/

/-- **The records that are not placed**, when the first of the table stands at `start`. -/
def waitingFrom (start : Nat) : List Bool → List Footprint → List Waiting
  | placed :: ps, f :: fs =>
    if placed then waitingFrom (start + 1) ps fs else ⟨start, f⟩ :: waitingFrom (start + 1) ps fs
  | _, _ => []

theorem waitingFrom_replicate (start : Nat) (fs : List Footprint) :
    waitingFrom start (List.replicate fs.length false) fs =
      fs.mapIdx fun i f => ⟨start + i, f⟩ := by
  induction fs generalizing start with
  | nil => rfl
  | cons f fs ih =>
    rw [List.length_cons, List.replicate_succ, waitingFrom, ih, List.mapIdx_cons]
    simp [Nat.add_assoc, Nat.add_comm 1]

section Rounds

variable (packetWrites visible : RegisterSet)

/-- Which records are placed behind a pass. -/
def placedBehind (ps : List Bool) (fs : List Footprint) : List Bool :=
  List.zipWith (fun placed f => placed || (f.needed packetWrites).isSubset visible) ps fs

/-- A pass leaves what a round leaves. -/
theorem waitingFrom_placedBehind (start : Nat) (ps : List Bool) (fs : List Footprint) :
    waitingFrom start (placedBehind packetWrites visible ps fs) fs =
      Waiting.left packetWrites visible (waitingFrom start ps fs) := by
  induction ps generalizing start fs with
  | nil => rfl
  | cons placed ps ih =>
    cases fs with
    | nil => rfl
    | cons f fs =>
      have hrest := ih (start + 1) fs
      unfold placedBehind Waiting.left Waiting.isReady at hrest ⊢
      cases placed <;> cases hready : (f.needed packetWrites).isSubset visible <;>
        simp [waitingFrom, hready, hrest]

/-- Looking at a record never fails within the tables. -/
theorem Search.visit_eq {footprints : List Footprint} {s : Search} {i : Nat} {placed : Bool}
    {f : Footprint} (hplaced : s.placed[i]? = some placed) (hf : footprints[i]? = some f) :
    s.visit footprints (footprints.map (·.needed packetWrites)) visible i =
      .ok (if !placed && (f.needed packetWrites).isSubset visible then s.place i f else s) := by
  have hneeded : (footprints.map (·.needed packetWrites))[i]? =
      some (f.needed packetWrites) := by
    rw [List.getElem?_map, hf]
    rfl
  rw [visit, Checked.lookUp_of_getElem? hplaced, Checked.lookUp_of_getElem? hneeded,
    Checked.lookUp_of_getElem? hf]
  show (if placed then Except.ok s
    else if (f.needed packetWrites).isSubset visible then .ok (s.place i f) else .ok s) = _
  cases placed with
  | true => rfl
  | false => exact (apply_ite Except.ok _ _ _).symm

/-- **A pass over the rest of the tables** takes what a round takes of it. -/
theorem Search.foldlM_visit {footprints : List Footprint} (fs : List Footprint) {start : Nat}
    {front ps : List Bool} {s : Search} (hplaced : s.placed = front ++ ps)
    (hfront : front.length = start) (hps : ps.length = fs.length)
    (hfs : footprints.drop start = fs) :
    (List.range' start fs.length).foldlM
        (visit footprints (footprints.map (·.needed packetWrites)) visible) s =
      .ok {
        placed := front ++ placedBehind packetWrites visible ps fs
        order := s.order ++
          (Waiting.taken packetWrites visible (waitingFrom start ps fs)).map (·.index)
        satisfied := Waiting.written s.satisfied
          (Waiting.taken packetWrites visible (waitingFrom start ps fs)) } := by
  -- the induction is on the part of the tables that is still ahead; `visible` stays the same, as
  -- what the pass places does not count before the next one
  induction fs generalizing start front ps s with
  | nil =>
    obtain rfl := List.length_eq_zero_iff.mp hps
    rw [List.append_nil] at hplaced
    subst hplaced
    simp [waitingFrom, Waiting.taken, Waiting.written, placedBehind, pure, Except.pure]
  | cons f fs ih =>
    obtain ⟨placed, ps, rfl⟩ := List.exists_cons_of_length_eq_add_one hps
    have hhere : s.placed[start]? = some placed := by simp [hplaced, ← hfront]
    have hf : footprints[start]? = some f := by
      rw [← List.head?_drop, hfs, List.head?_cons]
    have hrest : footprints.drop (start + 1) = fs := by
      rw [← List.tail_drop, hfs, List.tail_cons]
    rw [List.length_cons, List.range'_succ, List.foldlM_cons,
      visit_eq packetWrites visible hhere hf]
    cases placed with
    | true =>
      have hnext : s.placed = (front ++ [true]) ++ ps := by simp [hplaced]
      refine (ih hnext (by simp [hfront]) (by simpa using hps) hrest).trans ?_
      simp [waitingFrom, placedBehind]
    | false =>
      cases hready : (f.needed packetWrites).isSubset visible with
      | false =>
        have hnext : s.placed = (front ++ [false]) ++ ps := by simp [hplaced]
        refine (ih hnext (by simp [hfront]) (by simpa using hps) hrest).trans ?_
        simp [waitingFrom, Waiting.taken, Waiting.isReady, hready, placedBehind]
      | true =>
        have hnext : (s.place start f).placed = (front ++ [true]) ++ ps := by
          simp [place, hplaced, ← hfront]
        refine (ih hnext (by simp [hfront]) (by simpa using hps) hrest).trans ?_
        simp [place, waitingFrom, Waiting.taken, Waiting.isReady, hready, Waiting.written,
          placedBehind]

/-- **A pass is a round**: no look-up fails, and it takes what a round takes. -/
theorem Search.pass_eq {footprints : List Footprint} {s : Search}
    (hlength : s.placed.length = footprints.length) :
    s.pass footprints (footprints.map (·.needed packetWrites)) =
      let taken :=
        Waiting.taken packetWrites s.satisfied (waitingFrom 0 s.placed footprints)
      .ok {
        placed := placedBehind packetWrites s.satisfied s.placed footprints
        order := s.order ++ taken.map (·.index)
        satisfied := Waiting.written s.satisfied taken } := by
  rw [pass, List.range_eq_range']
  have hplaced : s.placed = [] ++ s.placed := rfl
  exact foldlM_visit packetWrites s.satisfied footprints hplaced rfl hlength rfl

/-- **The search finds what the rounds find**, from any point on at which each record is placed or
waiting. -/
theorem Search.run_eq {footprints : List Footprint} {s : Search} {done : RegisterSet}
    {ws : List Waiting} (hdone : s.satisfied = done)
    (hws : waitingFrom 0 s.placed footprints = ws)
    (hlength : s.placed.length = footprints.length)
    (hall : s.order.length + ws.length = footprints.length) :
    s.run footprints (footprints.map (·.needed packetWrites)) =
      .ok ((rounds packetWrites done ws).map (s.order ++ ·)) := by
  fun_induction rounds packetWrites done ws generalizing s with
  | case1 done ws hempty =>
    have hfull : ¬s.order.length < footprints.length := by
      simp [← hall, List.isEmpty_iff.mp hempty]
    rw [run, dif_neg hfull]
    simp [Except.map]
  | case2 done ws hempty hnone =>
    have hless : s.order.length < footprints.length := by
      have hpos : 0 < ws.length := by simpa [List.length_pos_iff] using hempty
      omega
    have hpass := pass_eq packetWrites hlength
    rw [hdone, hws, List.isEmpty_iff.mp hnone] at hpass
    rw [run, dif_pos hless, hpass]
    simp [Except.map, ← hall]
  | case3 done ws hempty hsome taken left =>
    rename_i ih
    have hless : s.order.length < footprints.length := by
      have hpos : 0 < ws.length := by simpa [List.length_pos_iff] using hempty
      omega
    have hpass := pass_eq packetWrites hlength
    rw [hdone, hws] at hpass
    let behind : Search :=
      { placed := placedBehind packetWrites done s.placed footprints
        order := s.order ++ taken.map (·.index)
        satisfied := Waiting.written done taken }
    have hpos : 0 < taken.length := by simpa [List.length_pos_iff] using hsome
    have hmore : s.order.length < behind.order.length := by simpa [behind] using hpos
    have hleft : waitingFrom 0 behind.placed footprints = left := by
      rw [waitingFrom_placedBehind, hws]
    have hcount : behind.order.length + left.length = footprints.length := by
      have hsum : taken.length + left.length = ws.length :=
        Waiting.length_taken_add_length_left packetWrites done ws
      simp only [behind, List.length_append, List.length_map]
      omega
    have hrest := ih (s := behind) rfl hleft (by simp [behind, placedBehind, hlength]) hcount
    rw [run, dif_pos hless, hpass]
    show (if _ : s.order.length < behind.order.length then _ else _) = _
    rw [dif_pos hmore, hrest]
    cases rounds packetWrites (Waiting.written done taken) left with
    | error unplaced => rfl
    | ok rest => simp [Except.map, behind]

end Rounds

/-- **The order is found without a look-up that fails.** -/
theorem Checked.schedule_eq (footprints : List Footprint) (packetWrites : RegisterSet)
    (packetPc : Word) :
    Checked.schedule footprints packetWrites packetPc =
      .ok (PacketLift.schedule footprints packetWrites packetPc) := by
  have hwaiting := waitingFrom_replicate 0 footprints
  simp only [Nat.zero_add] at hwaiting
  let start : Search := { placed := List.replicate footprints.length false }
  have hrun : start.run footprints (footprints.map (·.needed packetWrites)) = _ :=
    Search.run_eq packetWrites rfl hwaiting (by simp [start]) (by simp [start])
  rw [schedule, hrun, PacketLift.schedule]
  cases rounds packetWrites .empty (footprints.mapIdx fun i f => ⟨i, f⟩) <;> rfl

end PacketLift
