import PacketLift.Proofs.Packet.Meaning
import PacketLift.Proofs.Packet.Order

/-!
# The order of a packet's instructions

An instruction of the scalar core waits for others only if it tests a predicate that its packet
sets. So the order of a packet is found in two rounds at most: first everything that does not wait,
and then what does. This is the order in which the results of the packet count. It does not matter
where the instructions come from, so the order is first found for any list with instructions in it.

## Main definitions

* `registersOf`, `arrange`: the registers of some instructions, and their order
* `arrangedPlaces`: the same order by places
* `Packet.footprints`, `Packet.writes`, `Packet.conditional`: what a packet does to the registers

## Main results

* `schedule_eq_arrangedPlaces`: instructions can always be put in order, and this is the order
* `filterMap_arrangedPlaces`: it is the one that `arrange` gives
* `idxOf_arrangedPlaces_lt`, `isReordered_arrangedPlaces_iff`: what waits comes last, and when this
  makes a difference
* `Packet.exists_schedule`: the order of a packet
-/

namespace PacketLift

/-! ## Waiting -/

namespace Instruction

theorem hasSlot_needed (i : Instruction) (packetWrites : RegisterSet) (slot : Nat) :
    (i.footprint.needed packetWrites).hasSlot slot =
      (i.isDotNew && packetWrites.contains .p && decide (slot = Register.p.slot.val)) := by
  have hgeneral (n : Byte) : Register.p.slot.val ≠ (Register.general n).slot.val := fun heq =>
    Register.slot_general_ne_p n (Fin.ext heq.symm)
  cases i with
  | compareEqual pd rs rt => simp [footprint, Footprint.needed, Footprint.writes, isDotNew]
  | predicatedAdd rd rs rt pu invert dotNew =>
    cases dotNew with
    | false => simp [footprint, Footprint.needed, isDotNew]
    | true =>
      by_cases hslot : slot = Register.p.slot.val
      · simp [footprint, Footprint.needed, Footprint.writes, isDotNew, RegisterSet.contains, hslot,
          hgeneral]
      · simp [footprint, Footprint.needed, isDotNew, hslot]
  | _ => simp [footprint, Footprint.needed, isDotNew]

/-- An instruction waits for the predicates, if it tests new ones and the packet sets some. -/
theorem isReady_eq (i : Instruction) (packetWrites done : RegisterSet) (index : Nat) :
    Waiting.isReady packetWrites done ⟨index, i.footprint⟩ =
      (!(i.isDotNew && packetWrites.contains .p) || done.contains .p) := by
  rw [Bool.eq_iff_iff, Waiting.isReady, RegisterSet.isSubset_iff]
  simp only [hasSlot_needed]
  cases i.isDotNew && packetWrites.contains .p <;> simp [RegisterSet.contains]

end Instruction

/-! ## Places in lists -/

theorem filterMap_range_getElem? {α : Type} (xs : List α) :
    (List.range xs.length).filterMap (xs[·]?) = xs := by
  have hsome : (List.range xs.length).map (xs[·]?) = xs.map some := by
    apply List.ext_getElem
    · simp
    · intro i hi hi'
      simp
  have hid := congrArg (List.filterMap id) hsome
  simpa [List.filterMap_map, Function.comp_def] using hid

/-- Looking up the places of some members gives these members. -/
theorem filterMap_filter_range {α : Type} {xs : List α} {q : Nat → Bool} {kept : α → Bool}
    (h : ∀ i x, xs[i]? = some x → q i = kept x) :
    ((List.range xs.length).filter q).filterMap (xs[·]?) = xs.filter kept := by
  have hkept : ∀ i, (if q i then xs[i]? else none) = xs[i]?.filter kept := by
    intro i
    cases hx : xs[i]? with
    | none => simp
    | some x => rw [h i x hx, Option.filter_some]
  calc ((List.range xs.length).filter q).filterMap (xs[·]?)
      = (List.range xs.length).filterMap fun i => xs[i]?.filter kept := by
        simp only [List.filterMap_filter, hkept]
    _ = ((List.range xs.length).filterMap (xs[·]?)).filter kept := List.filter_filterMap.symm
    _ = xs.filter kept := by rw [filterMap_range_getElem?]

/-- Moving some numbers behind the others changes nothing if they come last already. -/
theorem filter_append_filter_eq_range_iff {n : Nat} {q : Nat → Bool} :
    (List.range n).filter (!q ·) ++ (List.range n).filter q = List.range n ↔
      ∀ i j, i < j → j < n → q i = true → q j = true := by
  have hsorted : (List.range n).Pairwise (· < ·) := List.pairwise_lt_range
  have hmem : ∀ i, i ∈ (List.range n).filter (!q ·) ↔ i < n ∧ q i = false := by simp
  have hmem' : ∀ i, i ∈ (List.range n).filter q ↔ i < n ∧ q i = true := by simp
  constructor
  · intro h i j hij hj hi
    by_contra hnot
    rw [← h] at hsorted
    have hlt := (List.pairwise_append.mp hsorted).2.2 j
      ((hmem j).mpr ⟨hj, Bool.eq_false_iff.mpr hnot⟩) i ((hmem' i).mpr ⟨Nat.lt_trans hij hj, hi⟩)
    exact Nat.lt_asymm hij hlt
  · intro h
    -- both lists are increasing and have the same members
    have hperm : ((List.range n).filter (!q ·) ++ (List.range n).filter q).Perm (List.range n) := by
      simpa using List.filter_append_perm (!q ·) (List.range n)
    refine hperm.eq_of_pairwise (fun i j _ _ hij hji => absurd hij (Nat.lt_asymm hji)) ?_ hsorted
    refine List.pairwise_append.mpr ⟨hsorted.filter _, hsorted.filter _, ?_⟩
    intro i hi j hj
    obtain ⟨hi, hearly⟩ := (hmem i).mp hi
    obtain ⟨hj, hlate⟩ := (hmem' j).mp hj
    rcases Nat.lt_trichotomy i j with hij | rfl | hji
    · exact hij
    · rw [hearly] at hlate
      cases hlate
    · rw [h j i hji hi hlate] at hearly
      cases hearly

/-! ## Lists with instructions -/

section Lists

variable {α : Type} (instruction : α → Instruction) (xs : List α)

/-- The registers in the given sets of the footprints of some instructions. -/
def registersOf (set : Footprint → RegisterSet) : RegisterSet :=
  unionOver set .empty (xs.map fun x => (instruction x).footprint)

/-- Whether one of the instructions sets a predicate. -/
def anyCompare : Bool := xs.any fun x => (instruction x).isCompare

/-- **The order in which instructions run**: in program order, except that those which test a new
predicate come after all others if a predicate is set. -/
def arrange : List α :=
  if anyCompare instruction xs then
    xs.filter (fun x => !(instruction x).isDotNew) ++ xs.filter (fun x => (instruction x).isDotNew)
  else xs

/-- Whether the instruction at a place tests a new predicate. -/
def testsNewAt (i : Nat) : Bool := xs[i]?.any fun x => (instruction x).isDotNew

/-- **The same order by places.** -/
def arrangedPlaces : List Nat :=
  if anyCompare instruction xs then
    (List.range xs.length).filter (!testsNewAt instruction xs ·)
      ++ (List.range xs.length).filter (testsNewAt instruction xs)
  else List.range xs.length

theorem hasSlot_registersOf (set : Footprint → RegisterSet) (slot : Nat) :
    (registersOf instruction xs set).hasSlot slot =
      xs.any fun x => (set (instruction x).footprint).hasSlot slot := by
  rw [registersOf, hasSlot_unionOver, List.any_map, RegisterSet.hasSlot_empty, Bool.false_or]
  rfl

/-- The predicates are written if there is a comparison, and then under a predicate. -/
theorem contains_p_registersOf :
    (registersOf instruction xs Footprint.conditional).contains .p = anyCompare instruction xs ∧
      (registersOf instruction xs Footprint.writes).contains .p = anyCompare instruction xs := by
  rw [RegisterSet.contains, RegisterSet.contains, hasSlot_registersOf, hasSlot_registersOf,
    anyCompare]
  exact ⟨congrArg xs.any (funext fun x => (instruction x).contains_p.1),
    congrArg xs.any (funext fun x => (instruction x).contains_p.2)⟩

/-- The instructions as they wait for their turn. -/
def waitingOf : List Waiting := xs.mapIdx fun k x => ⟨k + 0, (instruction x).footprint⟩

theorem waitingOf_eq : waitingOf instruction xs =
    (xs.map fun x => (instruction x).footprint).mapIdx fun k footprint => ⟨k, footprint⟩ := by
  apply List.ext_getElem
  · simp [waitingOf]
  · intro k hk hk'
    simp [waitingOf]

variable {instruction xs}

/-- An instruction waits if it tests a new predicate and one is set. -/
theorem isReady_of_mem_waitingOf {w : Waiting} (h : w ∈ waitingOf instruction xs)
    (done : RegisterSet) :
    w.isReady (registersOf instruction xs Footprint.writes) done =
      (!(testsNewAt instruction xs w.index && anyCompare instruction xs) || done.contains .p) := by
  obtain ⟨k, hk, rfl⟩ := List.mem_mapIdx.mp h
  rw [Instruction.isReady_eq, (contains_p_registersOf instruction xs).2, testsNewAt]
  simp [hk]

theorem map_index_filter_waitingOf {taken : Waiting → Bool} {q : Nat → Bool}
    (h : ∀ w ∈ waitingOf instruction xs, taken w = q w.index) :
    ((waitingOf instruction xs).filter taken).map Waiting.index =
      (List.range xs.length).filter q := by
  have hplaces : (waitingOf instruction xs).map Waiting.index = List.range xs.length := by
    rw [waitingOf_eq, ← List.length_map fun x => (instruction x).footprint]
    exact Waiting.map_index_ofFootprints _
  rw [List.filter_congr h, ← hplaces, List.filter_map]
  rfl

/-- If a predicate is set, the first round takes an instruction that does so. -/
theorem exists_taken_of_anyCompare (h : anyCompare instruction xs = true) :
    ∃ w ∈ Waiting.taken (registersOf instruction xs Footprint.writes) .empty
      (waitingOf instruction xs), w.footprint.writes.contains .p = true := by
  obtain ⟨x, hx, hcompare⟩ := List.any_eq_true.mp h
  obtain ⟨k, hk, rfl⟩ := List.mem_iff_getElem.mp hx
  refine ⟨_, List.mem_filter.mpr ⟨List.mem_mapIdx.mpr ⟨k, hk, rfl⟩, ?_⟩,
    (Instruction.contains_p _).2.trans hcompare⟩
  have hnot : (instruction xs[k]).isDotNew = false := by
    cases hnew : (instruction xs[k]).isDotNew with
    | false => rfl
    | true =>
      rw [(Instruction.of_isDotNew hnew).1] at hcompare
      cases hcompare
  rw [Instruction.isReady_eq, hnot]
  rfl

variable (instruction xs)

/-- **Instructions can always be put in order**: two rounds are enough, as comparisons never wait
and the first round has written all predicates that the second one waits for. -/
theorem schedule_eq_arrangedPlaces (pc : Word) :
    schedule (xs.map fun x => (instruction x).footprint)
      (registersOf instruction xs Footprint.writes) pc = .ok (arrangedPlaces instruction xs) := by
  let writes := registersOf instruction xs Footprint.writes
  let waiting := waitingOf instruction xs
  have hready : ∀ w ∈ waiting, w.isReady writes .empty =
      !(testsNewAt instruction xs w.index && anyCompare instruction xs) := by
    intro w hw
    rw [isReady_of_mem_waitingOf hw, RegisterSet.contains_empty, Bool.or_false]
  have hsome : waiting ≠ [] → Waiting.taken writes .empty waiting ≠ [] := by
    intro hne
    cases hc : anyCompare instruction xs with
    | true =>
      obtain ⟨w, hw, -⟩ := exists_taken_of_anyCompare hc
      exact List.ne_nil_of_mem hw
    | false =>
      have hall : Waiting.taken writes .empty waiting = waiting := by
        refine List.filter_eq_self.mpr fun w hw => ?_
        simp [hready w hw, hc]
      rwa [hall]
  have hnext : ∀ w ∈ Waiting.left writes .empty waiting, w.isReady writes
      (Waiting.written .empty (Waiting.taken writes .empty waiting)) = true := by
    intro w hw
    obtain ⟨hw, hnot⟩ := Waiting.mem_left.mp hw
    rw [isReady_of_mem_waitingOf hw]
    cases hc : anyCompare instruction xs with
    | false => simp
    | true =>
      obtain ⟨w', hw', hcontains⟩ := exists_taken_of_anyCompare hc
      rw [Waiting.contains_written.mpr (.inr ⟨w', hw', hcontains⟩), Bool.or_true]
  have htaken : (Waiting.taken writes .empty waiting).map Waiting.index =
      (List.range xs.length).filter
        fun i => !(testsNewAt instruction xs i && anyCompare instruction xs) :=
    map_index_filter_waitingOf hready
  have hleft : (Waiting.left writes .empty waiting).map Waiting.index =
      (List.range xs.length).filter
        fun i => testsNewAt instruction xs i && anyCompare instruction xs :=
    map_index_filter_waitingOf fun w hw => by rw [hready w hw, Bool.not_not]
  have hrounds := rounds_of_next_ready hsome hnext
  rw [List.map_append, htaken, hleft] at hrounds
  rw [schedule_eq_ok_iff, ← waitingOf_eq, arrangedPlaces]
  refine hrounds.trans (congrArg Except.ok ?_)
  cases anyCompare instruction xs <;> simp

theorem length_arrangedPlaces : (arrangedPlaces instruction xs).length = xs.length := by
  simpa using (schedule_perm (schedule_eq_arrangedPlaces instruction xs 0)).length_eq

/-- **The results of instructions count in the order of their places.** -/
theorem filterMap_arrangedPlaces :
    (arrangedPlaces instruction xs).filterMap (xs[·]?) = arrange instruction xs := by
  have hlate : ∀ i x, xs[i]? = some x →
      testsNewAt instruction xs i = (instruction x).isDotNew := by
    intro i x hx
    rw [testsNewAt, hx, Option.any_some]
  have hearly : ∀ i x, xs[i]? = some x →
      (!testsNewAt instruction xs i) = !(instruction x).isDotNew := by
    intro i x hx
    rw [hlate i x hx]
  unfold arrangedPlaces arrange
  split_ifs
  · rw [List.filterMap_append, filterMap_filter_range hlate, filterMap_filter_range hearly]
  · exact filterMap_range_getElem? xs

/-- Instructions can be put in order, and their results count in this order. -/
theorem exists_schedule_arrange (pc : Word) :
    ∃ order, schedule (xs.map fun x => (instruction x).footprint)
        (registersOf instruction xs Footprint.writes) pc = .ok order ∧
      order.filterMap (xs[·]?) = arrange instruction xs :=
  ⟨_, schedule_eq_arrangedPlaces instruction xs pc, filterMap_arrangedPlaces instruction xs⟩

variable {instruction xs}

/-- **What tests a new predicate runs behind every comparison.** -/
theorem idxOf_arrangedPlaces_lt {i j : Nat} (hi : testsNewAt instruction xs i = true)
    (hj : (xs[j]?.any fun x => (instruction x).isCompare) = true) :
    (arrangedPlaces instruction xs).idxOf j < (arrangedPlaces instruction xs).idxOf i := by
  obtain ⟨x, hx, hcompare⟩ := (Option.any_eq_true _ _).mp hj
  have hany : anyCompare instruction xs = true :=
    List.any_eq_true.mpr ⟨x, List.mem_of_getElem? hx, hcompare⟩
  have hearly : testsNewAt instruction xs j = false := by
    rw [testsNewAt, hx, Option.any_some, Bool.eq_false_iff]
    intro hnew
    rw [(Instruction.of_isDotNew hnew).1] at hcompare
    cases hcompare
  have hlt : j < xs.length := (List.getElem?_eq_some_iff.mp hx).1
  have hfirst : j ∈ (List.range xs.length).filter (!testsNewAt instruction xs ·) := by
    simp [hlt, hearly]
  have hother : i ∉ (List.range xs.length).filter (!testsNewAt instruction xs ·) := by
    simp [hi]
  rw [arrangedPlaces, if_pos hany, List.idxOf_append_of_mem hfirst,
    List.idxOf_append_of_notMem hother]
  exact Nat.lt_add_right _ (List.idxOf_lt_length_of_mem hfirst)

/-- **When the order is a new one**: a predicate is set, and something that tests a new one stands
in front of something that does not. -/
theorem isReordered_arrangedPlaces_iff : isReordered (arrangedPlaces instruction xs) = true ↔
    anyCompare instruction xs = true ∧ ∃ i j, i < j ∧ j < xs.length ∧
      testsNewAt instruction xs i = true ∧ testsNewAt instruction xs j = false := by
  rw [isReordered, length_arrangedPlaces, bne_iff_ne, ne_eq, arrangedPlaces]
  cases hany : anyCompare instruction xs with
  | false => simp
  | true =>
    rw [if_pos rfl, filter_append_filter_eq_range_iff]
    push Not
    simp only [ne_eq, Bool.not_eq_true, true_and]

end Lists

/-! ## Packets -/

namespace Packet

/-- The footprints of the instructions in program order. -/
def footprints (p : Packet) : List Footprint := p.places.map (·.instruction.footprint)

/-- All registers that an instruction of the packet may write. -/
def writes (p : Packet) : RegisterSet := unionOver Footprint.writes .empty p.footprints

/-- All registers that an instruction of the packet writes under a predicate. -/
def conditional (p : Packet) : RegisterSet := unionOver Footprint.conditional .empty p.footprints

theorem hasSlot_writes (p : Packet) (slot : Nat) :
    p.writes.hasSlot slot = p.places.any (·.instruction.footprint.writes.hasSlot slot) :=
  hasSlot_registersOf Place.instruction p.places Footprint.writes slot

theorem hasSlot_conditional (p : Packet) (slot : Nat) :
    p.conditional.hasSlot slot =
      p.places.any (·.instruction.footprint.conditional.hasSlot slot) :=
  hasSlot_registersOf Place.instruction p.places Footprint.conditional slot

/-- A packet writes the predicates under a predicate if it has a comparison. -/
theorem contains_p (p : Packet) : p.conditional.contains .p = p.hasCompare :=
  (contains_p_registersOf Place.instruction p.places).1

theorem mem_arranged {p : Packet} {x : Place} : x ∈ p.arranged ↔ x ∈ p.places := by
  unfold arranged
  split_ifs
  · cases hnew : x.instruction.isDotNew <;> simp [hnew]
  · rfl

/-- What instructions that test new predicates do not have comes in program order. -/
theorem filterMap_arranged {α : Type} (p : Packet) {f : Place → Option α}
    (h : ∀ x, x.instruction.isDotNew = true → f x = none) :
    p.arranged.filterMap f = p.places.filterMap f := by
  have hlate : (p.places.filter (·.instruction.isDotNew)).filterMap f = [] := by
    refine List.filterMap_eq_nil_iff.mpr fun x hx => h x ?_
    exact (List.mem_filter.mp hx).2
  have hearly : (p.places.filter (!·.instruction.isDotNew)).filterMap f =
      p.places.filterMap f := by
    rw [List.filterMap_filter]
    congr 1
    funext x
    cases hnew : x.instruction.isDotNew with
    | false => rfl
    | true => exact (h x hnew).symm
  unfold arranged
  split_ifs
  · rw [List.filterMap_append, hlate, hearly, List.append_nil]
  · rfl

/-- **A packet can always be put in order**, and its results count in this order. -/
theorem exists_schedule (p : Packet) : ∃ order, schedule p.footprints p.writes p.pc = .ok order ∧
    order.filterMap (p.places[·]?) = p.arranged :=
  exists_schedule_arrange Place.instruction p.places p.pc

end Packet

end PacketLift
