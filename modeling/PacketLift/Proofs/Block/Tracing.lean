import PacketLift.Proofs.Block.Effect

/-!
# The address of the running instruction

Lifted code stores the address of each word before the instructions in it run, so that a trap
handler can be told where it was called from. The lower half of a duplex word has no such store: it
relies on running directly behind the upper half. Nothing in the closing of a packet keeps the two
together. But neither of them waits for anything, so that the order of a packet moves them, if at
all, as one.

## Main definitions

* `lastTrace ops`: the nearest address that was stored
* `OwnedOp`, `blockOwned`: operations with the instructions they belong to
* `TracedFrom`, `Accompanied`: what is shown of operations, and of the instructions in their order
* `KeepsTrack`: operations that keep track of where they run

## Main results

* `Packet.accompanied_arranged`: a lower half runs directly behind an upper one
* `LiftedPacket.LiftedFrom.tracedFrom_owned`: the operations of a packet
* `liftBlock_traces_instructions`: the operations of a block, and the calls of the trap handler
-/

namespace PacketLift

/-! ## Addresses that are stored -/

/-- The address that an operation stores as that of the running instruction. -/
def MicroOp.traced? : MicroOp → Option Word
  | .set dst address => if dst = Global.pcTrace then some address else none
  | _ => none

/-- **The nearest address stored** at or before the end of some operations. -/
def lastTrace (ops : List MicroOp) : Option Word := (ops.filterMap MicroOp.traced?).getLast?

theorem lastTrace_append (ops ops' : List MicroOp) :
    lastTrace (ops ++ ops') = (lastTrace ops').or (lastTrace ops) := by
  rw [lastTrace, List.filterMap_append, List.getLast?_append]
  rfl

theorem lastTrace_eq_none {ops : List MicroOp} (h : ∀ op ∈ ops, op.traced? = none) :
    lastTrace ops = none := by
  rw [lastTrace, List.filterMap_eq_nil_iff.mpr h]
  rfl

/-- **An operation with its owner**: the place of the instruction in whose range it stands, if it
stands in one. -/
structure OwnedOp where
  owner : Option Place
  op : MicroOp

/-- Operations that belong to no instruction. -/
def unowned (ops : List MicroOp) : List OwnedOp := ops.map (⟨none, ·⟩)

@[simp] theorem map_op_unowned (ops : List MicroOp) : (unowned ops).map OwnedOp.op = ops := by
  simp [unowned, Function.comp_def]

/-- **Each operation of an instruction has the instruction's address stored last**, when `trace` was
stored before the first operation. -/
def TracedFrom (trace : Option Word) (l : List OwnedOp) : Prop :=
  ∀ (k : Nat) (place : Place) (op : MicroOp), l[k]? = some ⟨some place, op⟩ →
    (lastTrace ((l.map OwnedOp.op).take (k + 1))).or trace = some place.pc

theorem tracedFrom_unowned (trace : Option Word) (ops : List MicroOp) :
    TracedFrom trace (unowned ops) := by
  intro k place op h
  rw [unowned, List.getElem?_map] at h
  obtain ⟨_, -, hnone⟩ := Option.map_eq_some_iff.mp h
  cases hnone

/-- What was stored by the operations in front counts for those behind. -/
theorem TracedFrom.append {trace : Option Word} {l l' : List OwnedOp} (h : TracedFrom trace l)
    (h' : TracedFrom ((lastTrace (l.map OwnedOp.op)).or trace) l') :
    TracedFrom trace (l ++ l') := by
  intro k place op hk
  rw [List.map_append]
  rcases Nat.lt_or_ge k l.length with hlt | hge
  · rw [List.getElem?_append_left hlt] at hk
    rw [List.take_append_of_le_length (by simpa using Nat.succ_le_of_lt hlt)]
    exact h k place op hk
  · obtain ⟨j, rfl⟩ := Nat.exists_eq_add_of_le hge
    rw [List.getElem?_append_right hge, Nat.add_sub_cancel_left] at hk
    have htake : (l.map OwnedOp.op ++ l'.map OwnedOp.op).take (l.length + j + 1) =
        l.map OwnedOp.op ++ (l'.map OwnedOp.op).take (j + 1) := by
      rw [Nat.add_assoc, ← List.length_map OwnedOp.op, List.take_length_add_append]
    rw [htake, lastTrace_append, Option.or_assoc]
    exact h' j place op hk

/-! ## Halves stay together -/

/-- Whether the bits are one half of a duplex word. -/
def Code.isHalf : Code → Bool
  | whole _ => false
  | half _ => true

/-- **An instruction whose address is not stored runs directly behind a half of the same word.** The
first argument is what runs in front of all the others. -/
def Accompanied : Option Place → List Place → Prop
  | _, [] => True
  | last, x :: xs =>
    (x.code.isTraced = false → ∃ y, last = some y ∧ y.pc = x.pc ∧ y.code.isHalf = true) ∧
      Accompanied (some x) xs

theorem Accompanied.append {last : Option Place} {xs ys : List Place} (h : Accompanied last xs)
    (h' : ∀ last, Accompanied last ys) : Accompanied last (xs ++ ys) := by
  induction xs generalizing last with
  | nil => exact h' last
  | cons x xs ih => exact ⟨h.1, ih h.2⟩

theorem accompanied_of_isTraced {last : Option Place} {xs : List Place}
    (h : ∀ x ∈ xs, x.code.isTraced = true) : Accompanied last xs := by
  induction xs generalizing last with
  | nil => trivial
  | cons x xs ih =>
    obtain ⟨hx, hxs⟩ := List.forall_mem_cons.mp h
    refine ⟨fun hnot => ?_, ih hxs⟩
    rw [hx] at hnot
    cases hnot

/-- Taking out instructions that are no halves tears no halves apart. -/
theorem Accompanied.filter {keep : Place → Bool} (hkeep : ∀ x, x.code.isHalf = true → keep x = true)
    {last last' : Option Place} {xs : List Place} (h : Accompanied last xs)
    (hlast : ∀ y, last = some y → y.code.isHalf = true → last' = some y) :
    Accompanied last' (xs.filter keep) := by
  induction xs generalizing last last' with
  | nil => trivial
  | cons x xs ih =>
    obtain ⟨hx, hxs⟩ := h
    cases hkept : keep x with
    | true =>
      rw [List.filter_cons_of_pos hkept]
      refine ⟨fun hnot => ?_, ih hxs fun y hy _ => hy⟩
      obtain ⟨y, hy, hpc, hhalf⟩ := hx hnot
      exact ⟨y, hlast y hy hhalf, hpc, hhalf⟩
    | false =>
      rw [List.filter_cons_of_neg (by simp [hkept])]
      refine ih hxs fun y hy hhalf => ?_
      obtain rfl := Option.some.inj hy
      rw [hkeep x hhalf] at hkept
      cases hkept

theorem accompanied_wordPlaces {w pc : Word} {extender : Option Word} {here : List Place}
    (h : wordPlaces w pc extender = some here) (last : Option Place) : Accompanied last here := by
  unfold wordPlaces at h
  split_ifs at h with hrole
  · obtain ⟨d, hd, rfl⟩ := Option.map_eq_some_iff.mp h
    have hsplit : Duplex.split w pc = .ok d := by
      cases hs : Duplex.split w pc <;> simp_all [Except.toOption]
    have hupper : (Code.half d.upper).isTraced = true := (Duplex.isTraced_of_split hsplit).1
    refine ⟨fun hnot => ?_, fun _ => ⟨_, rfl, rfl, rfl⟩, trivial⟩
    rw [hupper] at hnot
    cases hnot
  · cases h
    exact accompanied_of_isTraced (by simp [Code.isTraced])

/-- **In program order** a lower half stands behind its upper half. -/
theorem accompanied_places {pc : Word} {pending : Option Word} {ws : List Word} {ps : List Place}
    (h : places pc pending ws = some ps) (last : Option Place) : Accompanied last ps := by
  induction ws generalizing pc pending ps last with
  | nil =>
    obtain ⟨-, rfl⟩ : pending = none ∧ [] = ps := by simpa [places] using h
    trivial
  | cons w ws ih =>
    rw [places] at h
    split_ifs at h with hx hpending
    · exact ih h last
    · obtain ⟨here, hhere, hrest⟩ := Option.bind_eq_some_iff.mp h
      obtain ⟨rest, htail, rfl⟩ := Option.map_eq_some_iff.mp hrest
      exact (accompanied_wordPlaces hhere last).append (ih htail)

/-- **So it does in the order in which the instructions run.** Halves are never among those that
wait for a predicate. -/
theorem Packet.accompanied_arranged {p : Packet}
    (h : PacketLift.places p.pc none p.words = some p.places) (last : Option Place) :
    Accompanied last p.arranged := by
  have hhalf : ∀ x : Place, x.code.isHalf = true → x.instruction.isDotNew = false := by
    rintro ⟨_ | s, pc, extender⟩ hx
    · cases hx
    · exact (Instruction.of_decodeSub s.bits s.group).1
  have hplaces := accompanied_places h last
  unfold arranged
  split_ifs
  · have hkeep : ∀ x : Place, x.code.isHalf = true → (!x.instruction.isDotNew) = true :=
      fun x hx => by simp [hhalf x hx]
    refine (hplaces.filter hkeep fun y hy _ => hy).append fun last => ?_
    refine accompanied_of_isTraced fun x hx => ?_
    have hnew := (List.mem_filter.mp hx).2
    cases hcode : x.code with
    | whole w => rfl
    | half s =>
      rw [hhalf x (by rw [hcode]; rfl)] at hnew
      cases hnew
  · exact hplaces

/-! ## The operations of instructions -/

/-- The operations of a lifted instruction, which is their owner. -/
def Part.owned {isa : InstructionSet} (p : Part isa) : List OwnedOp :=
  p.ops.map (⟨some p.place, ·⟩)

@[simp] theorem Part.map_op_owned {isa : InstructionSet} (p : Part isa) :
    p.owned.map OwnedOp.op = p.ops := by
  simp [owned, Function.comp_def]

/-- The instructions of the scalar core do not store addresses themselves. -/
theorem Instruction.traced?_of_mem_lowered {i : Instruction} {site : Site} {n : Nat}
    (hn : 130 ≤ n) {op : MicroOp} (h : op ∈ i.lowered site n) : op.traced? = none := by
  have hstaged : ∀ r, Global.staged r ≠ Global.pcTrace := by
    intro r heq
    have hlt := r.slot.isLt
    have hsum : 64 + r.slot.val = 129 := heq
    omega
  have hpc : Global.pc ≠ Global.pcTrace := by decide
  have hwritten : Global.pcWritten ≠ Global.pcTrace := by decide
  have hlocal : ∀ k, n + k ≠ Global.pcTrace := by
    intro k heq
    have hsum : n + k = 129 := heq
    omega
  have hfirst : n ≠ Global.pcTrace := hlocal 0
  have hall : ∀ op ∈ i.lowered site n, op.traced? = none := by
    cases i <;>
      simp [lowered, predicateBitOps, MicroOp.traced?, hstaged, hpc, hwritten, hlocal, hfirst]
  exact hall op h

section Parts

variable {isa : InstructionSet} {p : Part isa} {trace : Option Word}

/-- The address is in force from the first operation on, if it is stored there or was before. -/
theorem Part.lastTrace_take (hbody : ∀ op ∈ p.body, op.traced? = none)
    (h : p.place.code.isTraced = false → trace = some p.place.pc) (k : Nat) :
    (lastTrace (p.ops.take (k + 1))).or trace = some p.place.pc := by
  have hrest : ∀ j, lastTrace (p.body.take j) = none := fun j =>
    lastTrace_eq_none fun op hop => hbody op (List.mem_of_mem_take hop)
  unfold Part.ops Part.trace
  cases htraced : p.place.code.isTraced with
  | true =>
    have hstored : lastTrace [.set Global.pcTrace p.place.pc] = some p.place.pc := rfl
    rw [if_pos rfl, List.singleton_append, List.take_succ_cons, ← List.singleton_append,
      lastTrace_append, hrest, hstored]
    rfl
  | false =>
    rw [if_neg Bool.false_ne_true, List.nil_append, hrest, h htraced]
    rfl

theorem Part.tracedFrom_owned (hbody : ∀ op ∈ p.body, op.traced? = none)
    (h : p.place.code.isTraced = false → trace = some p.place.pc) :
    TracedFrom trace p.owned := by
  intro k place op hk
  rw [Part.owned, List.getElem?_map] at hk
  obtain ⟨_, -, howner⟩ := Option.map_eq_some_iff.mp hk
  cases howner
  rw [Part.map_op_owned]
  exact Part.lastTrace_take hbody h k

/-- Behind an instruction its address is the one in force. -/
theorem Part.lastTrace_ops (hbody : ∀ op ∈ p.body, op.traced? = none)
    (h : p.place.code.isTraced = false → trace = some p.place.pc) :
    (lastTrace p.ops).or trace = some p.place.pc := by
  have htake := Part.lastTrace_take hbody h p.ops.length
  rwa [List.take_of_length_le (Nat.le_succ _)] at htake

/-- **Instructions one after the other**, each of them with its own address in force. -/
theorem tracedFrom_flatMap_owned {parts : List (Part isa)}
    (hbody : ∀ p ∈ parts, ∀ op ∈ p.body, op.traced? = none) {last : Option Place}
    (h : Accompanied last (parts.map Part.place)) (hlast : ∀ y, last = some y → trace = some y.pc) :
    TracedFrom trace (parts.flatMap Part.owned) := by
  induction parts generalizing last trace with
  | nil => exact tracedFrom_unowned trace []
  | cons p parts ih =>
    obtain ⟨hp, hparts⟩ := List.forall_mem_cons.mp hbody
    obtain ⟨hfirst, hrest⟩ := h
    -- without a store of its own, the instruction has that of the half in front of it
    have hcovered : p.place.code.isTraced = false → trace = some p.place.pc := by
      intro hnot
      obtain ⟨y, hy, hpc, -⟩ := hfirst hnot
      rw [hlast y hy, hpc]
    rw [List.flatMap_cons]
    refine (Part.tracedFrom_owned hp hcovered).append (ih hparts hrest ?_)
    rintro y hy
    obtain rfl := Option.some.inj hy
    rw [Part.map_op_owned]
    exact Part.lastTrace_ops hp hcovered

end Parts

/-! ## Packets -/

namespace LiftedPacket

variable {isa : InstructionSet}

/-- The instructions in the order in which they run. -/
def running (p : LiftedPacket isa) : List (Part isa) := p.order.filterMap (p.parts[·]?)

/-- **The operations of a packet with their owners.** -/
def owned (p : LiftedPacket isa) (n : TempId) : List OwnedOp :=
  unowned ([.packetStart p.pc] ++ primeOps (p.conditional.erase .pc))
    ++ p.running.flatMap Part.owned
    ++ unowned (epilogueOps (n + p.partTemps.length) (p.writes.erase .pc) p.loopEnd p.changesPc
        p.lastPc)

theorem flatMap_ops_running (p : LiftedPacket isa) :
    p.running.flatMap Part.ops = p.order.flatMap p.partOps := by
  unfold running
  induction p.order with
  | nil => rfl
  | cons i order ih =>
    rw [List.flatMap_cons, ← ih, List.filterMap_cons, partOps]
    cases p.parts[i]? <;> rfl

theorem map_op_owned (p : LiftedPacket isa) (n : TempId) :
    (p.owned n).map OwnedOp.op = p.ops n := by
  have hrunning : (p.running.flatMap Part.owned).map OwnedOp.op = p.order.flatMap p.partOps := by
    rw [← p.flatMap_ops_running, List.map_flatMap]
    simp only [Part.map_op_owned]
  rw [owned, List.map_append, List.map_append, map_op_unowned, map_op_unowned, hrunning]
  rfl

end LiftedPacket

namespace LiftedPacket.LiftedFrom

variable {p : LiftedPacket scalarCore} {fetch : Fetch} {done : List MicroOp} {temps : Array Temp}

theorem exists_executed_of_running (h : p.LiftedFrom fetch done temps) {part : Part scalarCore}
    (hpart : part ∈ p.running) : ∃ done' temps' writes',
      part.Executed p.pc p.after done' temps' writes' ∧ temps.size ≤ temps'.size := by
  obtain ⟨i, -, hi⟩ := List.mem_filterMap.mp hpart
  obtain ⟨done', temps', writes', hexec, hle, -⟩ :=
    h.parts.exists_executed (List.mem_of_getElem? hi)
  exact ⟨done', temps', writes', hexec, hle⟩

theorem map_place_running (h : p.LiftedFrom fetch done temps) :
    p.running.map Part.place = p.packet.arranged := by
  rw [running, List.map_filterMap, h.filterMap_order]

/-- **The operations of a packet**: each of an instruction has the address of the instruction stored
last, whatever was stored before the packet. -/
theorem tracedFrom_owned (h : p.LiftedFrom fetch done temps) (htemps : 130 ≤ temps.size)
    (n : TempId) (trace : Option Word) : TracedFrom trace (p.owned n) := by
  refine ((tracedFrom_unowned _ _).append ?_).append (tracedFrom_unowned _ _)
  have hplaces : Accompanied none (p.running.map Part.place) := by
    rw [h.map_place_running]
    exact p.packet.accompanied_arranged h.places none
  refine tracedFrom_flatMap_owned ?_ hplaces fun y hy => by cases hy
  intro part hpart op hop
  obtain ⟨done', temps', writes', hexec, hle⟩ := h.exists_executed_of_running hpart
  rw [hexec.eq_lowered.2.2.1] at hop
  exact Instruction.traced?_of_mem_lowered (Nat.le_trans htemps hle) hop

end LiftedPacket.LiftedFrom

/-! ## The words of instructions -/

/-- **The word of an instruction is at its address**: memory has a word there, and the instruction
is one of those in it. -/
def Place.StandsIn (x : Place) (fetch : Fetch) : Prop :=
  ∃ w extender here, fetch x.pc = some w ∧ wordPlaces w x.pc extender = some here ∧ x ∈ here

theorem of_mem_wordPlaces {w pc : Word} {extender : Option Word} {here : List Place}
    (h : wordPlaces w pc extender = some here) {x : Place} (hx : x ∈ here) :
    x.pc = pc ∧ (x.code = .whole w ∨ ∃ s, x.code = .half s) := by
  unfold wordPlaces at h
  split_ifs at h with hrole
  · obtain ⟨d, -, rfl⟩ := Option.map_eq_some_iff.mp h
    rcases List.mem_pair.mp hx with rfl | rfl
    · exact ⟨rfl, .inr ⟨d.upper, rfl⟩⟩
    · exact ⟨rfl, .inr ⟨d.lower, rfl⟩⟩
  · cases h
    obtain rfl := List.mem_singleton.mp hx
    exact ⟨rfl, .inl rfl⟩

theorem standsIn_of_mem_places {fetch : Fetch} {pc : Word} {pending : Option Word} {ws : List Word}
    {ps : List Place} (hwords : PacketWords fetch pc ws) (h : places pc pending ws = some ps)
    {x : Place} (hx : x ∈ ps) : x.StandsIn fetch := by
  induction ws generalizing pc pending ps with
  | nil => cases hwords
  | cons w ws ih =>
    have hfetch : fetch pc = some w := by cases hwords <;> assumption
    have hrest : ∀ pending ps, places (pc + 4) pending ws = some ps → x ∈ ps →
        x.StandsIn fetch := by
      intro pending ps hps hmem
      cases hwords with
      | last _ _ =>
        obtain ⟨-, rfl⟩ : pending = none ∧ [] = ps := by simpa [places] using hps
        cases hmem
      | more _ _ htail => exact ih htail hps hmem
    rw [places] at h
    split_ifs at h with hx' hpending
    · exact hrest _ _ h hx
    · obtain ⟨here, hhere, hmap⟩ := Option.bind_eq_some_iff.mp h
      obtain ⟨rest, htail, rfl⟩ := Option.map_eq_some_iff.mp hmap
      rcases List.mem_append.mp hx with hmem | hmem
      · obtain rfl := (of_mem_wordPlaces hhere hmem).1
        exact ⟨w, pending, here, hfetch, hhere, hmem⟩
      · exact hrest none rest htail hmem

/-- A trap is a whole word. -/
theorem Place.StandsIn.exists_trap {x : Place} {fetch : Fetch} (h : x.StandsIn fetch)
    {number : Byte} (htrap : x.instruction = .trap number) :
    x.code.isTraced = true ∧ ∃ w, fetch x.pc = some w ∧ Instruction.decode w = .trap number := by
  obtain ⟨w, extender, here, hfetch, hhere, hx⟩ := h
  rcases (of_mem_wordPlaces hhere hx).2 with hwhole | ⟨s, hhalf⟩
  · rw [Place.instruction, hwhole] at htrap
    rw [hwhole]
    exact ⟨rfl, w, hfetch, htrap⟩
  · rw [Place.instruction, hhalf] at htrap
    exact absurd htrap ((Instruction.of_decodeSub s.bits s.group).2 number)

/-! ## Calls of the trap handler -/

/-- **What stands in front of a call**: the address of its instruction is stored last, and then
nothing but the local that is handed over is set. -/
def CalledFrom (place : Place) (arguments : List TempId) (before : List MicroOp) : Prop :=
  ∃ (number : Byte) (n : Nat) (front : List MicroOp), place.instruction = .trap number ∧ 130 ≤ n ∧
    arguments = [n] ∧
    before = front ++ [.set Global.pcTrace place.pc, .set n (number.setWidth 32)]

/-- Each call of the trap handler belongs to an instruction, and stands behind its address. -/
def CallsFollow (l : List OwnedOp) : Prop :=
  ∀ before owner arguments rest, l = before ++ ⟨owner, .callTrap arguments⟩ :: rest →
    ∃ place, owner = some place ∧ CalledFrom place arguments (before.map OwnedOp.op)

theorem CallsFollow.append {l l' : List OwnedOp} (h : CallsFollow l) (h' : CallsFollow l') :
    CallsFollow (l ++ l') := by
  intro before owner arguments rest heq
  rcases List.append_eq_append_iff.mp heq with ⟨more, rfl, htail⟩ | ⟨more, rfl, htail⟩
  · obtain ⟨place, howner, number, n, front, htrap, hn, harguments, hbefore⟩ :=
      h' more owner arguments rest htail
    refine ⟨place, howner, number, n, l.map OwnedOp.op ++ front, htrap, hn, harguments, ?_⟩
    rw [List.map_append, hbefore, List.append_assoc]
  · cases more with
    | nil =>
      obtain ⟨place, howner, number, n, front, htrap, hn, harguments, hbefore⟩ :=
        h' [] owner arguments rest htail.symm
      simp at hbefore
    | cons x more =>
      obtain ⟨rfl, -⟩ := List.cons.inj htail
      exact h before owner arguments more rfl

theorem callsFollow_of_not_mem {l : List OwnedOp}
    (h : ∀ x ∈ l, ∀ arguments, x.op ≠ .callTrap arguments) : CallsFollow l := by
  rintro before owner arguments rest rfl
  exact absurd rfl (h ⟨owner, .callTrap arguments⟩ (by simp) arguments)

theorem callsFollow_unowned {ops : List MicroOp} (h : ops.all (!·.isCall) = true) :
    CallsFollow (unowned ops) := by
  refine callsFollow_of_not_mem fun x hx arguments hcall => ?_
  obtain ⟨op, hop, rfl⟩ := List.mem_map.mp hx
  have hnot := List.all_eq_true.mp h op hop
  rw [show op = .callTrap arguments from hcall] at hnot
  cases hnot

theorem Instruction.eq_trap_of_mem_lowered {i : Instruction} {site : Site} {n : TempId}
    {arguments : List TempId} (h : .callTrap arguments ∈ i.lowered site n) :
    ∃ number, i = .trap number := by
  cases i with
  | trap number => exact ⟨number, rfl⟩
  | _ => simp [lowered, predicateBitOps] at h

/-- **The operations of an instruction**: the only call is that of a trap. -/
theorem Part.callsFollow_owned {p : Part scalarCore} {packetPc nextPc : Word} {done : List MicroOp}
    {temps : Array Temp} {writes : RegisterSet} {fetch : Fetch}
    (h : p.Executed packetPc nextPc done temps writes) (htemps : 130 ≤ temps.size)
    (hplace : p.place.StandsIn fetch) : CallsFollow p.owned := by
  intro before owner arguments rest heq
  obtain ⟨-, -, hbody, -⟩ := h.eq_lowered
  have hops : p.ops = before.map OwnedOp.op ++ .callTrap arguments :: rest.map OwnedOp.op := by
    rw [← p.map_op_owned, heq, List.map_append, List.map_cons]
  have howner : owner = some p.place := by
    have hmem : (⟨owner, .callTrap arguments⟩ : OwnedOp) ∈ p.owned := by simp [heq]
    obtain ⟨_, -, hx⟩ := List.mem_map.mp hmem
    exact (congrArg OwnedOp.owner hx).symm
  refine ⟨p.place, howner, ?_⟩
  have hmem : .callTrap arguments ∈ p.place.instruction.lowered
      (p.place.site packetPc nextPc (writes.contains .p)) temps.size := by
    have hall : MicroOp.callTrap arguments ∈ p.ops := by simp [hops]
    rw [Part.ops, hbody] at hall
    rcases List.mem_append.mp hall with htrace | hlowered
    · unfold Part.trace at htrace
      split_ifs at htrace <;> simp at htrace
    · exact hlowered
  obtain ⟨number, htrap⟩ := Instruction.eq_trap_of_mem_lowered hmem
  refine ⟨number, temps.size, [], htrap, htemps, ?_⟩
  rw [Part.ops, hbody, htrap, Part.trace, (hplace.exists_trap htrap).1] at hops
  rcases hbefore : before.map OwnedOp.op with _ | ⟨a, _ | ⟨b, _ | ⟨c, tail⟩⟩⟩ <;>
    simp_all [Instruction.lowered]

/-! ## Blocks -/

/-- **Operations that keep track of where they run**: each has the address of its instruction stored
last, calls of the trap handler directly so, and the words of the instructions are in memory. -/
structure KeepsTrack (fetch : Fetch) (l : List OwnedOp) : Prop where
  traced : ∀ trace, TracedFrom trace l
  calls : CallsFollow l
  stands : ∀ x ∈ l, ∀ place, x.owner = some place → place.StandsIn fetch

namespace KeepsTrack

variable {fetch : Fetch} {l l' : List OwnedOp}

theorem append (h : KeepsTrack fetch l) (h' : KeepsTrack fetch l') :
    KeepsTrack fetch (l ++ l') where
  traced trace := (h.traced trace).append (h'.traced _)
  calls := h.calls.append h'.calls
  stands x hx := (List.mem_append.mp hx).elim (h.stands x) (h'.stands x)

theorem unowned {ops : List MicroOp} (h : ops.all (!·.isCall) = true) :
    KeepsTrack fetch (unowned ops) where
  traced trace := tracedFrom_unowned trace ops
  calls := callsFollow_unowned h
  stands x hx place hplace := by
    obtain ⟨op, -, rfl⟩ := List.mem_map.mp hx
    cases hplace

/-- **A call of the trap handler** belongs to a trap that is in memory. -/
theorem exists_trap_of_call (h : KeepsTrack fetch l) {before rest : List MicroOp}
    {arguments : List TempId} (hcall : l.map OwnedOp.op = before ++ .callTrap arguments :: rest) :
    ∃ place w number, l[before.length]? = some ⟨some place, .callTrap arguments⟩ ∧
      fetch place.pc = some w ∧ Instruction.decode w = .trap number ∧
      CalledFrom place arguments before := by
  obtain ⟨front, back, rfl, rfl, hback⟩ := List.map_eq_append_iff.mp hcall
  obtain ⟨⟨owner, op⟩, behind, rfl, hop, rfl⟩ := List.map_eq_cons_iff.mp hback
  obtain rfl : op = .callTrap arguments := hop
  obtain ⟨place, rfl, hcalled⟩ := h.calls front owner arguments behind rfl
  have hstands := h.stands ⟨some place, .callTrap arguments⟩ (by simp) place rfl
  have ⟨number, _, _, htrap, _⟩ := hcalled
  obtain ⟨-, w, hfetch, hdecode⟩ := hstands.exists_trap htrap
  exact ⟨place, w, number, by simp, hfetch, hdecode, hcalled⟩

end KeepsTrack

theorem not_isCall_primeOps (primed : RegisterSet) :
    (primeOps primed).all (!·.isCall) = true := by
  refine List.all_eq_true.mpr fun op hop => ?_
  obtain ⟨r, -, rfl⟩ := List.mem_map.mp hop
  rfl

theorem not_isCall_epilogueOps (n : TempId) (committed : RegisterSet) (loopEnd : Option LoopEnd)
    (changesPc : Bool) (lastPc : Word) :
    (epilogueOps n committed loopEnd changesPc lastPc).all (!·.isCall) = true := by
  have hcommit : (commitOps committed).all (!·.isCall) = true := by
    refine List.all_eq_true.mpr fun op hop => ?_
    rcases List.mem_append.mp hop with hop | hop <;>
      obtain ⟨r, -, rfl⟩ := List.mem_map.mp hop <;> rfl
  have hloop : (loopEnd.elim [] (loopOps n)).all (!·.isCall) = true := by
    rcases loopEnd with _ | _ | _ | _ <;> rfl
  have hpc : (if changesPc then pcOps (n + loopLocals loopEnd) lastPc else []).all (!·.isCall) =
      true := by
    cases changesPc <;> rfl
  rw [epilogueOps, List.all_append, List.all_append, hcommit, hloop, hpc]
  rfl

namespace LiftedPacket.LiftedFrom

variable {p : LiftedPacket scalarCore} {fetch : Fetch} {done : List MicroOp} {temps : Array Temp}

theorem standsIn_of_running (h : p.LiftedFrom fetch done temps) {part : Part scalarCore}
    (hpart : part ∈ p.running) : part.place.StandsIn fetch := by
  obtain ⟨i, -, hi⟩ := List.mem_filterMap.mp hpart
  exact standsIn_of_mem_places (window_eq_closed_iff.mp h.words).1 h.places
    (List.mem_map_of_mem (List.mem_of_getElem? hi))

theorem callsFollow_running (h : p.LiftedFrom fetch done temps) (htemps : 130 ≤ temps.size) :
    CallsFollow (p.running.flatMap Part.owned) := by
  have hall : ∀ part ∈ p.running, CallsFollow part.owned := by
    intro part hpart
    obtain ⟨done', temps', writes', hexec, hle⟩ := h.exists_executed_of_running hpart
    exact Part.callsFollow_owned hexec (Nat.le_trans htemps hle) (h.standsIn_of_running hpart)
  revert hall
  induction p.running with
  | nil => exact fun _ => callsFollow_of_not_mem fun x hx => by cases hx
  | cons part parts ih =>
    intro hall
    obtain ⟨hpart, hparts⟩ := List.forall_mem_cons.mp hall
    exact hpart.append (ih hparts)

/-- **The operations of a packet keep track of where they run.** -/
theorem keepsTrack_owned (h : p.LiftedFrom fetch done temps) (htemps : 130 ≤ temps.size)
    (n : TempId) : KeepsTrack fetch (p.owned n) where
  traced trace := h.tracedFrom_owned htemps n trace
  calls := by
    have hprime : ([MicroOp.packetStart p.pc] ++ primeOps (p.conditional.erase .pc)).all
        (!·.isCall) = true := not_isCall_primeOps _
    exact ((callsFollow_unowned hprime).append (h.callsFollow_running htemps)).append
      (callsFollow_unowned (not_isCall_epilogueOps _ _ _ _ _))
  stands x hx place hplace := by
    rcases List.mem_append.mp hx with hx | hx
    · rcases List.mem_append.mp hx with hx | hx
      · obtain ⟨op, -, rfl⟩ := List.mem_map.mp hx
        cases hplace
      · obtain ⟨part, hpart, hx⟩ := List.mem_flatMap.mp hx
        obtain ⟨op, -, rfl⟩ := List.mem_map.mp hx
        obtain rfl := Option.some.inj hplace
        exact h.standsIn_of_running hpart
    · obtain ⟨op, -, rfl⟩ := List.mem_map.mp hx
      cases hplace

end LiftedPacket.LiftedFrom

/-- **The operations of packets with their owners**, when there are `n` temporaries before them. -/
def packetsOwned {isa : InstructionSet} (n : TempId) : List (LiftedPacket isa) → List OwnedOp
  | [] => []
  | p :: rest => p.owned n ++ packetsOwned (n + p.temps.length) rest

theorem map_op_packetsOwned {isa : InstructionSet} (n : TempId)
    (packets : List (LiftedPacket isa)) :
    (packetsOwned n packets).map OwnedOp.op = packetsOps n packets := by
  induction packets generalizing n with
  | nil => rfl
  | cons p rest ih => rw [packetsOwned, List.map_append, p.map_op_owned, ih, packetsOps]

theorem PacketsFrom.keepsTrack_packetsOwned {fetch : Fetch} {budget : Nat} {pc after : Word}
    {done : List MicroOp} {temps : Array Temp} {packets : List (LiftedPacket scalarCore)}
    {exit : BlockExit} (h : PacketsFrom scalarCore fetch budget pc done temps packets after exit)
    (htemps : 130 ≤ temps.size) : KeepsTrack fetch (packetsOwned temps.size packets) := by
  induction h with
  | last p hlifted _ =>
    have hnil : KeepsTrack fetch (unowned []) := .unowned rfl
    exact (hlifted.keepsTrack_owned htemps _).append hnil
  | @cons budget done temps p rest after exit hlifted _ _ ih =>
    have hsize : (temps ++ p.temps.toArray).size = temps.size + p.temps.length := by simp
    rw [hsize] at ih
    exact (hlifted.keepsTrack_owned htemps _).append (ih (Nat.le_add_right_of_le htemps))

/-- **The operations of a block with their owners.** Leaving the block belongs to no instruction. -/
def blockOwned {isa : InstructionSet} (layout : Layout) (packets : List (LiftedPacket isa))
    (exit : BlockExit) (after : Word) : List OwnedOp :=
  packetsOwned (guestTemps layout).length packets ++ unowned (storeOps exit after ++ [.exitBlock])

theorem map_op_blockOwned {isa : InstructionSet} (layout : Layout)
    (packets : List (LiftedPacket isa)) (exit : BlockExit) (after : Word) :
    (blockOwned layout packets exit after).map OwnedOp.op =
      packetsOps (guestTemps layout).length packets ++ storeOps exit after ++ [.exitBlock] := by
  rw [blockOwned, List.map_append, map_op_packetsOwned, map_op_unowned, List.append_assoc]

/-- **The operations of a block keep track of where they run.** -/
theorem PacketsFrom.keepsTrack_blockOwned {fetch : Fetch} {layout : Layout} {budget : Nat}
    {pc after : Word} {done : List MicroOp} {packets : List (LiftedPacket scalarCore)}
    {exit : BlockExit} (h : PacketsFrom scalarCore fetch budget pc done
      (guestTemps layout).toArray packets after exit) :
    KeepsTrack fetch (blockOwned layout packets exit after) := by
  have hle : 130 ≤ (guestTemps layout).toArray.size :=
    Nat.le_of_eq (Layout.length_guestTemps layout).symm
  refine (h.keepsTrack_packetsOwned hle).append (.unowned ?_)
  unfold storeOps
  split_ifs <;> rfl

/-- Setting a local keeps the address that was stored before it. -/
theorem Machine.Fits.pcTrace_run {m : Machine} {layout : Layout} {temps : Array Temp}
    (h : m.Fits layout temps) (hbinds : layout.Binds temps)
    (hroom : layout.pcTrace / 4 < layout.size / 4) (address : Word) {n : Nat} (hn : 130 ≤ n)
    (x : Word) :
    (m.run temps [.set Global.pcTrace address, .set n x]).cpu.pcTrace = address := by
  obtain ⟨name, hglobal⟩ := hbinds.global (t := 129) (o := layout.pcTrace) rfl
  have hcell : layout.offset? (.of n) = none := by
    have hof : Cell.of n = .scratch n := by
      unfold Cell.of
      split_ifs <;> first | omega | rfl
    rw [hof]
    rfl
  have hlt : layout.pcTrace / 4 < m.cpu.words.size := h.cpu.size.symm ▸ hroom
  have hstored : (m.cpu.store layout.pcTrace address).pcTrace = address := by
    simp only [Cpu.pcTrace, Cpu.load, Cpu.store, h.cpu.layout]
    rw [Array.getD_eq_getD_getElem?, Array.getElem?_setIfInBounds_self_of_lt hlt]
    rfl
  have hlocal : ∀ m' : Machine, (m'.write temps n x).cpu = m'.cpu := by
    intro m'
    unfold Machine.write
    cases htemp : temps[n]? with
    | none => rfl
    | some temp =>
      obtain rfl := hbinds.scratch hcell temp htemp
      rfl
  have hfirst : (m.write temps Global.pcTrace address).cpu =
      m.cpu.store layout.pcTrace address := by
    simp only [Machine.write, Global.pcTrace, hglobal]
  show ((m.step temps (.set Global.pcTrace address)).step temps (.set n x)).cpu.pcTrace = _
  rw [Machine.step, Machine.effect, hlocal, Machine.step, Machine.effect, hfirst, hstored]

theorem CalledFrom.pcTrace_run {place : Place} {arguments : List TempId} {before : List MicroOp}
    (h : CalledFrom place arguments before) (hinner : ∀ op ∈ before, op ≠ .exitBlock) {m : Machine}
    {layout : Layout} {temps : Array Temp} (hfits : m.Fits layout temps)
    (hbinds : layout.Binds temps) (hroom : layout.pcTrace / 4 < layout.size / 4) :
    (m.run temps before).cpu.pcTrace = place.pc := by
  obtain ⟨number, n, front, -, hn, -, rfl⟩ := h
  rw [Machine.run_append fun op hop => hinner op (List.mem_append_left _ hop)]
  exact (hfits.run front).pcTrace_run hbinds hroom place.pc hn _

/-- What stands in front of something is not the last element. -/
theorem mem_of_append_cons_eq {α : Type} {before rest init : List α} {a b x : α}
    (h : before ++ a :: rest = init ++ [b]) (hx : x ∈ before) : x ∈ init := by
  rcases List.append_eq_append_iff.mp h with ⟨more, rfl, -⟩ | ⟨more, rfl, hlast⟩
  · exact List.mem_append_left more hx
  · cases more with
    | nil => simpa using hx
    | cons _ more => simp at hlast

/-- **Lifted code keeps track of the instruction that runs.** Each operation of an instruction has
the address of the instruction's word stored last, at or before it in the order in which the
operations run: the two halves of a duplex word share theirs, and no packet is reordered in a way
that changes this. Calls of the trap handler are made by traps only, and on every state with a word
for the address it is that of the trap's word when the call is made. -/
theorem liftBlock_traces_instructions (options : LiftOptions) (fetch : Fetch) (entry : Word)
    (block : Block) (s s' : Session Nat)
    (h : (liftBlock scalarCore options fetch entry).run s = (.ok block, s')) :
    ∃ packets : List (LiftedPacket scalarCore),
      PacketsFrom scalarCore fetch (options.maxPackets - 1) entry []
        (guestTemps options.layout).toArray packets block.after block.exit ∧
      block.packets = packets.map LiftedPacket.info ∧
      let owned := blockOwned options.layout packets block.exit block.after
      block.listing.ops = owned.map OwnedOp.op ∧
      (∀ (k : Nat) (place : Place) (op : MicroOp), owned[k]? = some ⟨some place, op⟩ →
        lastTrace (block.listing.ops.take (k + 1)) = some place.pc ∧ place.StandsIn fetch) ∧
      ∀ before arguments rest, block.listing.ops = before ++ .callTrap arguments :: rest →
        ∃ place w number, owned[before.length]? = some ⟨some place, .callTrap arguments⟩ ∧
          fetch place.pc = some w ∧ Instruction.decode w = .trap number ∧
          ∀ cpu : Cpu, cpu.Fits options.layout →
            options.layout.pcTrace / 4 < options.layout.size / 4 →
            let start := Machine.start block.listing.temps cpu
            let called := start.run block.listing.temps before
            start.run block.listing.temps block.listing.ops =
              called.run block.listing.temps (.callTrap arguments :: rest) ∧
            called.cpu.pcTrace = place.pc := by
  obtain ⟨packets, es, hfrom, hinfo, hrep, hops, htemps⟩ :=
    exists_packets_of_liftBlock onlyAppends_scalarCore h
  have hbinds : options.layout.Binds block.listing.temps := by
    rw [htemps]
    exact Layout.binds_guestTemps _ fun t ht => hfrom.eq_scratch ht
  have hkeeps : KeepsTrack fetch (blockOwned options.layout packets block.exit block.after) :=
    hfrom.keepsTrack_blockOwned
  have howned : block.listing.ops =
      (blockOwned options.layout packets block.exit block.after).map OwnedOp.op := by
    rw [map_op_blockOwned, hrep.ops_eq, hops]
  refine ⟨packets, hfrom, hinfo, howned, fun k place op hk => ⟨?_, ?_⟩, ?_⟩
  · have htrace := hkeeps.traced none k place op hk
    rwa [← howned, Option.or_none] at htrace
  · exact hkeeps.stands _ (List.mem_of_getElem? hk) place rfl
  · intro before arguments rest hcall
    obtain ⟨place, w, number, howner, hfetch, hdecode, hcalled⟩ :=
      hkeeps.exists_trap_of_call (howned.symm.trans hcall)
    refine ⟨place, w, number, howner, hfetch, hdecode, fun cpu hcpu hroom => ?_⟩
    -- the block is left behind its last operation only, so that the call is reached
    have hbefore : ∀ op ∈ before, op ≠ .exitBlock := by
      intro op hop
      rw [howned, map_op_blockOwned] at hcall
      rcases List.mem_append.mp (mem_of_append_cons_eq hcall.symm hop) with hop | hop
      · exact hfrom.ne_exitBlock hop
      · rintro rfl
        unfold storeOps at hop
        split_ifs at hop <;> simp at hop
    refine ⟨?_, hcalled.pcTrace_run hbefore (.start hcpu _) hbinds hroom⟩
    rw [hcall, Machine.run_append hbefore]

/-- A program of two packets. The first tests a predicate that it sets, so that its first
instruction runs last, behind the halves of the duplex word. The second calls the trap handler. -/
def reorderedDuplex : Fetch := fun address =>
  let words : List Word :=
    [0xFB006102, 0xF2004100, -- if (p0.new) r2 = add(r0, r1); p0 = cmp.eq(r0, r1)
      0x28913113, -- r1 = #9; r3 = add(r1, #1)
      0x5400C000] -- trap0(#0)
  if address &&& 3 = 0 then words[address.toNat / 4]? else none

theorem liftBlock_traces_instructions_reorderedDuplex :
    let cpu := Cpu.zeroed .packed
    ∃ (block : Block) (s' : Session Nat) (before : List MicroOp) (arguments : List TempId)
      (rest : List MicroOp), let start := Machine.start block.listing.temps cpu
      (liftBlock scalarCore { maxPackets := 2 } reorderedDuplex 0).run ⟨(0 : Nat), #[]⟩ =
        (.ok block, s') ∧
      block.packets.map (·.closing.order) = [[1, 2, 3, 0], [0]] ∧
      block.listing.ops = before ++ .callTrap arguments :: rest ∧ cpu.Fits .packed ∧
      (start.run block.listing.temps before).cpu.pcTrace = 12 := by
  intro cpu
  have hlift : ((liftBlock scalarCore { maxPackets := 2 } reorderedDuplex 0).run
      ⟨(0 : Nat), #[]⟩).1.toOption.map (fun b => (b.packets.map (·.closing.order),
        b.listing.ops[30]?, lastTrace (b.listing.ops.take 31))) =
      some ([[1, 2, 3, 0], [0]], some (.callTrap [135]), some 12) := by
    decide +kernel
  obtain ⟨block, s', h, hblock⟩ := Lift.exists_of_toOption hlift
  obtain ⟨horder, hcall, htrace⟩ : _ ∧ block.listing.ops[30]? = some (.callTrap [135]) ∧
      lastTrace (block.listing.ops.take 31) = some 12 := by simpa using hblock
  have hcpu : cpu.Fits .packed := ⟨by simp [cpu, Cpu.zeroed], rfl⟩
  obtain ⟨hlt, hget⟩ := List.getElem?_eq_some_iff.mp hcall
  have hops : block.listing.ops =
      block.listing.ops.take 30 ++ .callTrap [135] :: block.listing.ops.drop 31 := by
    rw [← hget, List.getElem_cons_drop, List.take_append_drop]
  obtain ⟨packets, -, -, -, hlast, hcalls⟩ := liftBlock_traces_instructions { maxPackets := 2 }
    reorderedDuplex 0 block ⟨(0 : Nat), #[]⟩ s' h
  obtain ⟨place, w, number, howner, -, -, hrun⟩ := hcalls _ _ _ hops
  have hplace : place.pc = 12 := by
    have hstored := (hlast _ place _ howner).1
    rw [List.length_take_of_le (Nat.le_of_lt hlt), htrace] at hstored
    exact (Option.some.inj hstored).symm
  refine ⟨block, s', _, _, _, h, horder, hops, hcpu, ?_⟩
  rw [← hplace]
  exact (hrun cpu hcpu (by decide)).2

end PacketLift
