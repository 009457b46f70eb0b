import PacketLift.Block.Walk
import PacketLift.Proofs.Block.Evaluation

/-!
# States that a run can reach

A run begins with all words zero and evaluates block after block, wherever the program leads. Much
of the CPU's state can never take any other form. A comparison sets all bits of a predicate alike,
so each byte of the predicate register is all zeros or all ones; no instruction writes the control
registers that belong to parts of the guest which are not modelled; and the system registers are
words that lifted code does not know. Each of these is shown for single results, and carried through
packets, blocks and runs of any length.

## Main definitions

* `WholeLanes`: every byte of a word is all zeros or all ones
* `Core.Orderly`, `Cpu.Orderly`: the form of states that can be reached

## Main results

* `Core.Orderly.execute`, `Core.Orderly.run`: packets keep the form
* `Cpu.Orderly.evaluate`: so do blocks
* `run_keeps_cpu_orderly`: every state that a run reaches has it
-/

namespace PacketLift

/-! ## Predicates -/

/-- **Every byte of a word is all zeros or all ones.** -/
def WholeLanes (w : Word) : Prop :=
  ∀ lane < 4, w.extractLsb' (8 * lane) 8 = 0 ∨ w.extractLsb' (8 * lane) 8 = 0xFF

/-- **Setting a predicate sets its whole byte**, and leaves the others alone. -/
theorem extractLsb'_replaceLane (w : Word) (predicate : Byte) (value : Bool) {lane : Nat}
    (hlane : lane < 4) :
    (replaceLane w predicate value).extractLsb' (8 * lane) 8 =
      if lane = (predicate &&& 3).toNat then if value then 0xFF else 0
      else w.extractLsb' (8 * lane) 8 := by
  apply BitVec.eq_of_getLsbD_eq
  intro k hk
  have hbyte : (8 * lane + k) / 8 = lane := by omega
  have hones : (0xFF : Byte) = BitVec.allOnes 8 := rfl
  rw [BitVec.getLsbD_extractLsb', getLsbD_replaceLane _ _ _ (by omega), hbyte]
  generalize (predicate &&& 3).toNat = j
  split_ifs with hj hvalue
  · rw [hvalue, hones, BitVec.getLsbD_allOnes, Bool.and_true]
  · simp [hvalue]
  · rw [BitVec.getLsbD_extractLsb']

theorem WholeLanes.replaceLane {w : Word} (h : WholeLanes w) (predicate : Byte) (value : Bool) :
    WholeLanes (replaceLane w predicate value) := by
  intro lane hlane
  rw [extractLsb'_replaceLane w predicate value hlane]
  split_ifs
  · exact .inr rfl
  · exact .inl rfl
  · exact h lane hlane

/-! ## Results -/

namespace Instruction

variable {i : Instruction}

/-- A result for the predicates sets whole bytes. -/
theorem wholeLanes_apply {site : Site} {before : RegisterFile} {newPredicates : Word} {r : Result}
    (hr : r ∈ i.results site before newPredicates) (hslot : r.register.slot = Register.p.slot)
    {x : Word} (hx : WholeLanes x) : WholeLanes (r.apply x) := by
  cases hi : i.isCompare with
  | false => exact absurd hslot ((slot_of_mem_results hr).2 hi)
  | true =>
    cases i with
    | compareEqual pd rs rt =>
      obtain rfl := List.mem_singleton.mp hr
      exact hx.replaceLane pd _
    | _ => cases hi

end Instruction

/-- The control registers that have a meaning: those of loops, the predicates and the program
counter. -/
def usedControls : List Register := [.sa0, .lc0, .sa1, .lc1, .p, .pc]

theorem Instruction.mem_usedControls_of_writes {i : Instruction} {slot : Fin 64}
    (h : i.footprint.writes.hasSlot slot.val = true) (hslot : 32 ≤ slot.val) :
    slot ∈ usedControls.map Register.slot := by
  have hgeneral (n : Byte) : slot.val ≠ (Register.general n).slot.val := by
    have hlt := Register.slot_general_lt n
    omega
  revert h
  cases i with
  | predicatedAdd rd rs rt pu invert dotNew =>
    cases dotNew <;> simp [footprint, Footprint.writes, hgeneral]
  | loopSetup which rs offset =>
    have hloop : loopRegisters which = (.sa0, .lc0) ∨ loopRegisters which = (.sa1, .lc1) := by
      unfold loopRegisters
      split_ifs <;> simp
    rcases hloop with hloop | hloop <;>
      simp +contextual [footprint, hloop, Footprint.writes, usedControls, Fin.val_inj, or_imp]
  | _ =>
    simp +contextual [footprint, Footprint.writes, usedControls, hgeneral, Fin.val_inj,
      Register.lr]

/-! ## Packets -/

/-- **The form of the registers that can be reached**: predicates have whole bytes, and control
registers without a meaning are zero. -/
structure Core.Orderly (m : Core) : Prop where
  predicates : WholeLanes (m.registers Register.p.slot)
  unused {slot : Fin 64} : 32 ≤ slot.val → slot ∉ usedControls.map Register.slot →
    m.registers slot = 0

theorem LoopEnd.count_of_again? {kind : LoopEnd} {registers : RegisterFile}
    {start count : Register} (h : kind.again? registers = some (start, count)) :
    count.slot ∈ [Register.lc0.slot, Register.lc1.slot] := by
  cases kind <;> simp only [again?] at h <;> split_ifs at h <;> cases h <;> decide

/-- A register that is no loop count has its committed value behind a packet. -/
theorem Packet.registers_execute_of_notMem {p : Packet} {m : Core} {slot : Fin 64}
    (hpc : slot ≠ Register.pc.slot) (hcount : slot ∉ [Register.lc0.slot, Register.lc1.slot]) :
    (p.execute m).registers slot = p.committed m.registers slot := by
  refine registers_execute hpc ?_
  rintro start count hloop rfl
  obtain ⟨kind, -, hagain⟩ := Option.bind_eq_some_iff.mp hloop
  exact hcount (LoopEnd.count_of_again? hagain)

/-- **A packet keeps the form of the registers.** -/
theorem Core.Orderly.execute {m : Core} (h : m.Orderly) (p : Packet) : (p.execute m).Orderly where
  predicates := by
    rw [Packet.registers_execute_of_notMem (by decide) (by decide)]
    refine Result.applyAll_of_forall ?_ h.predicates
    intro r hr hslot x hx
    obtain ⟨place, -, hr⟩ := List.mem_flatMap.mp hr
    exact Instruction.wholeLanes_apply hr hslot hx
  unused {slot} hslot hunused := by
    have hne : ∀ r ∈ usedControls, slot ≠ r.slot := by
      rintro r hr rfl
      exact hunused (List.mem_map_of_mem hr)
    have hwrites : p.writes.hasSlot slot.val = false := by
      rw [Packet.hasSlot_writes, List.any_eq_false]
      intro x _ hwritten
      exact hunused (Instruction.mem_usedControls_of_writes hwritten hslot)
    rw [Packet.registers_execute_of_notMem (hne .pc (by simp [usedControls])),
      Packet.committed_of_not_writes hwrites]
    · exact h.unused hslot hunused
    · simp [hne .lc0 (by simp [usedControls]), hne .lc1 (by simp [usedControls])]

/-- **So do packets one after the other.** -/
theorem Core.Orderly.run {fetch : Fetch} {n : Nat} {m m' : Core} (h : m.Orderly)
    (hrun : m.run fetch n = some m') : m'.Orderly := by
  induction n generalizing m with
  | zero =>
    obtain rfl := Option.some.inj hrun
    exact h
  | succ n ih =>
    obtain ⟨next, hstep, hrest⟩ := Option.bind_eq_some_iff.mp hrun
    obtain ⟨p, -, rfl⟩ := Option.map_eq_some_iff.mp hstep
    exact ih (h.execute p) hrest

/-! ## Blocks -/

/-- **The form of the CPU's states that can be reached**: nothing is staged and no branch is
pending, predicates have whole bytes, and control registers without a meaning and system registers
are zero. -/
structure Cpu.Orderly (cpu : Cpu) : Prop extends cpu.Settled where
  predicates : WholeLanes (cpu.register .p)
  unused (n : Byte) : (Register.control n).slot ∉ usedControls.map Register.slot →
    cpu.register (.control n) = 0
  system (i : Nat) : i < 64 → cpu.load (cpu.layout.system + 4 * i) = 0

theorem Register.exists_control_of_le {slot : Fin 64} (h : 32 ≤ slot.val) :
    ∃ n, (control n).slot = slot := by
  refine ⟨BitVec.ofNat 8 (slot.val - 32), Fin.ext ?_⟩
  simp only [Register.slot, BitVec.toNat_ofNat]
  omega

theorem Cpu.Orderly.core {cpu : Cpu} (h : cpu.Orderly) (entry : Word) :
    (cpu.core entry).Orderly where
  predicates := by
    rw [cpu.registers_core entry (by decide)]
    exact h.predicates
  unused {slot} hslot hunused := by
    obtain ⟨n, rfl⟩ := Register.exists_control_of_le hslot
    have hpc : (Register.control n).slot ≠ Register.pc.slot := by
      intro heq
      exact hunused (heq ▸ List.mem_map_of_mem (by simp [usedControls]))
    rw [cpu.registers_core entry hpc]
    exact h.unused n hunused

/-- System registers are no words of the guest. -/
theorem Layout.word?_packed_ne_system {i : Nat} (hi : i < 64) (c : Cell) :
    packed.word? c ≠ some (64 + i) := by
  rw [word?_packed]
  cases c <;> simp only [ne_eq, Option.some.injEq, reduceCtorEq, not_false_eq_true] <;> omega

/-- Behind a block, system registers are as they were. -/
theorem Cpu.SameElsewhere.load_system {cpu cpu' : Cpu} (h : cpu.SameElsewhere cpu')
    (hcpu : cpu.Fits .packed) {i : Nat} (hi : i < 64) :
    cpu'.load (cpu'.layout.system + 4 * i) = cpu.load (cpu.layout.system + 4 * i) := by
  have hindex : (Layout.packed.system + 4 * i) / 4 = 64 + i := by
    simp only [Layout.packed]
    omega
  have hword : cpu'.words[64 + i]? = cpu.words[64 + i]? := by
    apply h.words
    rw [hcpu.layout]
    exact Layout.word?_packed_ne_system hi
  rw [h.layout, hcpu.layout, load, load, hindex, Array.getD_eq_getD_getElem?,
    Array.getD_eq_getD_getElem?, hword]

/-- **A block keeps the form of the state.** -/
theorem Cpu.Orderly.evaluate {fetch : Fetch} {maxPackets : Nat} {entry : Word} {block : Block}
    {s s' : Session Nat} {cpu : Cpu} (h : cpu.Orderly) (hcpu : cpu.Fits .packed)
    (hlift : (liftBlock scalarCore { maxPackets, layout := .packed } fetch entry).Gives s block
      s') :
    (block.listing.run cpu).2.Orderly ∧ (block.listing.run cpu).2.Fits .packed := by
  obtain ⟨packets, -, -, hrun⟩ := exists_core_of_run Layout.separate_packed hlift
  obtain ⟨m, hm, hregisters, hsettled, helsewhere⟩ := hrun cpu hcpu h.toSettled
  have horderly : m.Orderly := (h.core entry).run hm
  refine ⟨⟨hsettled, ?_, ?_, ?_⟩, hcpu.of_sameElsewhere helsewhere⟩
  · rw [hregisters]
    exact horderly.predicates
  · intro n hunused
    rw [hregisters]
    exact horderly.unused (Nat.le_add_right 32 _) hunused
  · intro i hi
    rw [helsewhere.load_system hcpu hi]
    exact h.system i hi

/-! ## Runs -/

/-- In the state that a run starts with, all words are zero but that of the program counter, the
word with number 41. -/
theorem Cpu.load_setPc_zeroed (entry : Word) {offset : Nat} (h : offset / 4 ≠ 41) :
    ((zeroed .packed).setPc entry).load offset = 0 := by
  have hpc : Layout.packed.live .pc / 4 = 41 := rfl
  simp only [load, setPc, setRegister, store, zeroed]
  rw [hpc, Array.getD_eq_getD_getElem?, Array.getElem?_setIfInBounds_ne h.symm,
    Array.getElem?_replicate]
  split_ifs <;> rfl

/-- **The state that a run starts with.** -/
theorem Cpu.orderly_setPc_zeroed (entry : Word) : ((zeroed .packed).setPc entry).Orderly where
  staged r := by
    apply load_setPc_zeroed
    cases r <;> simp only [Layout.staged, zeroed, setPc, setRegister, store, Layout.packed] <;>
      omega
  pcWritten := load_setPc_zeroed entry (show Layout.packed.pcWritten / 4 ≠ 41 by decide)
  predicates := by
    have hzero : ((zeroed .packed).setPc entry).register .p = 0 :=
      load_setPc_zeroed entry (show Layout.packed.live .p / 4 ≠ 41 by decide)
    rw [hzero]
    intro lane _
    exact .inl (by simp)
  unused n hunused := by
    apply load_setPc_zeroed
    intro hpc
    refine hunused (List.mem_map.mpr ⟨.pc, by simp [usedControls], Fin.ext ?_⟩)
    simp only [Layout.live, zeroed, setPc, setRegister, store, Layout.packed] at hpc
    show 32 + 9 = 32 + n.toNat % 32
    omega
  system i hi := by
    apply load_setPc_zeroed
    simp only [zeroed, setPc, setRegister, store, Layout.packed]
    omega

/-- **A run from an orderly state** only reaches orderly states. -/
theorem Cpu.Orderly.forall_run {fetch : Fetch} {maxPackets : Nat}
    {report : Executed → List Message} {limit : Nat} {pc : Word} {cpu : Cpu} (h : cpu.Orderly)
    (hcpu : cpu.Fits .packed) {session : Session scalarCore.State} {r : Run scalarCore.State}
    (hr : run (liftReporting scalarCore { maxPackets, layout := .packed } fetch) report limit pc
      cpu session = r) :
    r.cpu.Orderly ∧ ∀ e ∈ r.blocks, e.cpu.Orderly := by
  induction limit generalizing pc cpu session r with
  | zero =>
    subst hr
    exact ⟨h, List.forall_mem_nil _⟩
  | succ limit ih =>
    rw [run] at hr
    rcases hlift : (liftReporting scalarCore { maxPackets, layout := .packed } fetch pc).run session
      with ⟨fault | block, t⟩
    · rw [hlift] at hr
      subst hr
      exact ⟨h, List.forall_mem_nil _⟩
    · rw [hlift] at hr
      subst hr
      obtain ⟨horderly, hfits⟩ := h.evaluate hcpu (gives_liftBlock_of_liftReporting hlift)
      obtain ⟨hlast, hblocks⟩ := ih horderly hfits rfl
      exact ⟨hlast, List.forall_mem_cons.mpr ⟨horderly, hblocks⟩⟩

/-- **Every state that a run of the scalar core reaches is orderly**, for any memory, entry, budget
and number of blocks. A run starts with all words zero but the program counter; it lifts the block
there, evaluates it and goes on where that leads, until a block cannot be lifted. Behind each of its
blocks, every byte of the predicate register is all zeros or all ones, the system registers and all
control registers but those of loops, predicates and the program counter are zero, nothing is staged
and no branch is pending. -/
theorem run_keeps_cpu_orderly (fetch : Fetch) (entry : Word) (maxPackets limit : Nat)
    (report : Executed → List Message) (session : Session Nat) :
    let r := run (liftReporting scalarCore { maxPackets, layout := .packed } fetch) report limit
      entry ((Cpu.zeroed .packed).setPc entry) session
    r.cpu.Orderly ∧ ∀ e ∈ r.blocks, e.cpu.Orderly := by
  have hfits : ((Cpu.zeroed .packed).setPc entry).Fits .packed :=
    ⟨by simp [Cpu.setPc, Cpu.setRegister, Cpu.store, Cpu.zeroed], rfl⟩
  exact (Cpu.orderly_setPc_zeroed entry).forall_run hfits rfl

theorem run_keeps_cpu_orderly_fourPackets :
    let r := run (liftReporting scalarCore { maxPackets := 8, layout := .packed } fourPackets)
      (fun _ => []) 3 0 ((Cpu.zeroed .packed).setPc 0) ⟨(0 : Nat), #[]⟩
    r.blocks.map (fun e => (e.cpu.pc, e.cpu.register .p)) = [(20, 0xFF), (20, 0xFF), (20, 0xFF)] ∧
      r.cpu.Orderly ∧ ∀ e ∈ r.blocks, e.cpu.Orderly := by
  intro r
  have hblocks : r.blocks.map (fun e => (e.cpu.pc, e.cpu.register .p)) =
      [(20, 0xFF), (20, 0xFF), (20, 0xFF)] := by
    decide +kernel
  exact ⟨hblocks, run_keeps_cpu_orderly fourPackets 0 8 3 (fun _ => []) ⟨(0 : Nat), #[]⟩⟩

end PacketLift
