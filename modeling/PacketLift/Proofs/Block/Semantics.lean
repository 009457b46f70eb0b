import PacketLift.Proofs.Block.Lifting
import PacketLift.Proofs.Packet.Semantics

/-!
# Lifted blocks do what their packets mean

A block keeps the registers of the program in live words from packet to packet. It does not store
the program counter in between, since no packet inside of a block branches. At the end the
program counter is stored, and then the CPU's state shows what the packets mean, one after the
other.

## Main definitions

* `Cpu.core`: the state of the program at the entry of a block

## Main results

* `Consecutive.shows_blockAct`: the packets of a block, one after the other
* `liftBlock_run_eq_packet_meaning`: running a block on a CPU's state
-/

namespace PacketLift

/-- The state of the program in a CPU's state, when it is at `entry`. -/
def Cpu.core (cpu : Cpu) (entry : Word) : Core where
  registers := Function.update (fun slot => cpu.register (.ofSlot slot)) Register.pc.slot entry

/-! ## Packets one after the other -/

theorem Core.run_succ {fetch : Fetch} {p : Packet} {m : Core} (hp : Packet.at? fetch p.pc = some p)
    (hpc : m.pc = p.pc) (n : Nat) : run fetch (n + 1) m = run fetch n (p.execute m) := by
  rw [run, step, hpc, hp]
  rfl

theorem Guest.Shows.setPc {g : Guest} {m : Core} (h : g.Shows m) (x : Word) :
    (g.setPc x).Shows m where
  registers hslot := (Function.update_of_ne hslot _ _).trans (h.registers hslot)
  staged := h.staged
  pcWritten := h.pcWritten
  traps := h.traps

/-- **The packets of a block, one after the other**: the interpreter takes each of them in turn, and
behind the last of them the guest shows its state, program counter included. -/
theorem Consecutive.shows_blockAct {fetch : Fetch} {pc : Word} {packets : List Packet}
    (h : Consecutive fetch pc packets) {g : Guest} {m : Core} (hg : g.Shows m) (hpc : m.pc = pc) :
    (∀ k p, packets[k]? = some p → ∃ mk, m.run fetch k = some mk ∧ mk.pc = p.pc) ∧
    ∃ m', m.run fetch packets.length = some m' ∧ (blockAct packets g).Shows m' ∧
      (blockAct packets g).live Register.pc.slot = m'.pc := by
  induction h generalizing g m with
  | last p hp =>
    obtain ⟨hshows, hcounter⟩ := Packet.shows_act (p := p) hg
    refine ⟨fun k q hk => ?_, p.execute m, Core.run_succ hp hpc 0, ?_⟩
    · cases k with
      | zero =>
        obtain rfl : p = q := by simpa using hk
        exact ⟨m, rfl, hpc⟩
      | succ k => simp at hk
    · rw [blockAct_singleton]
      cases hchanges : p.changesPc with
      | true =>
        rw [hchanges, if_pos rfl] at hcounter
        exact ⟨hshows, hcounter⟩
      | false =>
        rw [hchanges, if_neg (by simp)] at hcounter
        exact ⟨hshows.setPc p.after, (Guest.live_setPc _ _).trans hcounter.symm⟩
  | @cons p rest hp hends hrest ih =>
    have hchanges : p.changesPc = false := (Bool.or_eq_false_iff.mp hends).1
    obtain ⟨hshows, hcounter⟩ := Packet.shows_act (p := p) hg
    -- only the interpreter has the program counter here, and it is where the next packet is
    rw [hchanges, if_neg (by simp)] at hcounter
    obtain ⟨hpcs, m', hrun, hshows', hpc'⟩ := ih hshows hcounter
    rw [blockAct_cons p hrest.ne_nil]
    refine ⟨fun k q hk => ?_, m', (Core.run_succ hp hpc _).trans hrun, hshows', hpc'⟩
    cases k with
    | zero =>
      obtain rfl : p = q := by simpa using hk
      exact ⟨m, rfl, hpc⟩
    | succ k =>
      obtain ⟨mk, hmk, hq⟩ := hpcs k q (by simpa using hk)
      exact ⟨mk, (Core.run_succ hp hpc k).trans hmk, hq⟩

/-! ## The block -/

theorem Cpu.shows_core {cpu : Cpu} (hstaged : ∀ r, cpu.staged r = 0) (hwritten : cpu.pcWritten = 0)
    (entry : Word) : (cpu.guest []).Shows (cpu.core entry) where
  registers hslot := (Function.update_of_ne hslot _ _).symm
  staged := funext fun slot => hstaged (.ofSlot slot)
  pcWritten := hwritten
  traps := rfl

/-- **A lifted block does what its packets mean.** Take any memory, entry and budget for which the
block can be lifted, and any CPU's state with nothing staged and no branch pending. Running the
block leaves it, and behind it the registers and the traps are those of the interpreter that takes
the packets of the block one after the other; nothing is staged, no branch is pending, and all words
that lifted code does not know stay as they are. -/
theorem liftBlock_run_eq_packet_meaning (fetch : Fetch) (maxPackets : Nat) (entry : Word)
    (block : Block) (s s' : Session Nat)
    (h : (liftBlock scalarCore { maxPackets, layout := .packed } fetch entry).run s =
      (.ok block, s'))
    (cpu : Cpu) (hcpu : cpu.Fits .packed) (hstaged : ∀ r, cpu.staged r = 0)
    (hwritten : cpu.pcWritten = 0) :
    let (outcome, after) := block.listing.run cpu
    (∀ k info, block.packets[k]? = some info →
      ∃ mk, (cpu.core entry).run fetch k = some mk ∧ mk.pc = info.pc) ∧
    ∃ m, (cpu.core entry).run fetch block.packets.length = some m ∧
      outcome.exited = true ∧ outcome.traps = m.traps ∧
      (∀ r, after.register r = m.registers r.slot) ∧ (∀ r, after.staged r = 0) ∧
      after.pcWritten = 0 ∧ cpu.SameElsewhere after := by
  obtain ⟨packets, hpackets, hinfo, hrun⟩ := exists_packets_of_run Layout.separate_packed h
  obtain ⟨hexited, hguest, helsewhere⟩ := hrun cpu hcpu
  rcases hresult : block.listing.run cpu with ⟨outcome, after⟩
  simp only [hresult] at hexited hguest helsewhere
  have hentry : (cpu.core entry).pc = entry := by simp [Cpu.core, Core.pc]
  obtain ⟨hpcs, m, hm, hshows, hpc⟩ := (consecutive_of_packetsAt? hpackets).shows_blockAct
    (Cpu.shows_core hstaged hwritten entry) hentry
  rw [← hguest] at hshows hpc
  refine ⟨fun k info hk => ?_, m, ?_, hexited, hshows.traps, fun r => ?_, fun r => ?_,
    hshows.pcWritten, helsewhere⟩
  · rw [hinfo, List.getElem?_map] at hk
    obtain ⟨p, hp, rfl⟩ := Option.map_eq_some_iff.mp hk
    exact hpcs k p hp
  · rw [hinfo, List.length_map]
    exact hm
  · rw [← Cpu.guest_live _ outcome.traps]
    by_cases hslot : r.slot = Register.pc.slot
    · rw [hslot]
      exact hpc
    · exact hshows.registers hslot
  · rw [← Cpu.guest_staged _ outcome.traps, hshows.staged]

theorem liftBlock_run_eq_packet_meaning_fourPackets :
    let cpu := (((Cpu.zeroed .packed).setRegister (.general 0) 5).setRegister (.general 1)
      5).setRegister (.general 3) 7
    cpu.Fits .packed ∧ (∀ r, cpu.staged r = 0) ∧ cpu.pcWritten = 0 ∧
    ∃ block s', (liftBlock scalarCore { maxPackets := 4, layout := .packed } fourPackets 0).run
        ⟨(0 : Nat), #[]⟩ = (.ok block, s') ∧
      let (outcome, after) := block.listing.run cpu
      outcome.exited = true ∧ outcome.traps = [12] ∧ after.register .p = 0xFF ∧
        after.register (.general 2) = 14 ∧ after.register (.general 3) = 20 ∧
        after.register .pc = 20 ∧ (∀ r, after.staged r = 0) ∧ after.pcWritten = 0 := by
  intro cpu
  have hcpu : cpu.Fits .packed := ⟨by simp [cpu, Cpu.setRegister, Cpu.store, Cpu.zeroed], rfl⟩
  have hslots : ∀ slot, (cpu.guest []).staged slot = 0 := by decide +kernel
  have hstaged : ∀ r, cpu.staged r = 0 := fun r =>
    (cpu.guest_staged [] r).symm.trans (hslots r.slot)
  have hwritten : cpu.pcWritten = 0 := by decide +kernel
  have hlift : ((liftBlock scalarCore { maxPackets := 4, layout := .packed } fourPackets 0).run
      ⟨(0 : Nat), #[]⟩).1.toOption.map (·.packets.length) = some 4 := by
    decide +kernel
  obtain ⟨block, s', h, hlength⟩ := Lift.exists_of_toOption hlift
  have hmeaning := liftBlock_run_eq_packet_meaning fourPackets 4 0 block _ s' h cpu hcpu hstaged
    hwritten
  have hcore : ((cpu.core 0).run fourPackets 4).map (fun m => (m.traps, m.registers Register.p.slot,
      m.registers (Register.general 2).slot, m.registers (Register.general 3).slot,
      m.registers Register.pc.slot)) = some ([12], 0xFF, 14, 20, 20) := by
    decide +kernel
  refine ⟨hcpu, hstaged, hwritten, block, s', h, ?_⟩
  rcases hresult : block.listing.run cpu with ⟨outcome, after⟩
  simp only [hresult] at hmeaning ⊢
  obtain ⟨-, m, hm, hexited, htraps, hregisters, hafter, hpending, -⟩ := hmeaning
  rw [hlength] at hm
  simp only [hm, Option.map_some, Option.some.injEq, Prod.mk.injEq] at hcore
  obtain ⟨hmTraps, hp, hr2, hr3, hpc⟩ := hcore
  simp only [hregisters, htraps]
  exact ⟨hexited, hmTraps, hp, hr2, hr3, hpc, hafter, hpending⟩

end PacketLift
