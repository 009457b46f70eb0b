import PacketLift.Proofs.Block.Semantics

/-!
# Evaluating a block on a settled state

Between blocks nothing is staged and no branch is pending. On such a state a block does what its
packets do one after the other, and it leaves such a state. What a run of several blocks does then
follows from what single packets do to the registers.

## Main definitions

* `Cpu.Settled`: nothing is staged, and no branch is pending

## Main results

* `Packet.registers_execute`: registers behind a packet
* `Consecutive.exists_last`: the packets of a block up to the last of them
* `exists_core_of_run`: evaluating a block on a settled state
-/

namespace PacketLift

/-- **A settled state**: nothing is staged, and no branch is pending. -/
structure Cpu.Settled (cpu : Cpu) : Prop where
  staged (r : Register) : cpu.staged r = 0
  pcWritten : cpu.pcWritten = 0

/-! ## Packets -/

namespace Packet

variable {p : Packet} {m : Core} {slot : Fin 64}

/-- A register that no instruction of the packet writes keeps its value. -/
theorem committed_of_not_writes (h : p.writes.hasSlot slot.val = false) (before : RegisterFile) :
    p.committed before slot = before slot := by
  refine Result.applyAll_of_ne ?_ _
  rintro r hr rfl
  rw [(slot_of_mem_results hr).1] at h
  cases h

/-- **A register behind a packet** has its committed value, unless a loop counts it down. -/
theorem registers_execute (hpc : slot ≠ Register.pc.slot)
    (hcount : ∀ start count, p.loopEnd.bind (·.again? (p.committed m.registers)) =
      some (start, count) → slot ≠ count.slot) :
    (p.execute m).registers slot = p.committed m.registers slot := by
  rw [execute]
  cases hloop : p.loopEnd.bind (·.again? (p.committed m.registers)) with
  | none => exact Function.update_of_ne hpc _ _
  | some loop =>
    obtain ⟨start, count⟩ := loop
    exact (Function.update_of_ne hpc _ _).trans (Function.update_of_ne (hcount _ _ hloop) _ _)

end Packet

/-- **The packets of a block, up to the last of them**: the program comes to the last one with the
registers that the others do not write as they were. -/
theorem Consecutive.exists_last {fetch : Fetch} {pc : Word} {packets : List Packet}
    (h : Consecutive fetch pc packets) {m : Core} (hpc : m.pc = pc) :
    ∃ p before, packets.getLast? = some p ∧
      m.run fetch packets.length = some (p.execute before) ∧
      ∀ slot, slot ≠ Register.pc.slot → (∀ q ∈ packets, q.writes.hasSlot slot.val = false) →
        before.registers slot = m.registers slot := by
  induction h generalizing m with
  | last p hp => exact ⟨p, m, rfl, Core.run_succ hp hpc 0, fun _ _ _ => rfl⟩
  | @cons p rest hp hends hrest ih =>
    have hchanges : p.changesPc = false := (Bool.or_eq_false_iff.mp hends).1
    obtain ⟨hwrites, hloop⟩ : p.writes.contains .pc = false ∧ p.loopEnd = none := by
      simpa [Packet.changesPc] using hchanges
    have hnext : (p.execute m).pc = p.after := by
      simp [Packet.execute, hloop, Core.pc, p.target?_eq_none hwrites]
    obtain ⟨last, before, hlast, hrun, hkept⟩ := ih hnext
    refine ⟨last, before, ?_, (Core.run_succ hp hpc _).trans hrun, ?_⟩
    · rw [List.getLast?_cons, hlast]
      rfl
    · intro slot hslot hspared
      rw [hkept slot hslot fun q hq => hspared q (List.mem_cons_of_mem p hq),
        Packet.registers_execute hslot (by simp [hloop]),
        Packet.committed_of_not_writes (hspared p List.mem_cons_self)]

/-! ## The block -/

theorem Cpu.registers_core (cpu : Cpu) (entry : Word) {r : Register}
    (hr : r.slot ≠ Register.pc.slot) : (cpu.core entry).registers r.slot = cpu.register r :=
  (Function.update_of_ne hr _ _).trans (cpu.guest_live [] r)

/-- **Evaluating a block on a settled state** does what its packets do one after the other. The
state is settled behind it, and words that lifted code does not know stay as they are. -/
theorem exists_core_of_run {options : LiftOptions} {fetch : Fetch} {entry : Word} {block : Block}
    {s s' : Session Nat} (hsep : options.layout.Separate)
    (h : (liftBlock scalarCore options fetch entry).Gives s block s') :
    ∃ packets, Consecutive fetch entry packets ∧ block.packets = packets.map Packet.info ∧
      ∀ cpu : Cpu, cpu.Fits options.layout → cpu.Settled → ∃ m,
        (cpu.core entry).run fetch packets.length = some m ∧
        (∀ r, (block.listing.run cpu).2.register r = m.registers r.slot) ∧
        (block.listing.run cpu).2.Settled ∧ cpu.SameElsewhere (block.listing.run cpu).2 := by
  obtain ⟨packets, hpackets, hinfo, hrun⟩ := exists_packets_of_run hsep h
  have hconsecutive := consecutive_of_packetsAt? hpackets
  refine ⟨packets, hconsecutive, hinfo, ?_⟩
  intro cpu hcpu hsettled
  obtain ⟨-, hguest, helsewhere⟩ := hrun cpu hcpu
  have hentry : (cpu.core entry).pc = entry := by simp [Cpu.core, Core.pc]
  obtain ⟨-, m, hm, hshows, hpc⟩ := hconsecutive.shows_blockAct
    (Cpu.shows_core hsettled.staged hsettled.pcWritten entry) hentry
  rw [← hguest] at hshows hpc
  refine ⟨m, hm, ?_, ⟨?_, hshows.pcWritten⟩, helsewhere⟩
  · intro r
    rw [← Cpu.guest_live _ (block.listing.run cpu).1.traps]
    by_cases hslot : r.slot = Register.pc.slot
    · rw [hslot]
      exact hpc
    · exact hshows.registers hslot
  · intro r
    rw [← Cpu.guest_staged _ (block.listing.run cpu).1.traps, hshows.staged]

end PacketLift
