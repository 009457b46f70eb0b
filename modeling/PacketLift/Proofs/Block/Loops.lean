import PacketLift.Proofs.Block.Evaluation
import PacketLift.Proofs.Block.Tiling

/-!
# Hardware loops

The last packet of a loop's body counts down and jumps back, by a comparison of unsigned words and a
subtraction that no branch guards. A block that is such a body is evaluated once for each round, for
as long as the program counter is its entry. How often this happens is a matter of the count alone:
as often as it says, and once for the counts zero and one. One evaluation is a round, and the rounds
follow by induction on the count.

## Main definitions

* `LoopEnd.single?`: the registers of a single loop
* `Block.Spares`: no instruction of a block writes a register
* `Block.Repeats`: a block evaluated while the program counter is its entry
* `Block.Rounds`: the rounds of a loop

## Main results

* `Packet.execute_of_single`: the packet at the end of a single loop
* `Cpu.Loops.evaluate`, `Cpu.Loops.rounds`: one round, and all of them
* `loopBody_repeats_count_times`: how often the body of a loop is evaluated
-/

namespace PacketLift

/-- The start address and the count of a loop that ends alone. -/
def LoopEnd.single? : LoopEnd → Option (Register × Register)
  | .loop0 => some (.sa0, .lc0)
  | .loop1 => some (.sa1, .lc1)
  | .both => none

/-- **No instruction of a block writes a register**, in the packets that memory has for it. -/
def Block.Spares (block : Block) (fetch : Fetch) (r : Register) : Prop :=
  ∀ info ∈ block.packets, ∀ p, Packet.at? fetch info.pc = some p →
    ∀ x ∈ p.places, x.instruction.footprint.writes.contains r = false

/-- The state after a block was evaluated. -/
def Block.evaluate (block : Block) (cpu : Cpu) : Cpu := (block.listing.run cpu).2

/-- **A block evaluated while the program counter is its entry**: this happens the given number of
times, and the program counter is another address afterwards. -/
inductive Block.Repeats (block : Block) (entry : Word) : Nat → Cpu → Cpu → Prop where
  | stop {cpu : Cpu} : cpu.pc ≠ entry → Repeats block entry 0 cpu cpu
  | again {n : Nat} {cpu final : Cpu} : cpu.pc = entry →
      Repeats block entry n (block.evaluate cpu) final → Repeats block entry (n + 1) cpu final

/-! ## The packet at the end -/

namespace LoopEnd

variable {kind : LoopEnd} {start count : Register}

theorem again?_of_single? (h : kind.single? = some (start, count)) (registers : RegisterFile) :
    kind.again? registers = if 1 < registers count.slot then some (start, count) else none := by
  cases kind <;> cases h <;> rfl

theorem slots_of_single? (h : kind.single? = some (start, count)) :
    start.slot ≠ Register.pc.slot ∧ count.slot ≠ Register.pc.slot ∧ start.slot ≠ count.slot := by
  cases kind <;> cases h <;> decide

end LoopEnd

/-- **The packet at the end of a single loop**, when nothing in it writes the program counter or the
registers of the loop. With more than one round left it counts down and goes back to the start;
otherwise it goes on behind. -/
theorem Packet.execute_of_single {p : Packet} {m : Core} {kind : LoopEnd} {start count : Register}
    (hkind : p.loopEnd = some kind) (hsingle : kind.single? = some (start, count))
    (hpc : p.writes.contains .pc = false) (hstart : p.writes.contains start = false)
    (hcount : p.writes.contains count = false) :
    (p.execute m).registers start.slot = m.registers start.slot ∧
    if 1 < m.registers count.slot then
      (p.execute m).pc = m.registers start.slot ∧
        (p.execute m).registers count.slot = m.registers count.slot - 1
    else
      (p.execute m).pc = p.after ∧
        (p.execute m).registers count.slot = m.registers count.slot := by
  obtain ⟨hstartPc, hcountPc, hne⟩ := LoopEnd.slots_of_single? hsingle
  have hstart' := p.committed_of_not_writes hstart m.registers
  have hcount' := p.committed_of_not_writes hcount m.registers
  have hagain : p.loopEnd.bind (·.again? (p.committed m.registers)) =
      if 1 < m.registers count.slot then some (start, count) else none := by
    rw [hkind, Option.bind_some, LoopEnd.again?_of_single? hsingle, hcount']
  have htarget := p.target?_eq_none hpc m.registers
  split_ifs at hagain ⊢ with hmore
  · simp [execute, hagain, Core.pc, hstartPc, hcountPc, hne, hstart', hcount']
  · simp [execute, hagain, Core.pc, hstartPc, hcountPc, htarget, hstart', hcount']

/-! ## One round -/

/-- Packets that tile end where the last of them does. -/
theorem Tiles.getLast?_after {pc after : Word} {infos : List PacketInfo}
    (h : Tiles pc infos after) : infos.getLast?.map PacketInfo.after = some after := by
  induction h with
  | last info => rfl
  | cons info _ ih =>
    obtain ⟨last, hlast, hafter⟩ := Option.map_eq_some_iff.mp ih
    rw [List.getLast?_cons, hlast]
    exact congrArg some hafter

/-- A state in which the body of a loop can be evaluated: it is settled, and the loop starts at the
entry. -/
structure Cpu.Loops (cpu : Cpu) (layout : Layout) (start : Register) (entry : Word) : Prop where
  fits : cpu.Fits layout
  settled : cpu.Settled
  start : cpu.register start = entry

section Body

variable {options : LiftOptions} {fetch : Fetch} {entry : Word} {block : Block} {s s' : Session Nat}
  {kind : LoopEnd} {start count : Register} {cpu : Cpu}

/-- **One round**: the body of a loop is evaluated once. -/
theorem Cpu.Loops.evaluate (hcpu : cpu.Loops options.layout start entry)
    (hsep : options.layout.Separate)
    (h : (liftBlock scalarCore options fetch entry).Gives s block s')
    (hlast : block.packets.getLast?.bind (·.loopEnd) = some kind)
    (hsingle : kind.single? = some (start, count))
    (hspares : ∀ r ∈ [Register.pc, start, count], block.Spares fetch r) :
    (block.evaluate cpu).Loops options.layout start entry ∧
    if 1 < cpu.register count then
      (block.evaluate cpu).pc = entry ∧
        (block.evaluate cpu).register count = cpu.register count - 1
    else
      (block.evaluate cpu).pc = block.after ∧
        (block.evaluate cpu).register count = cpu.register count := by
  obtain ⟨packets, hconsecutive, hinfos, hrun⟩ := exists_core_of_run hsep h
  obtain ⟨m, hm, hregisters, hsettled, helsewhere⟩ := hrun cpu hcpu.fits hcpu.settled
  have hentry : (cpu.core entry).pc = entry := by simp [Cpu.core, Core.pc]
  obtain ⟨p, before, hp, hexecute, hkept⟩ := hconsecutive.exists_last hentry
  obtain rfl : m = p.execute before := Option.some.inj (hm.symm.trans hexecute)
  have hlastInfo : block.packets.getLast? = some p.info := by
    rw [hinfos, List.getLast?_map, hp]
    rfl
  have hkind : p.loopEnd = some kind := by
    rw [hlastInfo] at hlast
    exact hlast
  have hafter : p.after = block.after := by
    have htiles := (exists_tiles_of_liftBlock h).1.getLast?_after
    rw [hlastInfo] at htiles
    exact Option.some.inj htiles
  have hwrites : ∀ r ∈ [Register.pc, start, count], ∀ q ∈ packets,
      q.writes.contains r = false := by
    intro r hr q hq
    have hinfo : q.info ∈ block.packets := hinfos ▸ List.mem_map_of_mem hq
    rw [RegisterSet.contains, Packet.hasSlot_writes, List.any_eq_false]
    intro x hx
    simpa [RegisterSet.contains] using
      hspares r hr q.info hinfo q (hconsecutive.at?_of_mem hq) x hx
  have hmem : p ∈ packets := List.mem_of_getLast? hp
  obtain ⟨hstartPc, hcountPc, -⟩ := LoopEnd.slots_of_single? hsingle
  have hstart : before.registers start.slot = cpu.register start :=
    (hkept _ hstartPc (hwrites start (by simp))).trans (cpu.registers_core entry hstartPc)
  have hcount : before.registers count.slot = cpu.register count :=
    (hkept _ hcountPc (hwrites count (by simp))).trans (cpu.registers_core entry hcountPc)
  obtain ⟨hkeeps, hround⟩ := Packet.execute_of_single (m := before) hkind hsingle
    (hwrites .pc (by simp) p hmem) (hwrites start (by simp) p hmem)
    (hwrites count (by simp) p hmem)
  rw [hstart, hcount, hafter, hcpu.start] at hround
  have hpc : (block.evaluate cpu).pc = (p.execute before).pc := hregisters .pc
  refine ⟨⟨hcpu.fits.of_sameElsewhere helsewhere, hsettled, ?_⟩, ?_⟩
  · rw [Block.evaluate, hregisters, hkeeps, hstart, hcpu.start]
  · rw [hpc, Block.evaluate, hregisters]
    exact hround

/-! ## All rounds -/

/-- **The rounds of a loop** with a given count: the block is evaluated so often, and at least once.
Before each round the program is at the entry, and the count has gone down by the rounds so far. -/
structure Block.Rounds (block : Block) (entry : Word) (count : Register) (n : Nat) (cpu : Cpu) :
    Prop where
  repeats : block.Repeats entry (max n 1) cpu (block.evaluate^[max n 1] cpu)
  during : ∀ k < max n 1, (block.evaluate^[k] cpu).pc = entry ∧
    ((block.evaluate^[k] cpu).register count).toNat = n - k
  after : (block.evaluate^[max n 1] cpu).pc = block.after
  left : ((block.evaluate^[max n 1] cpu).register count).toNat = min n 1

/-- A round that ends the loop is the only one. -/
theorem Block.Rounds.last (hpc : cpu.pc = entry) (hafter : block.after ≠ entry)
    (hle : (cpu.register count).toNat ≤ 1) (hnext : (block.evaluate cpu).pc = block.after)
    (hkept : (block.evaluate cpu).register count = cpu.register count) :
    block.Rounds entry count (cpu.register count).toNat cpu := by
  have hmax : max (cpu.register count).toNat 1 = 1 := max_eq_right hle
  have hmin : min (cpu.register count).toNat 1 = (cpu.register count).toNat := min_eq_left hle
  refine ⟨?_, ?_, ?_, ?_⟩
  · rw [hmax]
    exact .again hpc (.stop (by rwa [hnext]))
  · intro k hk
    obtain rfl : k = 0 := by omega
    exact ⟨hpc, rfl⟩
  · rw [hmax]
    exact hnext
  · rw [hmax, hmin]
    exact congrArg BitVec.toNat hkept

/-- A round that counts down comes before the others. -/
theorem Block.Rounds.succ {n : Nat} (h : block.Rounds entry count (n + 1) (block.evaluate cpu))
    (hpc : cpu.pc = entry) (hcount : (cpu.register count).toNat = n + 2) :
    block.Rounds entry count (n + 2) cpu := by
  have hmax : max (n + 2) 1 = max (n + 1) 1 + 1 := by omega
  refine ⟨?_, ?_, ?_, ?_⟩
  · rw [hmax, Function.iterate_succ_apply]
    exact .again hpc h.repeats
  · intro k hk
    cases k with
    | zero => exact ⟨hpc, hcount⟩
    | succ k =>
      rw [Function.iterate_succ_apply]
      obtain ⟨hentry, hleft⟩ := h.during k (by omega)
      exact ⟨hentry, by rw [hleft]; omega⟩
  · rw [hmax, Function.iterate_succ_apply]
    exact h.after
  · rw [hmax, Function.iterate_succ_apply, h.left]
    omega

/-- **The body of a loop is evaluated once for each round.** -/
theorem Cpu.Loops.rounds (hcpu : cpu.Loops options.layout start entry)
    (hsep : options.layout.Separate)
    (h : (liftBlock scalarCore options fetch entry).Gives s block s')
    (hlast : block.packets.getLast?.bind (·.loopEnd) = some kind)
    (hsingle : kind.single? = some (start, count))
    (hspares : ∀ r ∈ [Register.pc, start, count], block.Spares fetch r)
    (hafter : block.after ≠ entry) (hpc : cpu.pc = entry) :
    block.Rounds entry count (cpu.register count).toNat cpu := by
  -- on the count: a round with more than one left is followed by one with one less
  induction hn : (cpu.register count).toNat using Nat.strong_induction_on generalizing cpu with
  | _ n ih =>
    subst hn
    obtain ⟨hnext, hround⟩ := hcpu.evaluate hsep h hlast hsingle hspares
    have hone : (1 : Word).toNat = 1 := rfl
    by_cases hmore : 1 < cpu.register count
    · rw [if_pos hmore] at hround
      rw [BitVec.lt_def, hone] at hmore
      obtain ⟨n, hn⟩ := Nat.exists_eq_add_of_lt hmore
      rw [Nat.add_comm 1 n] at hn
      have hless : ((block.evaluate cpu).register count).toNat = n + 1 := by
        rw [hround.2, BitVec.toNat_sub_of_le (by rw [BitVec.le_def, hone]; omega), hn]
        rfl
      rw [hn]
      exact (ih (n + 1) (by omega) hnext hround.1 hless).succ hpc hn
    · rw [if_neg hmore] at hround
      rw [BitVec.lt_def, hone] at hmore
      exact .last hpc hafter (by omega) hround.1 hround.2

end Body

/-- **How often the body of a loop is evaluated.** Take any memory, entry and options for which a
block can be lifted whose last packet ends a single loop, and which is not at its own end. Let no
instruction of it write the program counter or the registers of the loop, and let a settled state
have both the program counter and the start of the loop at the entry. Evaluated while the program
counter is the entry, the block is evaluated as often as the count says, and once if it is zero.
Until then each evaluation counts down by one; afterwards the program goes on behind the block, with
one round left if there was one. -/
theorem loopBody_repeats_count_times (options : LiftOptions) (hsep : options.layout.Separate)
    (fetch : Fetch) (entry : Word) (block : Block) (s s' : Session Nat)
    (h : (liftBlock scalarCore options fetch entry).run s = (.ok block, s'))
    (hafter : block.after ≠ entry) (kind : LoopEnd) (start count : Register)
    (hlast : block.packets.getLast?.bind (·.loopEnd) = some kind)
    (hsingle : kind.single? = some (start, count))
    (hspares : ∀ r ∈ [Register.pc, start, count], block.Spares fetch r) (cpu : Cpu)
    (hcpu : cpu.Fits options.layout) (hsettled : cpu.Settled) (hpc : cpu.pc = entry)
    (hstart : cpu.register start = entry) :
    let n := (cpu.register count).toNat
    block.Repeats entry (max n 1) cpu (block.evaluate^[max n 1] cpu) ∧
    (∀ k < max n 1, (block.evaluate^[k] cpu).pc = entry ∧
      ((block.evaluate^[k] cpu).register count).toNat = n - k) ∧
    (block.evaluate^[max n 1] cpu).pc = block.after ∧
    ((block.evaluate^[max n 1] cpu).register count).toNat = min n 1 := by
  have hloops : cpu.Loops options.layout start entry := ⟨hcpu, hsettled, hstart⟩
  have hrounds := hloops.rounds hsep h hlast hsingle hspares hafter hpc
  exact ⟨hrounds.repeats, hrounds.during, hrounds.after, hrounds.left⟩

/-- A program that sets up a loop and then has its body, a block of two packets. The second of them
ends the loop. -/
def countedLoop : Fetch := fun address =>
  let words : List Word :=
    [0x6000C008, -- loop0(start, r0)
      0xF301C201, -- start: r1 = add(r1, r2)
      0xB0038023, 0x7F00C000] -- r3 = add(r3, #1); nop, with the mark of the loop's end
  if address &&& 3 = 0 then words[address.toNat / 4]? else none

theorem loopBody_repeats_count_times_countedLoop :
    let cpu := (((Cpu.zeroed .packed).setPc 4).setRegister .sa0 4).setRegister .lc0 3
    cpu.Fits .packed ∧ cpu.Settled ∧ cpu.pc = 4 ∧ cpu.register .sa0 = 4 ∧
    ∃ block s', (liftBlock scalarCore {} countedLoop 4).run ⟨(0 : Nat), #[]⟩ = (.ok block, s') ∧
      block.after = 16 ∧ (∀ r ∈ [Register.pc, .sa0, .lc0], block.Spares countedLoop r) ∧
      block.Repeats 4 3 cpu (block.evaluate^[3] cpu) ∧
      (block.evaluate^[2] cpu).pc = 4 ∧ ((block.evaluate^[2] cpu).register .lc0).toNat = 1 ∧
      (block.evaluate^[3] cpu).pc = 16 ∧ ((block.evaluate^[3] cpu).register .lc0).toNat = 1 := by
  intro cpu
  have hcpu : cpu.Fits .packed := ⟨by simp [cpu, Cpu.setPc, Cpu.setRegister, Cpu.store, Cpu.zeroed],
    rfl⟩
  have hslots : ∀ slot, (cpu.guest []).staged slot = 0 := by decide +kernel
  have hsettled : cpu.Settled :=
    ⟨fun r => (cpu.guest_staged [] r).symm.trans (hslots r.slot), by decide +kernel⟩
  have hpc : cpu.pc = 4 := by decide +kernel
  have hstart : cpu.register .sa0 = 4 := by decide +kernel
  have hcount : (cpu.register .lc0).toNat = 3 := by decide +kernel
  have hlift : ((liftBlock scalarCore {} countedLoop 4).run ⟨(0 : Nat), #[]⟩).1.toOption.map
      (fun b => (b.packets.map (·.pc), b.packets.getLast?.bind (·.loopEnd), b.after)) =
        some ([4, 8], some .loop0, 16) := by
    decide +kernel
  obtain ⟨block, s', h, hblock⟩ := Lift.exists_of_toOption hlift
  obtain ⟨hpcs, hblock⟩ := Prod.mk.inj hblock
  obtain ⟨hlast, hafter⟩ := Prod.mk.inj hblock
  have hspares : ∀ r ∈ [Register.pc, .sa0, .lc0], block.Spares countedLoop r := by
    have hall : [Register.pc, .sa0, .lc0].all (fun r => ([4, 8] : List Word).all fun pc =>
        (Packet.at? countedLoop pc).toList.all fun p => p.places.all fun x =>
          !x.instruction.footprint.writes.contains r) = true := by
      decide +kernel
    intro r hr info hinfo p hp x hx
    have hinfoPc : info.pc ∈ ([4, 8] : List Word) := hpcs ▸ List.mem_map_of_mem hinfo
    simp only [List.all_eq_true, Bool.not_eq_true', Option.mem_toList] at hall
    exact hall r hr info.pc hinfoPc p hp x hx
  have hleaves : block.after ≠ 4 := by
    rw [hafter]
    decide
  obtain ⟨hrepeats, hduring, hend, hleft⟩ := loopBody_repeats_count_times {}
    Layout.separate_packed countedLoop 4 block _ s' h hleaves .loop0 .sa0 .lc0 hlast rfl hspares cpu
    hcpu hsettled hpc hstart
  simp only [hcount] at hrepeats hduring hend hleft
  obtain ⟨hpc₂, hcount₂⟩ := hduring 2 (by decide)
  exact ⟨hcpu, hsettled, hpc, hstart, block, s', h, hafter, hspares, hrepeats, hpc₂, hcount₂,
    hend.trans hafter, hleft⟩

end PacketLift
