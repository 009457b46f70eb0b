import PacketLift.Block.Walk
import PacketLift.Proofs.Block.Lifting
import PacketLift.Proofs.Packet.Frame

/-!
# The budget of a block

How many packets go into a block is a matter of lifting alone. A run in blocks of one packet visits
the packets of a longer block in their order, and ends in the same state with the same traps. Inside
of the longer block the program counter is out of date, and its packets do not look at it; behind
each block of one packet it is stored, which is where the next one starts.

## Main results

* `exists_liftBlock_single`: a block of one packet
* `Consecutive.run_singles`: packets one after the other, each in its own block
* `liftBlock_run_eq_run_singles`: the budget makes no difference to what a block does
-/

namespace PacketLift

theorem Packet.aligned_after (p : Packet) : p.after &&& 3 = p.pc &&& 3 := by
  apply BitVec.eq_of_toNat_eq
  have hmask (x : Word) : (x &&& 3).toNat = x.toNat % 4 := by
    rw [BitVec.toNat_and]
    exact Nat.and_two_pow_sub_one_eq_mod x.toNat 2
  rw [hmask, hmask, after, BitVec.toNat_add, BitVec.toNat_mul, show (4 : Word).toNat = 4 from rfl]
  omega

/-- **A block of one packet** can be lifted wherever a packet is, and does what the packet does. -/
theorem exists_liftBlock_single {layout : Layout} (hsep : layout.Separate) {fetch : Fetch}
    {p : Packet} (hp : Packet.at? fetch p.pc = some p) (haligned : p.pc &&& 3 = 0)
    (s : Session Nat) :
    ∃ block s', (liftBlock scalarCore { maxPackets := 1, layout } fetch p.pc).Gives s block s' ∧
      block.packets = [p.info] ∧
      ∀ cpu : Cpu, cpu.Fits layout →
        (block.listing.run cpu).1.exited = true ∧
        (block.listing.run cpu).2.guest (block.listing.run cpu).1.traps =
          blockAct [p] (cpu.guest []) ∧
        cpu.SameElsewhere (block.listing.run cpu).2 := by
  have hpackets : packetsAt? fetch 0 p.pc = some [p] := by rw [packetsAt?, hp]; rfl
  have hlift : ∃ block s',
      (liftBlock scalarCore { maxPackets := 1, layout } fetch p.pc).Gives s block s' :=
    exists_liftBlock_iff.mpr ⟨haligned, Option.isSome_iff_exists.mpr ⟨[p], hpackets⟩⟩
  obtain ⟨block, s', hgives⟩ := hlift
  obtain ⟨packets, heq, hinfo, hrun⟩ := exists_packets_of_run hsep hgives
  obtain rfl := Option.some.inj (hpackets.symm.trans heq)
  exact ⟨block, s', hgives, hinfo, hrun⟩

theorem run_succ_of_gives {State : Type} {lift : Word → Lift State Block} {pc : Word}
    {s s' : Session State} {block : Block} (h : (lift pc).Gives s block s')
    (report : Executed → List Message) (limit : Nat) (cpu : Cpu) :
    ∃ t, run lift report (limit + 1) pc cpu s =
      let (outcome, after) := block.listing.run cpu
      let rest := run lift report limit after.pc after t
      { rest with blocks := { block, outcome, cpu := after } :: rest.blocks } := by
  have hlift : (lift pc).run s = (.ok block, s') := h
  rw [run, hlift]
  exact ⟨_, rfl⟩

/-- Guests that are alike differ in their traps only, behind a block of one packet. -/
theorem blockAct_singleton_of_alike {p : Packet} {earlier : List Word} {g g' : Guest}
    (h : g.Alike earlier g') :
    blockAct [p] g' = { blockAct [p] g with traps := earlier ++ (blockAct [p] g).traps } := by
  obtain ⟨halike, hpc⟩ := p.alike_act h
  rw [blockAct_singleton, blockAct_singleton]
  cases hchanges : p.changesPc with
  | true => exact halike.eq_of_live_pc (hpc hchanges)
  | false =>
    refine (halike.setPc p.after).eq_of_live_pc ?_
    rw [Guest.live_setPc, Guest.live_setPc]

/-- Traps that were caused since may count as earlier ones. -/
theorem Cpu.alike_of_guest {cpu : Cpu} {earlier traps : List Word} {g : Guest}
    (h : (cpu.guest traps).Alike earlier g) : (cpu.guest []).Alike (earlier ++ traps) g where
  live := h.live
  pc := h.pc
  staged := h.staged
  pcWritten := h.pcWritten
  pcTrace := h.pcTrace
  traps := h.traps.trans (List.append_nil _).symm

/-- **Packets one after the other, each in its own block.** The run starts in a state like that of
a guest inside of a longer block, and the traps so far are in `earlier`. -/
theorem Consecutive.run_singles {layout : Layout} (hsep : layout.Separate) {fetch : Fetch}
    {pc : Word} {packets : List Packet} (h : Consecutive fetch pc packets)
    (haligned : pc &&& 3 = 0) {cpu : Cpu} (hcpu : cpu.Fits layout) (hwritten : cpu.pcWritten = 0)
    {earlier : List Word} {g : Guest} (hg : (cpu.guest []).Alike earlier g)
    (report : Executed → List Message) (s : Session Nat) :
    let r := run (liftBlock scalarCore { maxPackets := 1, layout } fetch) report packets.length pc
      cpu s
    r.fault = none ∧ r.blocks.map (·.block.packets) = packets.map ([·.info]) ∧
      (∀ e ∈ r.blocks, e.outcome.exited = true) ∧ cpu.SameElsewhere r.cpu ∧
      r.cpu.guest (earlier ++ r.blocks.flatMap (·.outcome.traps)) = blockAct packets g := by
  induction h generalizing cpu earlier g s with
  | last p hp =>
    obtain ⟨block, s', hgives, hinfo, hblock⟩ := exists_liftBlock_single hsep hp haligned s
    obtain ⟨hexited, hguest, helsewhere⟩ := hblock cpu hcpu
    obtain ⟨t, hrun⟩ := run_succ_of_gives hgives report 0 cpu
    rcases hresult : block.listing.run cpu with ⟨outcome, after⟩
    simp only [hresult] at hexited hguest helsewhere hrun
    intro r
    have hr : r = _ := hrun
    rw [hr]
    refine ⟨rfl, ?_, ?_, helsewhere, ?_⟩
    · simp [run, hinfo]
    · simp [run, hexited]
    · rw [blockAct_singleton_of_alike hg, ← hguest]
      simp [run, Cpu.guest]
  | @cons p rest hp hends hrest ih =>
    have hchanges : p.changesPc = false := (Bool.or_eq_false_iff.mp hends).1
    obtain ⟨block, s', hgives, hinfo, hblock⟩ := exists_liftBlock_single hsep hp haligned s
    obtain ⟨hexited, hguest, helsewhere⟩ := hblock cpu hcpu
    obtain ⟨t, hrun⟩ := run_succ_of_gives hgives report rest.length cpu
    rcases hresult : block.listing.run cpu with ⟨outcome, after⟩
    simp only [hresult] at hexited hguest helsewhere hrun
    rw [blockAct_singleton, hchanges, if_neg (by simp)] at hguest
    have hactWritten : (p.act (cpu.guest [])).pcWritten = 0 :=
      (Packet.pcWritten_act hchanges _).trans hwritten
    -- the next block starts where the longer one goes on, with the program counter stored
    have hpc : after.pc = p.after := by
      rw [Cpu.pc, ← Cpu.guest_live _ outcome.traps, hguest, Guest.live_setPc]
    have hwritten' : after.pcWritten = 0 := (congrArg Guest.pcWritten hguest).trans hactWritten
    have halike : (after.guest []).Alike (earlier ++ outcome.traps) (p.act g) := by
      refine Cpu.alike_of_guest ?_
      rw [hguest]
      exact (p.alike_act hg).1.setPc_left hactWritten p.after
    obtain ⟨hfault, hpackets, hall, hrestElsewhere, hrestGuest⟩ :=
      ih (p.aligned_after.trans haligned) (hcpu.of_sameElsewhere helsewhere) hwritten' halike t
    rw [hpc] at hrun
    intro r
    have hr : r = _ := hrun
    rw [hr]
    refine ⟨hfault, ?_, ?_, helsewhere.trans hrestElsewhere, ?_⟩
    · rw [List.map_cons, List.map_cons, hpackets, hinfo]
    · simpa [hexited] using hall
    · rw [blockAct_cons p hrest.ne_nil, List.flatMap_cons, ← List.append_assoc]
      exact hrestGuest

/-- **The budget of a block cannot be observed.** Take any memory, entry and budget for which a
block can be lifted, any layout that keeps the words of the guest apart, as the packed one does, and
any CPU's state at the entry with no branch pending; staging words may hold anything. Then as many
blocks of one packet as the block has packets can be lifted and run one after the other, each where
the one before has left the program counter. They have the packets of the block, in order, and they
leave the same state and cause the same traps as the block. -/
theorem liftBlock_run_eq_run_singles (options : LiftOptions) (hsep : options.layout.Separate)
    (fetch : Fetch) (entry : Word) (block : Block) (s s' : Session Nat)
    (h : (liftBlock scalarCore options fetch entry).run s = (.ok block, s'))
    (cpu : Cpu) (hcpu : cpu.Fits options.layout) (hpc : cpu.pc = entry)
    (hwritten : cpu.pcWritten = 0) (report : Executed → List Message) (t : Session Nat) :
    let (outcome, after) := block.listing.run cpu
    let singles := run (liftBlock scalarCore { options with maxPackets := 1 } fetch) report
      block.packets.length cpu.pc cpu t
    singles.fault = none ∧ (∀ e ∈ singles.blocks, e.outcome.exited = true) ∧
      singles.blocks.map (·.block.packets) = block.packets.map ([·]) ∧
      singles.cpu = after ∧ singles.blocks.flatMap (·.outcome.traps) = outcome.traps := by
  obtain ⟨packets, hpackets, hinfo, hrun⟩ := exists_packets_of_run hsep h
  obtain ⟨hexited, hguest, helsewhere⟩ := hrun cpu hcpu
  have haligned : entry &&& 3 = 0 := (exists_liftBlock_iff.mp ⟨block, s', h⟩).1
  obtain ⟨hfault, hinfos, hall, hsinglesElsewhere, hsinglesGuest⟩ :=
    (consecutive_of_packetsAt? hpackets).run_singles hsep haligned hcpu hwritten (.refl _) report t
  rcases hresult : block.listing.run cpu with ⟨outcome, after⟩
  simp only [hresult] at hexited hguest helsewhere
  have hlength : block.packets.length = packets.length := by rw [hinfo, List.length_map]
  simp only [hlength, hpc]
  have hguests := hsinglesGuest.trans hguest.symm
  have htraps := congrArg Guest.traps hguests
  simp only [List.nil_append, Cpu.guest] at htraps
  refine ⟨hfault, hall, ?_, ?_, htraps⟩
  · rw [hinfos, hinfo, List.map_map]
    rfl
  · rw [List.nil_append, htraps] at hguests
    exact (hsinglesElsewhere.symm.trans helsewhere).eq_of_guest hguests

theorem liftBlock_run_eq_run_singles_fourPackets :
    let cpu := (((Cpu.zeroed .packed).setRegister (.general 0) 5).setRegister (.general 1)
      5).setStaged (.general 7) 9
    cpu.Fits .packed ∧ cpu.pc = 0 ∧ cpu.pcWritten = 0 ∧
    ∃ block s', (liftBlock scalarCore { maxPackets := 4 } fourPackets 0).run ⟨(0 : Nat), #[]⟩ =
        (.ok block, s') ∧ block.packets.map (·.pc) = [0, 8, 16, 20] ∧
      let (outcome, after) := block.listing.run cpu
      let singles := run (liftBlock scalarCore { maxPackets := 1 } fourPackets) (fun _ => []) 4 0
        cpu ⟨(0 : Nat), #[]⟩
      singles.fault = none ∧ (∀ e ∈ singles.blocks, e.outcome.exited = true) ∧
        singles.blocks.map (·.block.packets) = block.packets.map ([·]) ∧
        singles.cpu = after ∧ singles.blocks.flatMap (·.outcome.traps) = outcome.traps := by
  intro cpu
  have hcpu : cpu.Fits .packed :=
    ⟨by simp [cpu, Cpu.setRegister, Cpu.setStaged, Cpu.store, Cpu.zeroed], rfl⟩
  have hpc : cpu.pc = 0 := by decide +kernel
  have hwritten : cpu.pcWritten = 0 := by decide +kernel
  have hlift : ((liftBlock scalarCore { maxPackets := 4 } fourPackets 0).run
      ⟨(0 : Nat), #[]⟩).1.toOption.map (·.packets.map (·.pc)) = some [0, 8, 16, 20] := by
    decide +kernel
  obtain ⟨block, s', h, hpcs⟩ := Lift.exists_of_toOption hlift
  have hlength : block.packets.length = 4 := by
    rw [← List.length_map (f := (·.pc)), hpcs]
    rfl
  have hsingles := liftBlock_run_eq_run_singles { maxPackets := 4 } Layout.separate_packed
    fourPackets 0 block _ s' h cpu hcpu hpc hwritten (fun _ => []) ⟨(0 : Nat), #[]⟩
  refine ⟨hcpu, hpc, hwritten, block, s', h, hpcs, ?_⟩
  rwa [hlength, hpc] at hsingles

end PacketLift
