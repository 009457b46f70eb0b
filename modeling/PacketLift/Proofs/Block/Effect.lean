import PacketLift.Proofs.Block.Layout
import PacketLift.Proofs.Packet.Effect

/-!
# What a block of the scalar core does

Which packets a block of the scalar core has depends on memory and the budget alone. The operations
of each act on the guest: priming, the instructions in their order, the epilogue. A block acts as
its packets do, one after the other, and stores the address behind it unless the last of them may
have branched. Running the block on a CPU's state does just that.

## Main definitions

* `Packet.endsBlock`, `Packet.info`: what lifting a block has to know about a packet
* `packetsAt?`: the packets of the block at an address
* `blockAct`: what a block does to the guest

## Main results

* `LiftedPacket.LiftedFrom.acts_ops`: the operations of a packet act as the packet
* `exists_packets_of_run`: a block on a CPU's state
-/

namespace PacketLift

namespace Packet

/-- Whether a block ends with the packet. -/
def endsBlock (p : Packet) : Bool := p.changesPc || hasTrapMark p.words

/-- The order in which the instructions run, as places in program order. -/
def order (p : Packet) : List Nat := (schedule p.footprints p.writes p.pc).toOption.getD []

/-- What is told about the packet when it is lifted. -/
def info (p : Packet) : PacketInfo where
  pc := p.pc
  words := p.words.length
  instructions := p.places.length
  loopEnd := p.loopEnd
  closing :=
    { order := p.order, changesPc := p.changesPc, committed := p.writes.erase .pc
      primed := p.conditional.erase .pc }

end Packet

/-- **The packets of the block at an address**, with a budget for those behind the first. -/
def packetsAt? (fetch : Fetch) : Nat → Word → Option (List Packet)
  | 0, pc => (Packet.at? fetch pc).map ([·])
  | budget + 1, pc =>
    (Packet.at? fetch pc).bind fun p =>
      if p.endsBlock then some [p] else (packetsAt? fetch budget p.after).map (p :: ·)

/-- **Packets one behind the other in memory**, none of which ends a block but perhaps the last. -/
inductive Consecutive (fetch : Fetch) : Word → List Packet → Prop where
  | last (p : Packet) : Packet.at? fetch p.pc = some p → Consecutive fetch p.pc [p]
  | cons (p : Packet) {rest : List Packet} : Packet.at? fetch p.pc = some p →
      p.endsBlock = false → Consecutive fetch p.after rest → Consecutive fetch p.pc (p :: rest)

/-- **What a block does to the guest.** -/
def blockAct (packets : List Packet) (g : Guest) : Guest :=
  let g := packets.foldl (fun g p => p.act g) g
  packets.getLast?.elim g fun p => if p.changesPc then g else g.setPc p.after

theorem consecutive_of_packetsAt? {fetch : Fetch} {budget : Nat} {pc : Word}
    {packets : List Packet} (h : packetsAt? fetch budget pc = some packets) :
    Consecutive fetch pc packets := by
  induction budget generalizing pc packets with
  | zero =>
    obtain ⟨p, hp, rfl⟩ := Option.map_eq_some_iff.mp h
    obtain rfl := (Packet.at?_eq_some_iff.mp hp).1
    exact .last p hp
  | succ budget ih =>
    obtain ⟨p, hp, hrest⟩ := Option.bind_eq_some_iff.mp h
    obtain rfl := (Packet.at?_eq_some_iff.mp hp).1
    cases hends : p.endsBlock with
    | true =>
      rw [hends, if_pos rfl] at hrest
      obtain rfl := Option.some.inj hrest
      exact .last p hp
    | false =>
      rw [hends, if_neg (by simp)] at hrest
      obtain ⟨rest, hpackets, rfl⟩ := Option.map_eq_some_iff.mp hrest
      exact .cons p hp hends (ih hpackets)

theorem Consecutive.ne_nil {fetch : Fetch} {pc : Word} {packets : List Packet}
    (h : Consecutive fetch pc packets) : packets ≠ [] := by
  cases h <;> simp

theorem Consecutive.at?_of_mem {fetch : Fetch} {pc : Word} {packets : List Packet}
    (h : Consecutive fetch pc packets) {p : Packet} (hp : p ∈ packets) :
    Packet.at? fetch p.pc = some p := by
  induction h with
  | last q hq =>
    obtain rfl := List.mem_singleton.mp hp
    exact hq
  | cons q hq _ _ ih =>
    rcases List.mem_cons.mp hp with rfl | hrest
    · exact hq
    · exact ih hrest

theorem blockAct_singleton (p : Packet) (g : Guest) :
    blockAct [p] g = if p.changesPc then p.act g else (p.act g).setPc p.after := rfl

theorem blockAct_cons (p : Packet) {rest : List Packet} (h : rest ≠ []) (g : Guest) :
    blockAct (p :: rest) g = blockAct rest (p.act g) := by
  obtain ⟨q, rest, rfl⟩ := List.exists_cons_of_ne_nil h
  rw [blockAct, List.getLast?_cons_cons]
  rfl

/-! ## Parts -/

section Parts

variable {packetPc nextPc : Word} {done : List MicroOp} {temps : Array Temp}
  {writes : RegisterSet} {parts : List (Part scalarCore)} {p : Part scalarCore}

/-- Instructions do not look at whether predicates were written before. -/
theorem Instruction.act_site (i : Instruction) (x : Place) (packetPc nextPc : Word)
    (predicatesWritten : Bool) :
    i.act (x.site packetPc nextPc predicatesWritten) = i.act (x.site packetPc nextPc false) := by
  cases i <;> rfl

theorem Part.Executed.acts_ops (h : p.Executed packetPc nextPc done temps writes)
    (htemps : 130 ≤ temps.size) :
    Acts p.ops (Place.act (·.site packetPc nextPc false) · p.place) := by
  obtain ⟨-, -, hbody, -⟩ := h.eq_lowered
  have htrace : Acts p.trace fun g =>
      if p.place.code.isTraced then { g with pcTrace := p.place.pc } else g := by
    unfold Part.trace
    cases p.place.code.isTraced with
    | false => exact Acts.nil
    | true => exact fun v => by simp [Values.eval]
  rw [Part.ops, hbody]
  refine (htrace.append (Instruction.acts_lowered _ _ htemps)).congr fun g => ?_
  rw [Function.comp_apply, Instruction.act_site]
  rfl

theorem Part.Executed.writesBelow_ops (h : p.Executed packetPc nextPc done temps writes)
    (htemps : 130 ≤ temps.size) : WritesBelow (temps.size + p.temps.length) p.ops := by
  obtain ⟨-, -, hbody, hlocals⟩ := h.eq_lowered
  rw [Part.ops, hbody, hlocals, List.length_replicate]
  refine WritesBelow.append ?_ (Instruction.writesBelow_lowered _ _ htemps)
  unfold Part.trace
  split_ifs
  · simp (disch := omega) [WritesBelow, MicroOp.output?, WritesBelow.pcTrace_lt]
  · simp [WritesBelow]

/-- The footprints of the parts are those of the instructions. -/
theorem Parts.map_footprint_eq (h : Parts scalarCore packetPc nextPc done temps writes parts) :
    parts.map Part.footprint = (parts.map Part.place).map (·.instruction.footprint) := by
  rw [List.map_map]
  refine List.map_congr_left fun p hp => ?_
  obtain ⟨_, _, _, hexec, -⟩ := h.exists_executed hp
  exact hexec.eq_lowered.2.1

theorem Parts.eq_scratch (h : Parts scalarCore packetPc nextPc done temps writes parts)
    {t : Temp} (ht : t ∈ parts.flatMap Part.temps) : t = .scratch := by
  obtain ⟨p, hp, ht⟩ := List.mem_flatMap.mp ht
  obtain ⟨_, _, _, hexec, -⟩ := h.exists_executed hp
  rw [hexec.eq_lowered.2.2.2] at ht
  exact List.eq_of_mem_replicate ht

end Parts

/-! ## Packets -/

/-- The packet that was lifted. -/
def LiftedPacket.packet {isa : InstructionSet} (p : LiftedPacket isa) : Packet :=
  ⟨p.pc, p.words, p.parts.map Part.place⟩

namespace LiftedPacket.LiftedFrom

variable {p : LiftedPacket scalarCore} {fetch : Fetch} {done : List MicroOp} {temps : Array Temp}

theorem at?_eq (h : p.LiftedFrom fetch done temps) : Packet.at? fetch p.pc = some p.packet := by
  have hroom : (p.parts.map Part.place).length ≤ Roster.capacity := by simpa using h.room
  exact Packet.at?_eq_some_iff.mpr ⟨rfl, h.words, h.places, hroom⟩

theorem footprints_eq (h : p.LiftedFrom fetch done temps) : p.footprints = p.packet.footprints :=
  h.parts.map_footprint_eq

theorem writes_eq (h : p.LiftedFrom fetch done temps) : p.writes = p.packet.writes := by
  rw [writes, h.footprints_eq, Packet.writes]

theorem conditional_eq (h : p.LiftedFrom fetch done temps) :
    p.conditional = p.packet.conditional := by
  rw [conditional, h.footprints_eq, Packet.conditional]

theorem changesPc_eq (h : p.LiftedFrom fetch done temps) : p.changesPc = p.packet.changesPc := by
  rw [changesPc, h.writes_eq, Packet.changesPc]
  rfl

theorem info_eq (h : p.LiftedFrom fetch done temps) : p.info = p.packet.info := by
  have horder : p.packet.order = p.order := by
    rw [Packet.order, ← h.footprints_eq, ← h.writes_eq]
    exact congrArg (fun e => e.toOption.getD []) h.order
  have hlength : p.packet.places.length = p.parts.length := by simp [packet]
  rw [info, Packet.info, horder, hlength, h.changesPc_eq, h.writes_eq, h.conditional_eq]
  rfl

theorem isSome_exit?_eq (h : p.LiftedFrom fetch done temps) :
    p.exit?.isSome = p.packet.endsBlock := by
  rw [exit?, h.changesPc_eq, Packet.endsBlock]
  cases p.packet.changesPc with
  | true => rfl
  | false =>
    show (if hasTrapMark p.words then some BlockExit.trap else none).isSome = hasTrapMark p.words
    cases hasTrapMark p.words <;> rfl

theorem getD_exit?_eq_branch_iff (h : p.LiftedFrom fetch done temps) :
    p.exit?.getD .budget = .branch ↔ p.packet.changesPc = true := by
  rw [exit?, h.changesPc_eq]
  cases p.packet.changesPc <;> cases hasTrapMark p.words <;> simp

theorem filterMap_order (h : p.LiftedFrom fetch done temps) :
    p.order.filterMap (fun i => p.parts[i]?.map Part.place) = p.packet.arranged := by
  obtain ⟨order, hschedule, harranged⟩ := p.packet.exists_schedule
  have horder := h.order
  rw [h.footprints_eq, h.writes_eq] at horder
  obtain rfl := Except.ok.inj (hschedule.symm.trans horder)
  rw [← harranged]
  simp only [packet, List.getElem?_map]

theorem lastPc_add_four (h : p.LiftedFrom fetch done temps) : p.lastPc + 4 = p.after := by
  obtain ⟨w, ws, hcons⟩ :=
    List.exists_cons_of_length_pos (window_eq_closed_iff.mp h.words).1.length_pos
  rw [lastPc, after, hcons, List.length_cons, Nat.add_sub_cancel, BitVec.ofNat_add, BitVec.mul_add,
    ← BitVec.add_assoc]
  rfl

/-- **The operations of a packet act as the packet.** -/
theorem acts_ops (h : p.LiftedFrom fetch done temps) (htemps : 130 ≤ temps.size) :
    Acts (p.ops temps.size) p.packet.act := by
  have hstart : Acts [.packetStart p.pc] id := fun _ => rfl
  -- the ranges stand in the order that was found, and that is the arranged one
  have hrunning : Acts (p.order.flatMap p.partOps) fun g =>
      p.packet.arranged.foldl (Place.act p.packet.site) g := by
    rw [← h.filterMap_order]
    refine Acts.filterMap fun i _ => ?_
    unfold partOps
    cases hpart : p.parts[i]? with
    | none => exact Acts.nil
    | some part =>
      obtain ⟨_, _, _, hexec, hle, -⟩ := h.parts.exists_executed (List.mem_of_getElem? hpart)
      exact hexec.acts_ops (Nat.le_trans htemps hle)
  have hepilogue := acts_epilogueOps (p.writes.erase .pc) p.loopEnd p.changesPc p.lastPc
    (Nat.le_add_right_of_le (k := p.partTemps.length) htemps)
  rw [h.lastPc_add_four] at hepilogue
  refine (((hstart.append (acts_primeOps _)).append hrunning).append hepilogue).congr fun g => ?_
  rw [h.conditional_eq, h.writes_eq, h.changesPc_eq]
  rfl

theorem writesBelow_ops (h : p.LiftedFrom fetch done temps) (htemps : 130 ≤ temps.size) :
    WritesBelow (temps.size + p.temps.length) (p.ops temps.size) := by
  have hlength : p.temps.length =
      p.partTemps.length + epilogueLocals p.loopEnd p.changesPc := by simp [LiftedPacket.temps]
  have hparts : WritesBelow (temps.size + p.partTemps.length) (p.order.flatMap p.partOps) := by
    intro op hop
    obtain ⟨i, -, hop⟩ := List.mem_flatMap.mp hop
    unfold partOps at hop
    cases hpart : p.parts[i]? with
    | none => simp [hpart] at hop
    | some part =>
      rw [hpart] at hop
      obtain ⟨_, _, _, hexec, hle, hle'⟩ := h.parts.exists_executed (List.mem_of_getElem? hpart)
      exact (hexec.writesBelow_ops (Nat.le_trans htemps hle)).mono hle' op hop
  have hstart : WritesBelow (temps.size + p.temps.length) [.packetStart p.pc] := by
    simp [WritesBelow, MicroOp.output?]
  rw [hlength] at hstart ⊢
  refine ((hstart.append ((writesBelow_primeOps _ htemps).mono (by omega))).append
    (hparts.mono (by omega))).append ?_
  rw [← Nat.add_assoc]
  exact writesBelow_epilogueOps _ _ _ _ (Nat.le_add_right_of_le htemps)

theorem eq_scratch (h : p.LiftedFrom fetch done temps) {t : Temp} (ht : t ∈ p.temps) :
    t = .scratch := by
  rcases List.mem_append.mp ht with ht | ht
  · exact h.parts.eq_scratch ht
  · exact List.eq_of_mem_replicate ht

end LiftedPacket.LiftedFrom

/-! ## Blocks -/

namespace PacketsFrom

variable {fetch : Fetch} {budget : Nat} {pc after : Word} {done : List MicroOp} {temps : Array Temp}
  {packets : List (LiftedPacket scalarCore)} {exit : BlockExit}

/-- **The packets of a block are those that memory has.** -/
theorem packetsAt?_eq (h : PacketsFrom scalarCore fetch budget pc done temps packets after exit) :
    packetsAt? fetch budget pc = some (packets.map LiftedPacket.packet) := by
  induction h with
  | @last budget done temps p hlifted hbudget =>
    cases budget with
    | zero =>
      rw [packetsAt?, hlifted.at?_eq]
      rfl
    | succ budget =>
      have hends : p.packet.endsBlock = true := by
        rw [← hlifted.isSome_exit?_eq, Option.isSome_iff_ne_none]
        exact fun hnone => absurd (hbudget hnone) (Nat.succ_ne_zero budget)
      rw [packetsAt?, hlifted.at?_eq, Option.bind_some, if_pos hends]
      rfl
  | @cons budget done temps p rest after exit hlifted hexit _ ih =>
    have hends : p.packet.endsBlock = false := by rw [← hlifted.isSome_exit?_eq, hexit]; rfl
    have hafter : p.packet.after = p.after := rfl
    rw [packetsAt?, hlifted.at?_eq, Option.bind_some, hends, hafter, ih]
    rfl

/-- The last packet tells where the block ends, and whether it ends in a branch. -/
theorem exists_getLast? (h : PacketsFrom scalarCore fetch budget pc done temps packets after exit) :
    ∃ p, (packets.map LiftedPacket.packet).getLast? = some p ∧ p.after = after ∧
      (exit = .branch ↔ p.changesPc = true) := by
  induction h with
  | last p hlifted _ => exact ⟨p.packet, rfl, rfl, hlifted.getD_exit?_eq_branch_iff⟩
  | cons p _ _ _ ih =>
    obtain ⟨q, hlast, hafter, hexit⟩ := ih
    refine ⟨q, ?_, hafter, hexit⟩
    rw [List.map_cons, List.getLast?_cons, hlast]
    rfl

theorem map_info_eq (h : PacketsFrom scalarCore fetch budget pc done temps packets after exit) :
    packets.map LiftedPacket.info = (packets.map LiftedPacket.packet).map Packet.info := by
  induction h with
  | last p hlifted _ => simp [hlifted.info_eq]
  | cons p hlifted _ _ ih => simp [hlifted.info_eq, ih]

theorem acts_packetsOps (h : PacketsFrom scalarCore fetch budget pc done temps packets after exit)
    (htemps : 130 ≤ temps.size) :
    Acts (packetsOps temps.size packets) fun g =>
      (packets.map LiftedPacket.packet).foldl (fun g p => p.act g) g := by
  induction h with
  | last p hlifted _ => exact (hlifted.acts_ops htemps).append Acts.nil
  | @cons budget done temps p rest after exit hlifted _ _ ih =>
    have hsize : (temps ++ p.temps.toArray).size = temps.size + p.temps.length := by simp
    rw [hsize] at ih
    exact (hlifted.acts_ops htemps).append (ih (Nat.le_add_right_of_le htemps))

theorem writesBelow_packetsOps
    (h : PacketsFrom scalarCore fetch budget pc done temps packets after exit)
    (htemps : 130 ≤ temps.size) :
    WritesBelow (temps.size + (packets.flatMap LiftedPacket.temps).length)
      (packetsOps temps.size packets) := by
  induction h with
  | last p hlifted _ => simpa [packetsOps] using hlifted.writesBelow_ops htemps
  | @cons budget done temps p rest after exit hlifted _ _ ih =>
    have hsize : (temps ++ p.temps.toArray).size = temps.size + p.temps.length := by simp
    rw [hsize] at ih
    rw [List.flatMap_cons, List.length_append, ← Nat.add_assoc]
    exact ((hlifted.writesBelow_ops htemps).mono (Nat.le_add_right _ _)).append
      (ih (Nat.le_add_right_of_le htemps))

theorem eq_scratch (h : PacketsFrom scalarCore fetch budget pc done temps packets after exit)
    {t : Temp} (ht : t ∈ packets.flatMap LiftedPacket.temps) : t = .scratch := by
  induction h with
  | last p hlifted _ => exact hlifted.eq_scratch (by simpa using ht)
  | cons p hlifted _ _ ih =>
    rcases List.mem_append.mp ht with ht | ht
    · exact hlifted.eq_scratch ht
    · exact ih ht

theorem ne_exitBlock (h : PacketsFrom scalarCore fetch budget pc done temps packets after exit)
    {n : TempId} {op : MicroOp} (hop : op ∈ packetsOps n packets) : op ≠ .exitBlock := by
  rintro rfl
  have hmem : MicroOp.exitBlock ∈ (packetsOps n packets).filter (fun op => !op.isInner) :=
    List.mem_filter.mpr ⟨hop, rfl⟩
  rw [h.filter_packetsOps] at hmem
  simp at hmem

end PacketsFrom

theorem acts_storeOps (exit : BlockExit) (after : Word) :
    Acts (storeOps exit after) fun g => if exit = .branch then g else g.setPc after := by
  intro v
  unfold storeOps
  split_ifs
  · rfl
  · simp [Values.eval, Guest.setPc]

theorem writesBelow_storeOps (exit : BlockExit) (after : Word) {n : Nat} (hn : 130 ≤ n) :
    WritesBelow n (storeOps exit after) := by
  unfold storeOps
  split_ifs
  · simp [WritesBelow]
  · simp (disch := omega) [WritesBelow, MicroOp.output?, WritesBelow.pc_lt]

/-- **A block on a CPU's state**: it is left, the guest becomes what its packets make of it, and all
other words stay as they are. -/
theorem exists_packets_of_run {options : LiftOptions} (hsep : options.layout.Separate)
    {fetch : Fetch} {entry : Word} {block : Block} {s s' : Session Nat}
    (h : (liftBlock scalarCore options fetch entry).Gives s block s') :
    ∃ packets, packetsAt? fetch (options.maxPackets - 1) entry = some packets ∧
      block.packets = packets.map Packet.info ∧
      ∀ cpu : Cpu, cpu.Fits options.layout →
        (block.listing.run cpu).1.exited = true ∧
        (block.listing.run cpu).2.guest (block.listing.run cpu).1.traps =
          blockAct packets (cpu.guest []) ∧
        cpu.SameElsewhere (block.listing.run cpu).2 := by
  obtain ⟨packets, es, hfrom, hinfo, hrep, hops, htemps⟩ :=
    exists_packets_of_liftBlock onlyAppends_scalarCore h
  refine ⟨packets.map LiftedPacket.packet, hfrom.packetsAt?_eq, hinfo.trans hfrom.map_info_eq,
    fun cpu hcpu => ?_⟩
  have hle : 130 ≤ (guestTemps options.layout).toArray.size :=
    Nat.le_of_eq (Layout.length_guestTemps _).symm
  have hcount : 130 ≤ block.listing.temps.size := by
    rw [htemps, Array.size_append]
    exact Nat.le_add_right_of_le hle
  have hall : block.listing.ops = packetsOps (guestTemps options.layout).toArray.size packets
      ++ storeOps block.exit block.after ++ [.exitBlock] := by
    rw [hrep.ops_eq, hops]
    rfl
  have hbelow : WritesBelow block.listing.temps.size
      (packetsOps (guestTemps options.layout).toArray.size packets) := by
    rw [htemps, Array.size_append]
    exact hfrom.writesBelow_packetsOps hle
  have hacts : Acts (packetsOps (guestTemps options.layout).toArray.size packets
      ++ storeOps block.exit block.after) (blockAct (packets.map LiftedPacket.packet)) := by
    refine ((hfrom.acts_packetsOps hle).append (acts_storeOps _ _)).congr fun g => ?_
    obtain ⟨p, hlast, hafter, hexit⟩ := hfrom.exists_getLast?
    simp only [blockAct, hlast, Option.elim_some, Function.comp_apply, hexit, hafter]
  refine Listing.run_of_acts hsep ?_ hall ?_ (hbelow.append (writesBelow_storeOps _ _ hcount))
    hacts hcpu
  · rw [htemps]
    exact Layout.binds_guestTemps _ fun t ht => hfrom.eq_scratch ht
  · intro op hop
    rcases List.mem_append.mp hop with hop | hop
    · exact hfrom.ne_exitBlock hop
    · unfold storeOps at hop
      split_ifs at hop
      · cases hop
      · obtain rfl := List.mem_singleton.mp hop
        simp

end PacketLift
