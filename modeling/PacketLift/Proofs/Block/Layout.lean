import PacketLift.Proofs.Block.Steps
import PacketLift.Proofs.Instruction.Emission

/-!
# The operations of a block

A block's listing is built by appending, and then by moving operations within the packet that is
being closed. What comes out is the concatenation of the packets' operations in address order, each
in the form that `LiftedPacket.ops` gives, with the exit at the end.

## Main definitions

* `PacketsFrom`: packets lifted one behind the other, until one of them ends the block
* `packetsOps`: their operations

## Main results

* `exists_packets_of_liftBlock`: the packets of a block, and its listing
* `exists_liftedFrom_of_mem_packets`: where the operations of a packet stand
* `liftBlock_ops_eq_concatenation`: the operations of a block for any instruction set that only
  appends
-/

namespace PacketLift

variable {isa : InstructionSet}

/-- **Packets one behind the other**, the first of them lifted behind a listing with the given
operations and temporaries. They go on until one of them ends the block, and the budget is how many
there may be behind the first. The last two arguments are the address behind them and why the block
ends there. -/
inductive PacketsFrom (isa : InstructionSet) (fetch : Fetch) :
    Nat → Word → List MicroOp → Array Temp → List (LiftedPacket isa) → Word → BlockExit → Prop where
  | last {budget : Nat} {done : List MicroOp} {temps : Array Temp} (p : LiftedPacket isa) :
      p.LiftedFrom fetch done temps → (p.exit? = none → budget = 0) →
      PacketsFrom isa fetch budget p.pc done temps [p] p.after (p.exit?.getD .budget)
  | cons {budget : Nat} {done : List MicroOp} {temps : Array Temp} (p : LiftedPacket isa)
      {rest : List (LiftedPacket isa)} {after : Word} {exit : BlockExit} :
      p.LiftedFrom fetch done temps → p.exit? = none →
      PacketsFrom isa fetch budget p.after (done ++ p.ops temps.size) (temps ++ p.temps.toArray)
        rest after exit →
      PacketsFrom isa fetch (budget + 1) p.pc done temps (p :: rest) after exit

/-- The operations of packets, when there are `n` temporaries before them. -/
def packetsOps (n : TempId) : List (LiftedPacket isa) → List MicroOp
  | [] => []
  | p :: rest => p.ops n ++ packetsOps (n + p.temps.length) rest

/-! ## Lifting -/

/-- **What lifting packets came to.** -/
theorem LiftsPackets.exists_packets (happ : isa.OnlyAppends) {fetch : Fetch} {budget : Nat}
    {pc : Word} {b : Build} {result : Build × BlockExit × Word} {s s' : Session isa.State}
    (h : LiftsPackets isa fetch budget pc b s result s') {es : List Entry}
    (hes : b.listing.Represents es) :
    ∃ (packets : List (LiftedPacket isa)) (new : List Entry),
      PacketsFrom isa fetch budget pc (es.map Entry.op) b.listing.temps packets result.2.2
        result.2.1 ∧
      result.1.listing.Represents (es ++ new) ∧
      new.map Entry.op = packetsOps b.listing.tempCount packets ∧
      result.1.listing.temps = b.listing.temps ++ (packets.flatMap LiftedPacket.temps).toArray ∧
      result.1.packets = b.packets ++ packets.map LiftedPacket.info := by
  induction h generalizing es with
  | last hpacket hbudget =>
    obtain ⟨p, new, rfl, hlifted, hrep, hops, htemps, hinfo, hwords, hexit⟩ :=
      exists_packet_of_liftPacket happ hpacket hes
    rw [hexit] at hbudget
    rw [Build.add_sub_words hwords, hexit]
    exact ⟨[p], new, .last p hlifted hbudget, hrep, by simpa [packetsOps] using hops,
      by simpa using htemps, hinfo⟩
  | cons hpacket hexit _ ih =>
    obtain ⟨p, new, rfl, hlifted, hrep, hops, htemps, hinfo, hwords, hp⟩ :=
      exists_packet_of_liftPacket happ hpacket hes
    obtain ⟨packets, more, hpackets, hrep', hops', htemps', hinfo'⟩ := ih hrep
    rw [Build.add_sub_words hwords, List.map_append, hops, htemps] at hpackets
    refine ⟨p :: packets, new ++ more, .cons p hlifted (hp.symm.trans hexit) hpackets,
      by simpa using hrep', ?_, ?_, ?_⟩
    · rw [List.map_append, hops, hops', packetsOps, Listing.tempCount, Listing.tempCount, htemps]
      simp
    · rw [htemps', htemps]
      simp
    · rw [hinfo', hinfo]
      simp

/-- The empty listing has no operations, whatever its globals. -/
theorem represents_forGuest (layout : Layout) : (Listing.forGuest layout).Represents [] :=
  Listing.represents_empty.setTemps _

/-- What is stored behind the packets of a block. -/
def storeOps (exit : BlockExit) (after : Word) : List MicroOp :=
  if exit = .branch then [] else [.set Global.pc after]

/-- **The packets of a block, and its listing.** -/
theorem exists_packets_of_liftBlock (happ : isa.OnlyAppends) {options : LiftOptions}
    {fetch : Fetch} {entry : Word} {block : Block} {s s' : Session isa.State}
    (h : (liftBlock isa options fetch entry).Gives s block s') :
    ∃ (packets : List (LiftedPacket isa)) (es : List Entry),
      PacketsFrom isa fetch (options.maxPackets - 1) entry [] (guestTemps options.layout).toArray
        packets block.after block.exit ∧
      block.packets = packets.map LiftedPacket.info ∧ block.listing.Represents es ∧
      es.map Entry.op = packetsOps (guestTemps options.layout).length packets
        ++ storeOps block.exit block.after ++ [.exitBlock] ∧
      block.listing.temps = (guestTemps options.layout).toArray
        ++ (packets.flatMap LiftedPacket.temps).toArray := by
  obtain ⟨-, b, exit, after, t, hpackets, rfl, -⟩ := gives_liftBlock_iff.mp h
  obtain ⟨packets, new, hfrom, hrep, hops, htemps, hinfo⟩ :=
    hpackets.exists_packets happ (represents_forGuest options.layout)
  have hlisting : (b.block entry exit after).listing =
      b.listing.extend (storeOps exit after ++ [.exitBlock]) [] := by
    rw [Build.block, Listing.append_eq_extend, storeOps]
    split_ifs
    · rfl
    · rw [Listing.append_eq_extend, Listing.extend_extend]
      rfl
  rw [b.after_block, hlisting]
  refine ⟨packets,
    new ++ Listing.numbered b.listing.nodes.size (storeOps exit after ++ [.exitBlock]), hfrom,
    hinfo, hrep.extend _ [], ?_, ?_⟩
  · rw [List.map_append, hops, Listing.map_op_numbered, List.append_assoc]
    rfl
  · rw [Listing.temps_extend, htemps]
    exact Array.append_empty

/-- **The operations of a packet stand in one piece**, behind those that the packet was lifted
behind. -/
theorem PacketsFrom.exists_liftedFrom {fetch : Fetch} {budget : Nat} {pc after : Word}
    {done : List MicroOp} {temps : Array Temp} {packets : List (LiftedPacket isa)}
    {exit : BlockExit} (h : PacketsFrom isa fetch budget pc done temps packets after exit)
    {p : LiftedPacket isa} (hp : p ∈ packets) :
    ∃ before earlier behind, p.LiftedFrom fetch before earlier ∧
      done ++ packetsOps temps.size packets = before ++ p.ops earlier.size ++ behind := by
  induction h with
  | @last budget done temps q hlifted _ =>
    obtain rfl := List.mem_singleton.mp hp
    exact ⟨done, temps, [], hlifted, by simp [packetsOps]⟩
  | @cons budget done temps q rest after exit hlifted _ _ ih =>
    rcases List.mem_cons.mp hp with rfl | hrest
    · exact ⟨done, temps, _, hlifted, (List.append_assoc _ _ _).symm⟩
    · obtain ⟨before, earlier, behind, hp, hops⟩ := ih hrest
      have hsize : (temps ++ q.temps.toArray).size = temps.size + q.temps.length := by simp
      rw [hsize, List.append_assoc] at hops
      exact ⟨before, earlier, behind, hp, hops⟩

/-- The operations of a block in front of those of one of its packets, and behind them. -/
theorem exists_liftedFrom_of_mem_packets (happ : isa.OnlyAppends) {options : LiftOptions}
    {fetch : Fetch} {entry : Word} {block : Block} {s s' : Session isa.State}
    (h : (liftBlock isa options fetch entry).Gives s block s') {info : PacketInfo}
    (hinfo : info ∈ block.packets) :
    ∃ (p : LiftedPacket isa) (before behind : List MicroOp) (temps : Array Temp),
      info = p.info ∧ p.LiftedFrom fetch before temps ∧
      block.listing.ops = before ++ p.ops temps.size ++ behind := by
  obtain ⟨packets, es, hfrom, hinfos, hrep, hops, -⟩ := exists_packets_of_liftBlock happ h
  rw [hinfos] at hinfo
  obtain ⟨p, hp, rfl⟩ := List.mem_map.mp hinfo
  obtain ⟨before, temps, behind, hlifted, hpiece⟩ := hfrom.exists_liftedFrom hp
  rw [List.nil_append, List.size_toArray] at hpiece
  refine ⟨p, before, behind ++ storeOps block.exit block.after ++ [.exitBlock], temps, rfl,
    hlifted, ?_⟩
  rw [hrep.ops_eq, hops, hpiece]
  simp only [List.append_assoc]

/-! ## Starts and exits -/

theorem isInner_of_mem_primeOps {primed : RegisterSet} {op : MicroOp} (h : op ∈ primeOps primed) :
    op.isInner = true := by
  obtain ⟨r, -, rfl⟩ := List.mem_map.mp h
  rfl

theorem isInner_of_mem_commitOps {committed : RegisterSet} {op : MicroOp}
    (h : op ∈ commitOps committed) : op.isInner = true := by
  rcases List.mem_append.mp h with h | h <;> obtain ⟨r, -, rfl⟩ := List.mem_map.mp h <;> rfl

theorem isInner_of_mem_epilogueOps {n : TempId} {committed : RegisterSet}
    {loopEnd : Option LoopEnd} {changesPc : Bool} {lastPc : Word} {op : MicroOp}
    (h : op ∈ epilogueOps n committed loopEnd changesPc lastPc) : op.isInner = true := by
  simp only [epilogueOps, List.mem_append] at h
  rcases h with (h | h) | h
  · exact isInner_of_mem_commitOps h
  · have hall : (loopEnd.elim [] (loopOps n)).all MicroOp.isInner = true := by
      rcases loopEnd with _ | _ | _ | _ <;> rfl
    exact List.all_eq_true.mp hall op h
  · have hall : (if changesPc then pcOps (n + loopLocals loopEnd) lastPc else []).all
        MicroOp.isInner = true := by
      cases changesPc <;> rfl
    exact List.all_eq_true.mp hall op h

theorem Parts.isInner_of_mem {packetPc nextPc : Word} {done : List MicroOp} {temps : Array Temp}
    {writes : RegisterSet} {parts : List (Part isa)}
    (h : Parts isa packetPc nextPc done temps writes parts) {p : Part isa} (hp : p ∈ parts)
    {op : MicroOp} (hop : op ∈ p.ops) : op.isInner = true := by
  obtain ⟨_, _, _, hexec, -⟩ := h.exists_executed hp
  rcases List.mem_append.mp hop with hop | hop
  · unfold Part.trace at hop
    split_ifs at hop with htraced
    · obtain rfl := List.mem_singleton.mp hop
      rfl
    · cases hop
  · exact hexec.inner op hop

/-- The start of a packet is the only one of its operations that is not an inner one. -/
theorem LiftedPacket.LiftedFrom.filter_ops {p : LiftedPacket isa} {fetch : Fetch}
    {done : List MicroOp} {temps : Array Temp} (h : p.LiftedFrom fetch done temps) (n : TempId) :
    (p.ops n).filter (fun op => !op.isInner) = [.packetStart p.pc] := by
  have hparts : ∀ op ∈ p.order.flatMap p.partOps, op.isInner = true := by
    intro op hop
    obtain ⟨i, -, hi⟩ := List.mem_flatMap.mp hop
    unfold partOps at hi
    cases hpart : p.parts[i]? with
    | none => simp [hpart] at hi
    | some part =>
      rw [hpart] at hi
      exact h.parts.isInner_of_mem (List.mem_of_getElem? hpart) hi
  have hnone : ∀ ops : List MicroOp, (∀ op ∈ ops, op.isInner = true) →
      ops.filter (fun op => !op.isInner) = [] := by
    intro ops hops
    refine List.filter_eq_nil_iff.mpr fun op hop => ?_
    simp [hops op hop]
  rw [LiftedPacket.ops, List.filter_append, List.filter_append, List.filter_append,
    hnone _ (fun _ => isInner_of_mem_primeOps), hnone _ hparts,
    hnone _ (fun _ => isInner_of_mem_epilogueOps)]
  rfl

theorem PacketsFrom.filter_packetsOps {fetch : Fetch} {budget : Nat} {pc after : Word}
    {done : List MicroOp} {temps : Array Temp} {packets : List (LiftedPacket isa)}
    {exit : BlockExit} (h : PacketsFrom isa fetch budget pc done temps packets after exit)
    (n : TempId) :
    (packetsOps n packets).filter (fun op => !op.isInner) =
      packets.map fun p => .packetStart p.pc := by
  induction h generalizing n with
  | last p hlifted _ => simp [packetsOps, hlifted.filter_ops]
  | cons p hlifted _ _ ih => simp [packetsOps, hlifted.filter_ops, ih]

/-! ## The block -/

/-- A program of four packets. The first tests a predicate that it sets, the second reads registers
that it writes, the third calls the trap handler, and the last jumps to itself. -/
def fourPackets : Fetch := fun address =>
  let words : List Word :=
    [0xFB006102, 0xF200C100, -- if (p0.new) r2 = add(r0, r1); p0 = cmp.eq(r0, r1)
      0xF3024203, 0xF303C302, -- r3 = add(r2, r2); r2 = add(r3, r3)
      0x5400C110, -- trap0(#12)
      0x5800C000] -- jump
  if address &&& 3 = 0 then words[address.toNat / 4]? else none

/-- **The operations of a block**, for any instruction set that only appends. They are those of its
packets in address order, each with its priming, the ranges of its instructions in the order that
was found, and its epilogue; the program counter is set at the end unless the block ends in a
branch, and the exit comes last. Every operation stands there once, and besides the starts of the
packets and the one exit all of them are inner ones. -/
theorem liftBlock_ops_eq_concatenation (isa : InstructionSet) (happ : isa.OnlyAppends)
    (options : LiftOptions) (fetch : Fetch) (entry : Word) (block : Block)
    (s s' : Session isa.State)
    (h : (liftBlock isa options fetch entry).run s = (.ok block, s')) :
    ∃ packets : List (LiftedPacket isa),
      PacketsFrom isa fetch (options.maxPackets - 1) entry [] (guestTemps options.layout).toArray
        packets block.after block.exit ∧
      block.packets = packets.map LiftedPacket.info ∧
      block.listing.ops = packetsOps (guestTemps options.layout).length packets
        ++ (if block.exit = .branch then [] else [.set Global.pc block.after]) ++ [.exitBlock] ∧
      block.listing.ids.Perm (List.range' 1 block.listing.size) ∧
      block.listing.ops.filter (fun op => !op.isInner) =
        packets.map (fun p => .packetStart p.pc) ++ [.exitBlock] := by
  obtain ⟨packets, es, hfrom, hinfo, hrep, hops, -⟩ := exists_packets_of_liftBlock happ h
  have hall : block.listing.ops = packetsOps (guestTemps options.layout).length packets
      ++ (if block.exit = .branch then [] else [.set Global.pc block.after]) ++ [.exitBlock] := by
    rw [hrep.ops_eq, hops, storeOps]
  refine ⟨packets, hfrom, hinfo, hall, ?_, ?_⟩
  · rw [hrep.ids_eq]
    exact hrep.perm
  · rw [hall, List.filter_append, List.filter_append, hfrom.filter_packetsOps]
    have hexit : (if block.exit = .branch then [] else [MicroOp.set Global.pc block.after]).filter
        (fun op => !op.isInner) = [] := by
      split_ifs <;> rfl
    rw [hexit, List.append_nil]
    rfl

theorem liftBlock_ops_eq_concatenation_fourPackets :
    ∃ block s', (liftBlock scalarCore { maxPackets := 4 } fourPackets 0).run ⟨(0 : Nat), #[]⟩ =
        (.ok block, s') ∧
      block.packets.map (·.closing.order) = [[1, 0], [0, 1], [0], [0]] ∧
      ∃ packets : List (LiftedPacket scalarCore),
        PacketsFrom scalarCore fourPackets 3 0 [] (guestTemps .packed).toArray packets block.after
          .branch ∧
        block.packets = packets.map LiftedPacket.info ∧
        block.listing.ops = packetsOps (guestTemps .packed).length packets ++ [.exitBlock] ∧
        block.listing.ids.Perm (List.range' 1 block.listing.size) ∧
        block.listing.ops.filter (fun op => !op.isInner) =
          packets.map (fun p => .packetStart p.pc) ++ [.exitBlock] := by
  have hlift : ((liftBlock scalarCore { maxPackets := 4 } fourPackets 0).run
      ⟨(0 : Nat), #[]⟩).1.toOption.map (fun b => (b.packets.map (·.closing.order), b.exit)) =
        some ([[1, 0], [0, 1], [0], [0]], .branch) := by
    decide +kernel
  obtain ⟨block, s', h, hblock⟩ := Lift.exists_of_toOption hlift
  obtain ⟨horder, hexit⟩ := Prod.mk.inj hblock
  have hops := liftBlock_ops_eq_concatenation scalarCore onlyAppends_scalarCore
    { maxPackets := 4 } fourPackets 0 block _ s' h
  rw [hexit] at hops
  simp only [if_true, List.append_nil] at hops
  exact ⟨block, s', h, horder, hops⟩

end PacketLift
