import Mathlib.Algebra.GroupWithZero.Nat
import PacketLift.Proofs.Block.Calls
import PacketLift.Proofs.Instruction.Emission

/-!
# Packets tile their block

The address behind a packet is looked up before the packet is read, by a search that gives up after
eight words. An instruction that needs it, such as a call, cannot wait until the packet is closed.
That the search is right for every packet that can be lifted rests on counting: an instruction has
two words at most, and a packet has four instructions. So the packets of a block lie one directly
behind the other, and every instruction is told where the next one starts. Nothing of this depends
on the instruction set.

## Main definitions

* `Tiles`: packets one directly behind the other

## Main results

* `Packet.bounds`: how many words and instructions a packet has
* `LiftsPackets.exists_tiles`: lifted packets tile, and their words are counted
* `liftBlock_packets_tile`: the packets of a block, and what each of their instructions is told
-/

namespace PacketLift

variable {isa : InstructionSet}

/-! ## Bounds -/

/-- **The size of a packet**: there is a word and an instruction in it, and four instructions have
no more than eight words. -/
theorem Packet.bounds {fetch : Fetch} {pc : Word} {p : Packet} (h : at? fetch pc = some p) :
    (1 ≤ p.words.length ∧ p.words.length ≤ 8) ∧ 1 ≤ p.places.length ∧ p.places.length ≤ 4 := by
  obtain ⟨-, hwindow, hplaces, hroom⟩ := at?_eq_some_iff.mp h
  have hpos := (window_eq_closed_iff.mp hwindow).1.length_pos
  have hle := length_le_of_places hplaces
  simp only [Option.toList_none, List.length_nil, Roster.capacity] at hle hroom
  omega

/-! ## Tiles -/

/-- **Packets one directly behind the other**, from the first address up to the second. -/
inductive Tiles : Word → List PacketInfo → Word → Prop where
  | last (info : PacketInfo) : Tiles info.pc [info] info.after
  | cons (info : PacketInfo) {rest : List PacketInfo} {after : Word} :
      Tiles info.after rest after → Tiles info.pc (info :: rest) after

/-- The words of packets that tile fill the range. -/
theorem Tiles.after_eq {pc after : Word} {infos : List PacketInfo} (h : Tiles pc infos after) :
    after = pc + 4 * BitVec.ofNat 32 (infos.map (·.words)).sum := by
  induction h with
  | last info => simp [PacketInfo.after]
  | cons info _ ih =>
    rw [ih, PacketInfo.after, List.map_cons, List.sum_cons, BitVec.ofNat_add, BitVec.mul_add,
      BitVec.add_assoc]

/-- **Lifted packets tile**, and their words are counted. There are no more of them than the budget
allows. -/
theorem LiftsPackets.exists_tiles {fetch : Fetch} {budget : Nat} {pc : Word} {b : Build}
    {result : Build × BlockExit × Word} {s s' : Session isa.State}
    (h : LiftsPackets isa fetch budget pc b s result s') :
    ∃ infos, result.1.packets = b.packets ++ infos ∧ Tiles pc infos result.2.2 ∧
      result.1.words = b.words + BitVec.ofNat 32 (infos.map (·.words)).sum ∧
      infos.length ≤ budget + 1 := by
  induction h with
  | last hgives _ =>
    obtain ⟨p, info, hp, hgains⟩ := exists_gains_of_liftPacket hgives
    obtain rfl := (Packet.at?_eq_some_iff.mp hp).1
    refine ⟨[info], hgains.packets, ?_, ?_, by simp⟩
    · rw [hgains.next_eq, ← hgains.info.pc, ← hgains.info.after_eq]
      exact .last info
    · rw [hgains.words, List.map_singleton, List.sum_singleton, hgains.info.words]
  | cons hgives _ _ ih =>
    obtain ⟨p, info, hp, hgains⟩ := exists_gains_of_liftPacket hgives
    obtain rfl := (Packet.at?_eq_some_iff.mp hp).1
    obtain ⟨infos, hpackets, htiles, hwords, hlength⟩ := ih
    rw [hgains.next_eq, ← hgains.info.after_eq] at htiles
    refine ⟨info :: infos, ?_, ?_, ?_, Nat.succ_le_succ hlength⟩
    · rw [hpackets, hgains.packets, List.append_assoc]
      rfl
    · rw [← hgains.info.pc]
      exact .cons info htiles
    · rw [hwords, hgains.words, List.map_cons, List.sum_cons, hgains.info.words, BitVec.ofNat_add,
        BitVec.add_assoc]

/-! ## The block -/

/-- **The packets of a block tile it.** -/
theorem exists_tiles_of_liftBlock {options : LiftOptions} {fetch : Fetch} {entry : Word}
    {block : Block} {s s' : Session isa.State}
    (h : (liftBlock isa options fetch entry).Gives s block s') :
    Tiles entry block.packets block.after ∧
      block.words = BitVec.ofNat 32 (block.packets.map (·.words)).sum ∧
      block.byteSize = 4 * block.words ∧
      block.packets.length ≤ max 1 options.maxPackets := by
  obtain ⟨-, b, exit, after, t, hpackets, rfl, -⟩ := gives_liftBlock_iff.mp h
  obtain ⟨infos, hinfos, htiles, hwords, hlength⟩ := hpackets.exists_tiles
  have hall : b.packets = infos := hinfos.trans (List.nil_append _)
  have hcount : b.words = BitVec.ofNat 32 (infos.map (·.words)).sum :=
    hwords.trans (BitVec.zero_add _)
  have hsize : after - entry = 4 * b.words := by
    have hafter : after = entry + 4 * BitVec.ofNat 32 (infos.map (·.words)).sum := htiles.after_eq
    rw [hafter, hcount, BitVec.add_comm, BitVec.add_sub_cancel]
  have hbudget : infos.length ≤ max 1 options.maxPackets := by omega
  rw [b.after_block]
  subst hall
  exact ⟨htiles, hcount, hsize, hbudget⟩

/-- **Packets tile their block**, for any memory, budget and instruction set. The first packet is at
the entry, the next one directly behind it, and the block ends where its last packet does. Packets
have one to eight words and one to four instructions. The block counts the words of its packets
modulo `2 ^ 32`, and its size in bytes is four times that count, modulo `2 ^ 32` again. An
instruction set that writes down how it is called gives the same block, and is called once for each
instruction of a packet; each call is told the address of its packet and the one behind it, so a
call instruction there first stages the address behind its packet as the return address. -/
theorem liftBlock_packets_tile (isa : InstructionSet) (options : LiftOptions) (fetch : Fetch)
    (entry : Word) (block : Block) (s s' : Session isa.State)
    (h : (liftBlock isa options fetch entry).run s = (.ok block, s')) :
    Tiles entry block.packets block.after ∧
    (∀ info ∈ block.packets, (1 ≤ info.words ∧ info.words ≤ 8) ∧
      1 ≤ info.instructions ∧ info.instructions ≤ 4) ∧
    block.words.toNat = (block.packets.map (·.words)).sum % 2 ^ 32 ∧
    block.byteSize = 4 * block.words ∧
    block.packets.length ≤ max 1 options.maxPackets ∧
    ∃ groups : List (List Call),
      (liftBlock isa.watched options fetch entry).run (s.watching []) =
        (.ok block, s'.watching groups.flatten) ∧
      List.Forall₂ (fun info calls => calls.length = info.instructions ∧
          ∀ call ∈ calls, call.site.packetPc = info.pc ∧ call.site.nextPc = info.after ∧
            ∀ (offset : Word) (l : Listing) (unknowns : Nat), ∃ rest,
              ((Instruction.call offset).execute call.site l unknowns).listing =
                l.extend (.set (Global.staged .lr) info.after :: rest) [])
        block.packets groups := by
  obtain ⟨htiles, hwords, hsize, hlength⟩ := exists_tiles_of_liftBlock h
  obtain ⟨groups, hgroups, hwatched⟩ := exists_calls_of_liftBlock h
  have hcount : block.words.toNat = (block.packets.map (·.words)).sum % 2 ^ 32 := by
    rw [hwords, BitVec.toNat_ofNat]
  refine ⟨htiles, ?_, hcount, hsize, hlength, groups, hwatched, ?_⟩
  · intro info hinfo
    obtain ⟨i, hi, rfl⟩ := List.mem_iff_getElem.mp hinfo
    obtain ⟨p, -, hp, hcounts, -⟩ := hgroups.get hi (hgroups.length_eq ▸ hi)
    rw [List.get_eq_getElem] at hcounts
    rw [hcounts.words, hcounts.instructions]
    exact Packet.bounds hp
  · refine hgroups.imp ?_
    rintro info calls ⟨p, written, -, hcounts, hcalls⟩
    refine ⟨hcalls.length_eq.trans hcounts.instructions.symm, ?_⟩
    intro call hcall
    obtain ⟨hpacketPc, hnextPc⟩ := hcalls.addresses_eq hcall
    refine ⟨hpacketPc, hnextPc, ?_⟩
    intro offset l unknowns
    rw [Instruction.listing_execute, Instruction.lowered, hnextPc]
    exact ⟨_, rfl⟩

/-- A program of two full packets. The first has three extenders and ends with a duplex word, and
the second has an extender in front of each instruction, of which the last is a call. -/
def fullPackets : Fetch := fun address =>
  let words : List Word :=
    [0x00004000, 0xF3024203, 0x00004001, 0xF3034204, 0x00004002, 0x20002000,
      0x00004000, 0xF3024203, 0x00004001, 0xF3034204, 0x00004002, 0xF3044205,
      0x00004003, 0x5A00C000]
  if address &&& 3 = 0 then words[address.toNat / 4]? else none

theorem liftBlock_packets_tile_fullPackets :
    let start : Session scalarCore.State := ⟨(0 : Nat), #[]⟩
    ∃ (block : Block) (s' : Session scalarCore.State),
      (liftBlock scalarCore { maxPackets := 7 } fullPackets 0).run start = (.ok block, s') ∧
      block.packets.map (fun info => (info.pc, info.words, info.instructions)) =
        [(0, 6, 4), (24, 8, 4)] ∧
      Tiles 0 block.packets 56 ∧ block.words = 14 ∧
      ∃ groups : List (List Call),
        (liftBlock scalarCore.watched { maxPackets := 7 } fullPackets 0).run (start.watching []) =
          (.ok block, s'.watching groups.flatten) ∧
        List.Forall₂ (fun info calls => calls.length = info.instructions ∧
          ∀ call ∈ calls, call.site.nextPc = info.after) block.packets groups := by
  intro start
  have hlift : ((liftBlock scalarCore { maxPackets := 7 } fullPackets 0).run
      start).1.toOption.map (fun b =>
        (b.packets.map (fun info => (info.pc, info.words, info.instructions)), b.after, b.words)) =
      some ([(0, 6, 4), (24, 8, 4)], 56, 14) := by
    decide +kernel
  obtain ⟨block, s', h, hblock⟩ := Lift.exists_of_toOption hlift
  obtain ⟨hinfos, hblock⟩ := Prod.mk.inj hblock
  obtain ⟨hafter, hwords⟩ := Prod.mk.inj hblock
  obtain ⟨htiles, -, -, -, -, groups, hwatched, hgroups⟩ :=
    liftBlock_packets_tile scalarCore { maxPackets := 7 } fullPackets 0 block start s' h
  rw [hafter] at htiles
  refine ⟨block, s', h, hinfos, htiles, hwords, groups, hwatched, hgroups.imp ?_⟩
  rintro info calls ⟨hlength, hcalls⟩
  exact ⟨hlength, fun call hcall => (hcalls call hcall).2.1⟩

end PacketLift
