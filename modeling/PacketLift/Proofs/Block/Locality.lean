import PacketLift.Proofs.Block.Tiling

/-!
# A block depends on the words it covers

Lifting reads ahead: the search for the next packet runs before the packet is read, and the words of
a packet are fetched before it is known whether they keep the rules. When a block can be lifted,
none of this goes beyond the words of its packets. So a memory that has the same words there gives
the same block, whatever it has elsewhere, and a block that was lifted stays valid for as long as
these words do.

## Main definitions

* `AgreeOn fetch fetch' pc n`: two memories with the same `n` words from an address on

## Main results

* `Packet.at?_congr`: a packet depends on its own words
* `LiftsPackets.congr`: so do packets one behind the other
* `liftBlock_eq_of_agree`: and a block
-/

namespace PacketLift

variable {isa : InstructionSet} {fetch fetch' : Fetch}

/-- **Two memories with the same words** from `pc` on, as far as `n` words go. -/
def AgreeOn (fetch fetch' : Fetch) (pc : Word) (n : Nat) : Prop :=
  ∀ k < n, fetch' (pc + 4 * BitVec.ofNat 32 k) = fetch (pc + 4 * BitVec.ofNat 32 k)

namespace AgreeOn

variable {pc : Word} {m n : Nat}

theorem mono (h : AgreeOn fetch fetch' pc n) (hle : m ≤ n) : AgreeOn fetch fetch' pc m :=
  fun k hk => h k (Nat.lt_of_lt_of_le hk hle)

/-- The words behind the first `m`. -/
theorem drop (h : AgreeOn fetch fetch' pc (m + n)) :
    AgreeOn fetch fetch' (pc + 4 * BitVec.ofNat 32 m) n := by
  intro k hk
  have hshift : pc + 4 * BitVec.ofNat 32 m + 4 * BitVec.ofNat 32 k =
      pc + 4 * BitVec.ofNat 32 (m + k) := by
    rw [BitVec.ofNat_add, BitVec.mul_add, BitVec.add_assoc]
  rw [hshift]
  exact h (m + k) (Nat.add_lt_add_left hk m)

/-- The first word. -/
theorem head (h : AgreeOn fetch fetch' pc (n + 1)) : fetch' pc = fetch pc := by
  simpa using h 0 (Nat.succ_pos n)

theorem tail (h : AgreeOn fetch fetch' pc (n + 1)) : AgreeOn fetch fetch' (pc + 4) n := by
  rw [Nat.add_comm] at h
  exact h.drop

end AgreeOn

/-! ## One packet -/

theorem PacketWords.congr {pc : Word} {words : List Word} (h : PacketWords fetch pc words)
    (hagree : AgreeOn fetch fetch' pc words.length) : PacketWords fetch' pc words := by
  induction h with
  | last hfetch hends => exact .last (hagree.head.trans hfetch) hends
  | more hfetch hends _ ih => exact .more (hagree.head.trans hfetch) hends (ih hagree.tail)

/-- **A packet depends on its own words.** -/
theorem Packet.at?_congr {pc : Word} {p : Packet} (h : at? fetch pc = some p)
    (hagree : AgreeOn fetch fetch' pc p.words.length) : at? fetch' pc = some p := by
  obtain ⟨hpc, hwindow, hplaces, hroom⟩ := at?_eq_some_iff.mp h
  obtain ⟨hwords, hlen⟩ := window_eq_closed_iff.mp hwindow
  have hwindow' := window_eq_closed_iff.mpr ⟨hwords.congr hagree, hlen⟩
  exact at?_eq_some_iff.mpr ⟨hpc, hwindow', hplaces, hroom⟩

theorem liftPacket_congr {pc : Word} {p : Packet} {b b' : Build} {s s' : Session isa.State}
    (h : (liftPacket isa fetch pc b).Gives s b' s') (hp : Packet.at? fetch pc = some p)
    (hagree : AgreeOn fetch fetch' pc p.words.length) :
    (liftPacket isa fetch' pc b).Gives s b' s' := by
  obtain rfl := (Packet.at?_eq_some_iff.mp hp).1
  have hp' := Packet.at?_congr hp hagree
  obtain ⟨nextPc, words, b₁, s₁, hnext, hwindow, hread, hfinish⟩ := gives_liftPacket_iff.mp h
  -- neither the search ahead nor the window can tell the memories apart
  have hnext' : addressBehind fetch' p.pc = .ok nextPc := by
    rw [Packet.addressBehind_eq hp', ← Packet.addressBehind_eq hp, hnext]
  have hwindow' : window fetch' p.pc readLimit = ⟨words, .closed⟩ := by
    rw [(Packet.at?_eq_some_iff.mp hp').2.1, ← (Packet.at?_eq_some_iff.mp hp).2.1, hwindow]
  exact gives_liftPacket_iff.mpr ⟨nextPc, words, b₁, s₁, hnext', hwindow', hread, hfinish⟩

/-! ## All packets -/

/-- **Packets one behind the other depend on their own words.** These are summed up from what is
told about the packets: the counter of a build wraps around, and may have fewer. -/
theorem LiftsPackets.congr {budget : Nat} {pc : Word} {b : Build}
    {result : Build × BlockExit × Word} {s s' : Session isa.State} {infos : List PacketInfo}
    (h : LiftsPackets isa fetch budget pc b s result s')
    (hinfos : result.1.packets = b.packets ++ infos)
    (hagree : AgreeOn fetch fetch' pc (infos.map (·.words)).sum) :
    LiftsPackets isa fetch' budget pc b s result s' := by
  induction h generalizing infos with
  | last hgives hbudget =>
    obtain ⟨p, info, hp, hgains⟩ := exists_gains_of_liftPacket hgives
    obtain rfl : [info] = infos := List.append_cancel_left (hgains.packets.symm.trans hinfos)
    rw [List.map_singleton, List.sum_singleton, hgains.info.words] at hagree
    exact .last (liftPacket_congr hgives hp hagree) hbudget
  | @cons budget pc b b₁ s t s' result hgives hexit hrest ih =>
    obtain ⟨p, info, hp, hgains⟩ := exists_gains_of_liftPacket hgives
    obtain rfl := (Packet.at?_eq_some_iff.mp hp).1
    obtain ⟨rest, hpackets, -⟩ := hrest.exists_tiles
    obtain rfl : info :: rest = infos := by
      rw [hpackets, hgains.packets, List.append_assoc] at hinfos
      exact List.append_cancel_left hinfos
    rw [List.map_cons, List.sum_cons, hgains.info.words] at hagree
    have hfirst := liftPacket_congr hgives hp (hagree.mono (Nat.le_add_right _ _))
    have hbehind := hagree.drop
    rw [← Packet.after, ← hgains.next_eq] at hbehind
    exact .cons hfirst hexit (ih hpackets hbehind)

/-- **A block depends only on the words it covers**, for any instruction set and budget. Take two
memories that have the same words from the entry on, as far as the packets of a block lifted from
the first one go. Then lifting from the second one, in the same session, gives the same block and
leaves the same session, whatever that memory has or does not have elsewhere. -/
theorem liftBlock_eq_of_agree (isa : InstructionSet) (options : LiftOptions) (fetch fetch' : Fetch)
    (entry : Word) (block : Block) (s s' : Session isa.State)
    (h : (liftBlock isa options fetch entry).run s = (.ok block, s'))
    (hagree : ∀ k < (block.packets.map (·.words)).sum,
      fetch' (entry + 4 * BitVec.ofNat 32 k) = fetch (entry + 4 * BitVec.ofNat 32 k)) :
    (liftBlock isa options fetch' entry).run s = (.ok block, s') := by
  obtain ⟨haligned, b, exit, after, t, hpackets, rfl, rfl⟩ := gives_liftBlock_iff.mp h
  have hsame := hpackets.congr (List.nil_append b.packets).symm hagree
  exact gives_liftBlock_iff.mpr ⟨haligned, b, exit, after, t, hsame, rfl, rfl⟩

/-- Memory that ends with the first packet of `fullPackets`. -/
def firstPacket : Fetch := fun address => if address < 24 then fullPackets address else none

theorem liftBlock_eq_of_agree_firstPacket :
    ∃ block s', (liftBlock scalarCore { maxPackets := 1 } fullPackets 0).run ⟨(0 : Nat), #[]⟩ =
        (.ok block, s') ∧
      block.packets.map (·.words) = [6] ∧ firstPacket 24 ≠ fullPackets 24 ∧
      (liftBlock scalarCore { maxPackets := 1 } firstPacket 0).run ⟨(0 : Nat), #[]⟩ =
        (.ok block, s') := by
  have hlift : ((liftBlock scalarCore { maxPackets := 1 } fullPackets 0).run
      ⟨(0 : Nat), #[]⟩).1.toOption.map (·.packets.map (·.words)) = some [6] := by
    decide +kernel
  obtain ⟨block, s', h, hwords⟩ := Lift.exists_of_toOption hlift
  have hagree : ∀ k < (block.packets.map (·.words)).sum,
      firstPacket (0 + 4 * BitVec.ofNat 32 k) = fullPackets (0 + 4 * BitVec.ofNat 32 k) := by
    rw [hwords]
    decide +kernel
  exact ⟨block, s', h, hwords, by decide, liftBlock_eq_of_agree scalarCore { maxPackets := 1 }
    fullPackets firstPacket 0 block _ s' h hagree⟩

end PacketLift
