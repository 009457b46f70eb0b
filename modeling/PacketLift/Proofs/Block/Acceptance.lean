import PacketLift.Proofs.Block.Lifting
import PacketLift.Proofs.Packet.Grammar

/-!
# Which blocks can be lifted

Whether a block of the scalar core can be lifted is decided in many places: the search for the next
packet, the rules for extenders and duplex words, the room in a packet, its order, the end of the
block. All of this together accepts a simple language. The packets from the entry on have to be well
formed, up to the one with which the block ends, and nothing else matters. What ends the block, and
the reason that is given for it, can be read off the words as well.

## Main definitions

* `Reaches fetch entry n pc`: `n` packets lie between two addresses, and none of them ends a block

## Main results

* `isSome_packetsAt?_iff`: memory has the packets of a block if all of them are well formed
* `PacketsFrom.exists_last`: the packet with which a block ends
* `liftBlock_accepts_iff`: which blocks can be lifted, and how they end
-/

namespace PacketLift

variable {fetch : Fetch}

/-- **Packets that do not end a block**: `n` of them lie between the two addresses. -/
inductive Reaches (fetch : Fetch) : Word → Nat → Word → Prop where
  | refl (pc : Word) : Reaches fetch pc 0 pc
  | step {entry pc : Word} {n : Nat} {words : List Word} : PacketWords fetch entry words →
      endsBlock words = false →
      Reaches fetch (entry + 4 * BitVec.ofNat 32 words.length) n pc →
      Reaches fetch entry (n + 1) pc

/-! ## Packets -/

theorem Packet.changesPc_of_at? {pc : Word} {p : Packet} (h : at? fetch pc = some p) :
    p.changesPc = (writesPc p.words || endsLoop p.words) := by
  rw [changesPc, contains_pc_of_at? h, loopEnd, isSome_loopEndOf]

/-- **Whether a packet ends a block** can be read off its words. -/
theorem Packet.endsBlock_of_at? {pc : Word} {p : Packet} (h : at? fetch pc = some p) :
    p.endsBlock = PacketLift.endsBlock p.words := by
  rw [endsBlock, changesPc_of_at? h, PacketLift.endsBlock]

theorem Packet.isSome_at?_iff {pc : Word} : (at? fetch pc).isSome = true ↔
    ∃ words, PacketWords fetch pc words ∧ WellFormed words := by
  simp only [Option.isSome_iff_exists, ← exists_at?_iff]
  constructor
  · rintro ⟨p, hp⟩
    exact ⟨p.words, p, hp, rfl⟩
  · rintro ⟨words, p, hp, -⟩
    exact ⟨p, hp⟩

/-- One packet further on, past a packet that does not end a block. -/
theorem reaches_succ_iff {entry pc : Word} {n : Nat} {words : List Word}
    (h : PacketWords fetch entry words) : Reaches fetch entry (n + 1) pc ↔
      endsBlock words = false ∧
        Reaches fetch (entry + 4 * BitVec.ofNat 32 words.length) n pc := by
  constructor
  · intro hreaches
    cases hreaches with
    | step hwords hends hrest =>
      obtain rfl := hwords.unique h
      exact ⟨hends, hrest⟩
  · rintro ⟨hends, hrest⟩
    exact .step h hends hrest

/-- **Memory has the packets of a block** if and only if all of them are well formed, up to the
first that ends it and as far as the budget goes. -/
theorem isSome_packetsAt?_iff {budget : Nat} {entry : Word} :
    (packetsAt? fetch budget entry).isSome = true ↔
      ∀ n ≤ budget, ∀ pc, Reaches fetch entry n pc →
        ∃ words, PacketWords fetch pc words ∧ WellFormed words := by
  simp only [← Packet.isSome_at?_iff]
  induction budget generalizing entry with
  | zero =>
    rw [packetsAt?, Option.isSome_map]
    constructor
    · rintro h n hn pc hreaches
      obtain rfl := Nat.le_zero.mp hn
      cases hreaches
      exact h
    · intro h
      exact h 0 le_rfl entry (.refl entry)
  | succ budget ih =>
    cases hp : Packet.at? fetch entry with
    | none =>
      refine iff_of_false (by simp [packetsAt?, hp]) fun h => ?_
      have hfirst := h 0 (Nat.zero_le _) entry (.refl entry)
      rw [hp] at hfirst
      cases hfirst
    | some p =>
      obtain rfl := (Packet.at?_eq_some_iff.mp hp).1
      obtain ⟨hwords, -⟩ := Packet.exists_at?_iff.mp ⟨p, hp, rfl⟩
      have hends := Packet.endsBlock_of_at? hp
      rw [packetsAt?, hp, Option.bind_some, hends]
      constructor
      · intro h n hn pc hreaches
        cases n with
        | zero =>
          cases hreaches
          exact Option.isSome_iff_exists.mpr ⟨p, hp⟩
        | succ n =>
          obtain ⟨hgoes, hrest⟩ := (reaches_succ_iff hwords).mp hreaches
          rw [hgoes, if_neg (by simp), Option.isSome_map] at h
          exact ih.mp h n (Nat.le_of_succ_le_succ hn) pc hrest
      · intro h
        split_ifs with hgoes
        · rfl
        · rw [Option.isSome_map]
          refine ih.mpr fun n hn pc hrest => ?_
          exact h (n + 1) (Nat.succ_le_succ hn) pc
            ((reaches_succ_iff hwords).mpr ⟨by simpa using hgoes, hrest⟩)

/-! ## The last packet -/

theorem LiftedPacket.LiftedFrom.getD_exit?_eq {p : LiftedPacket scalarCore} {done : List MicroOp}
    {temps : Array Temp} (h : p.LiftedFrom fetch done temps) :
    p.exit?.getD .budget = exitOf p.words ∧ p.exit?.isSome = endsBlock p.words := by
  have hp := h.at?_eq
  refine ⟨?_, h.isSome_exit?_eq.trans (Packet.endsBlock_of_at? hp)⟩
  rw [exit?, h.changesPc_eq, Packet.changesPc_of_at? hp, exitOf]
  show (if (writesPc p.words || endsLoop p.words) = true then _
    else _ : Option BlockExit).getD _ = _
  split_ifs <;> rfl

/-- **The packet with which a block ends**: those before it do not end the block, and either this
one does or the budget is used up. -/
theorem PacketsFrom.exists_last {budget : Nat} {pc after : Word} {done : List MicroOp}
    {temps : Array Temp} {packets : List (LiftedPacket scalarCore)} {exit : BlockExit}
    (h : PacketsFrom scalarCore fetch budget pc done temps packets after exit) :
    ∃ n last, Reaches fetch pc n last.pc ∧ PacketWords fetch last.pc last.words ∧
      (endsBlock last.words = true ∨ n = budget) ∧ packets.length = n + 1 ∧
      packets.getLast? = some last ∧ exit = exitOf last.words := by
  induction h with
  | last p hlifted hbudget =>
    obtain ⟨hexit, hends⟩ := hlifted.getD_exit?_eq
    refine ⟨0, p, .refl _, (window_eq_closed_iff.mp hlifted.words).1, ?_, rfl, rfl, hexit⟩
    cases hp : p.exit? with
    | some exit => exact .inl (by rw [← hends, hp]; rfl)
    | none => exact .inr (hbudget hp).symm
  | cons p hlifted hp _ ih =>
    obtain ⟨n, last, hreaches, hwords, hends, hlength, hlast, hexit⟩ := ih
    have hgoes : endsBlock p.words = false := by
      rw [← hlifted.getD_exit?_eq.2, hp]
      rfl
    refine ⟨n + 1, last, .step (window_eq_closed_iff.mp hlifted.words).1 hgoes hreaches, hwords,
      hends.imp_right (congrArg (· + 1)), by rw [List.length_cons, hlength], ?_, hexit⟩
    rw [List.getLast?_cons, hlast]
    rfl

/-! ## The block -/

/-- **Which blocks of the scalar core can be lifted.** For any memory, entry and budget, a block can
be lifted if and only if its entry is aligned and every packet from there on is well formed, up to
and including the first one that ends the block or the last one that the budget allows. It then ends
with that packet, and the reason it gives can be read off the words: a branch if an instruction in
them may write the program counter or a loop ends there, a trap if they have the trap word, and the
budget otherwise. -/
theorem liftBlock_accepts_iff (options : LiftOptions) (fetch : Fetch) (entry : Word)
    (s : Session Nat) :
    ((∃ block s', (liftBlock scalarCore options fetch entry).run s = (.ok block, s')) ↔
      entry &&& 3 = 0 ∧ ∀ n < max 1 options.maxPackets, ∀ pc, Reaches fetch entry n pc →
        ∃ words, PacketWords fetch pc words ∧ WellFormed words) ∧
    ∀ block s', (liftBlock scalarCore options fetch entry).run s = (.ok block, s') →
      ∃ n pc words, Reaches fetch entry n pc ∧ PacketWords fetch pc words ∧
        (endsBlock words = true ∨ n + 1 = max 1 options.maxPackets) ∧
        block.packets.length = n + 1 ∧ block.packets.getLast?.map (·.pc) = some pc ∧
        block.exit = exitOf words := by
  have hbudget : ∀ n, n < max 1 options.maxPackets ↔ n ≤ options.maxPackets - 1 := by
    intro n
    omega
  constructor
  · simp only [hbudget, ← isSome_packetsAt?_iff]
    exact exists_liftBlock_iff
  · intro block s' h
    obtain ⟨packets, es, hfrom, hinfos, -⟩ := exists_packets_of_liftBlock onlyAppends_scalarCore h
    obtain ⟨n, last, hreaches, hwords, hends, hlength, hlast, hexit⟩ := hfrom.exists_last
    refine ⟨n, last.pc, last.words, hreaches, hwords, hends.imp_right ?_, ?_, ?_, hexit⟩
    · omega
    · rw [hinfos, List.length_map, hlength]
    · rw [hinfos, List.getLast?_map, hlast]
      rfl

theorem liftBlock_accepts_iff_fourPackets :
    ∃ block s', (liftBlock scalarCore { maxPackets := 3 } fourPackets 0).run ⟨(0 : Nat), #[]⟩ =
        (.ok block, s') ∧
      block.packets.map (·.pc) = [0, 8, 16] ∧
      (∀ n < 3, ∀ pc, Reaches fourPackets 0 n pc →
        ∃ words, PacketWords fourPackets pc words ∧ WellFormed words) ∧
      ∃ words, PacketWords fourPackets 16 words ∧ block.exit = exitOf words := by
  have hlift : ((liftBlock scalarCore { maxPackets := 3 } fourPackets 0).run
      ⟨(0 : Nat), #[]⟩).1.toOption.map (·.packets.map (·.pc)) = some [0, 8, 16] := by
    decide +kernel
  obtain ⟨block, s', h, hpcs⟩ := Lift.exists_of_toOption hlift
  obtain ⟨haccepts, hends⟩ :=
    liftBlock_accepts_iff { maxPackets := 3 } fourPackets 0 ⟨(0 : Nat), #[]⟩
  obtain ⟨n, pc, words, -, hwords, -, -, hpc, hexit⟩ := hends block s' h
  obtain rfl : 16 = pc := by
    rw [← List.getLast?_map, hpcs] at hpc
    exact Option.some.inj hpc
  exact ⟨block, s', h, hpcs, (haccepts.mp ⟨block, s', h⟩).2, words, hwords, hexit⟩

end PacketLift
