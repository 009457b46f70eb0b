import PacketLift.Proofs.Block.Lifting
import PacketLift.Proofs.Instruction.Immediates
import PacketLift.Proofs.Packet.Commit
import PacketLift.Proofs.Packet.Semantics

/-!
# Constants in packets

A packet of an extender and an instruction brings any 32-bit constant where the instruction uses its
immediate. This module follows the constant through the packet: it is scattered over the fields of
two words, read from memory, lifted, and after a run of the lifted code it is in the register, in
the sum, or in the program counter. What was staged in the CPU's state before makes no difference.

## Main definitions

* `Stored`: words in memory
* `RunsTo`: what lifting and running a packet comes to

## Main results

* `Packet.live_blockAct_of_first`: the register that the first instruction of a packet sets
* `Packet.live_pc_blockAct`: the program counter behind a packet that only jumps
* `extended_immediates_give_constants`: constants with and without an extender
-/

namespace PacketLift

/-- Words in memory, one behind the other. -/
def Stored (fetch : Fetch) : Word → List Word → Prop
  | _, [] => True
  | pc, w :: ws => fetch pc = some w ∧ Stored fetch (pc + 4) ws

/-- **What lifting and running one packet comes to.** Wherever its words stand in memory, a block of
this packet can be lifted, and running it leads from every state to one that is as `post` says, with
the packet's address and both states. -/
def RunsTo (words : List Word) (post : Word → Cpu → Cpu → Prop) : Prop :=
  ∀ (options : LiftOptions) (fetch : Fetch) (pc : Word) (s : Session scalarCore.State),
    options.layout.Separate → options.maxPackets ≤ 1 → pc &&& 3 = 0 → Stored fetch pc words →
    ∃ block s', (liftBlock scalarCore options fetch pc).Gives s block s' ∧
      ∀ cpu : Cpu, cpu.Fits options.layout →
        (block.listing.run cpu).1.exited = true ∧ post pc cpu (block.listing.run cpu).2

/-! ## Packets on any guest -/

namespace Packet

variable {p : Packet} {g : Guest}

/-- **The instructions of a packet that tests no new predicate record its results**, whatever was
staged before. -/
theorem recorded_of_plain (hplain : ∀ x ∈ p.places, x.instruction.isDotNew = false) (g : Guest) :
    Recorded p.site g.live (p.newPredicates g.live) p.arranged (g.prime (p.conditional.erase .pc))
      (p.arranged.foldl (Place.act p.site) (g.prime (p.conditional.erase .pc))) :=
  recorded_foldl (fun _ _ => rfl) (.inl fun x hx => hplain x (mem_arranged.mp hx))

theorem arranged_of_plain (hplain : ∀ x ∈ p.places, x.instruction.isDotNew = false) :
    p.arranged = p.places := by
  have hearly : p.places.filter (!·.instruction.isDotNew) = p.places :=
    List.filter_eq_self.mpr fun x hx => by simp [hplain x hx]
  have hlate : p.places.filter (·.instruction.isDotNew) = [] :=
    List.filter_eq_nil_iff.mpr fun x hx => by simp [hplain x hx]
  rw [arranged, hearly, hlate, List.append_nil, ite_self]

/-- A general register that the packet writes has what the results make of it. -/
theorem exists_live_act (hplain : ∀ x ∈ p.places, x.instruction.isDotNew = false) {n : Byte}
    (hwrites : p.writes.contains (.general n) = true) :
    ∃ y, (p.act g).live (Register.general n).slot =
      Result.applyAll (p.results g.live) (Register.general n).slot y := by
  have hpc := Register.slot_general_ne_pc n
  have hother : ∀ r : Register, 32 ≤ r.slot.val → (Register.general n).slot ≠ r.slot := by
    intro r hr heq
    have hlt := Register.slot_general_lt n
    rw [heq] at hlt
    exact absurd hr (Nat.not_le.mpr hlt)
  have hlc0 := hother .lc0 (by decide)
  have hlc1 := hother .lc1 (by decide)
  have hcommitted : (p.writes.erase .pc).hasSlot (Register.general n).slot.val = true := by
    rw [RegisterSet.hasSlot_erase, show p.writes.hasSlot _ = true from hwrites]
    simpa using fun heq => hpc (Fin.ext heq)
  refine ⟨(g.prime (p.conditional.erase .pc)).staged (Register.general n).slot, ?_⟩
  rw [act, Guest.live_epilogue _ _ _ _ _ hpc, Guest.commit]
  simp only [hcommitted, if_true, countdown, hlc0, hlc1, false_and, if_false]
  exact (BitVec.sub_zero _).trans ((recorded_of_plain hplain g).staged _)

/-- **The register that the first instruction of a packet sets**, if no other one writes it. -/
theorem live_blockAct_of_first {x : Place} {others : List Place} (hplaces : p.places = x :: others)
    (hplain : ∀ y ∈ p.places, y.instruction.isDotNew = false) {n : Byte} {value : Word}
    (hresults : x.instruction.results (p.site x) g.live (p.newPredicates g.live) =
      [.value (.general n) value])
    (hothers : ∀ y ∈ others, y.instruction.footprint.writes.contains (.general n) = false) :
    (blockAct [p] g).live (Register.general n).slot = value := by
  have hfirst : Result.value (.general n) value ∈
      x.instruction.results (p.site x) g.live (p.newPredicates g.live) := by
    rw [hresults]
    exact List.mem_singleton.mpr rfl
  have hwrites : p.writes.contains (.general n) = true := by
    rw [RegisterSet.contains, hasSlot_writes, hplaces]
    exact List.any_eq_true.mpr
      ⟨x, List.mem_cons_self, Instruction.hasSlot_writes_of_mem_results hfirst⟩
  obtain ⟨y, hlive⟩ := exists_live_act (g := g) hplain hwrites
  have hact : (p.act g).live (Register.general n).slot = value := by
    rw [hlive, results, arranged_of_plain hplain, hplaces, List.flatMap_cons, hresults,
      List.singleton_append, Result.applyAll_cons, Result.value, if_pos rfl]
    refine Result.applyAll_of_ne (fun r hr heq => ?_) _
    obtain ⟨z, hz, hr⟩ := List.mem_flatMap.mp hr
    have hnone : z.instruction.footprint.writes.hasSlot r.register.slot.val = false :=
      heq ▸ hothers z hz
    rw [Instruction.hasSlot_writes_of_mem_results hr] at hnone
    cases hnone
  rw [blockAct_singleton]
  split_ifs
  · exact hact
  · exact (Function.update_of_ne (Register.slot_general_ne_pc n) _ _).trans hact

/-- **The program counter behind a packet that writes nothing else**: a loop that jumps back comes
first, and then the branch that was taken. -/
theorem live_pc_blockAct (hplain : ∀ x ∈ p.places, x.instruction.isDotNew = false) {target : Word}
    (htarget : p.target? g.live = some target)
    (hwrites : ∀ slot : Fin 64, slot ≠ Register.pc.slot → p.writes.hasSlot slot.val = false) :
    (blockAct [p] g).live Register.pc.slot =
      (p.loopEnd.bind (·.again? g.live)).elim target fun loop => g.live loop.1.slot := by
  have hrecorded := recorded_of_plain hplain g
  let ran := p.arranged.foldl (Place.act p.site) (g.prime (p.conditional.erase .pc))
  let committed := ran.commit (p.writes.erase .pc)
  have hchanges : p.changesPc = true := by
    rw [changesPc, Bool.or_eq_true]
    refine .inl (Bool.of_not_eq_false fun hnone => ?_)
    rw [target?_eq_none hnone] at htarget
    cases htarget
  have hlive : committed.live = Function.update g.live Register.pc.slot target := by
    have hkept : committed.live = ran.live := by
      funext slot
      by_cases hslot : slot = Register.pc.slot
      · simp [committed, Guest.commit, hslot]
      · simp [committed, Guest.commit, hwrites slot hslot]
    rw [hkept, hrecorded.live, getLast?_targets_arranged, htarget]
    rfl
  have hwritten : committed.pcWritten = 1 := by
    rw [show committed.pcWritten = ran.pcWritten from rfl, hrecorded.pcWritten,
      getLast?_targets_arranged, htarget]
    rfl
  have hloops : p.loopEnd.elim committed committed.endLoops =
      (p.loopEnd.bind (·.again? g.live)).elim committed
        fun loop => committed.jumpBack loop.1 loop.2 := by
    cases p.loopEnd with
    | none => rfl
    | some kind =>
      show committed.endLoops kind = _
      rw [Guest.endLoops_eq, hlive, LoopEnd.again?_update_pc]
      rfl
  have hact : p.act g = (p.loopEnd.elim committed committed.endLoops).resolvePc p.after := by
    rw [act, Guest.epilogue, hchanges]
    rfl
  rw [blockAct_singleton, if_pos hchanges, hact, hloops]
  cases hagain : p.loopEnd.bind (·.again? g.live) with
  | none => simp [Guest.resolvePc, hlive, hwritten]
  | some loop =>
    obtain ⟨kind, -, hkind⟩ := Option.bind_eq_some_iff.mp hagain
    obtain ⟨hstart, hcount⟩ := LoopEnd.slot_of_again? hkind
    simp [Guest.resolvePc, Guest.jumpBack, hlive, hwritten, hstart, hcount.symm]

end Packet

/-! ## Words with and without an extender -/

/-- A word, behind the extender of a constant if one is given. -/
def extended (extender : Option (Bool × Word)) (w : Word) : List Word :=
  (extender.map fun x => Word.extenderFor x.1 x.2).toList ++ [w]

/-- What the extender supplies, if there is one. -/
def carried (extender : Option (Bool × Word)) : Option Word := extender.map (·.2.upperPart)

section Extended

variable {extender : Option (Bool × Word)} {w : Word}

theorem places_extended (hx : w.isExtender = false) (pc : Word) :
    places pc none (extended extender w) =
      wordPlaces w (if extender.isSome then pc + 4 else pc) (carried extender) := by
  cases extender with
  | none => simp [extended, carried, places, hx]
  | some x =>
    simp [extended, carried, places, hx, Word.isExtender_extenderFor, Word.extension_extenderFor]

theorem packetWords_extended (hends : w.role.endsPacket = true) {fetch : Fetch} {pc : Word}
    (h : Stored fetch pc (extended extender w)) : PacketWords fetch pc (extended extender w) := by
  cases extender with
  | none => exact .last h.1 hends
  | some x =>
    have hinner : (Word.extenderFor x.1 x.2).role.endsPacket = false := by
      rw [Word.role_extenderFor]
      cases x.1 <;> rfl
    exact .more h.1 hinner (.last h.2.1 hends)

/-- The loop that ends with the packet is the one that its extender marks. -/
theorem loopEndOf_extended (hmark : w.role ≠ .loopMark) :
    loopEndOf (extended extender w) =
      if extender.any (·.1) then some .loop0 else none := by
  cases extender with
  | none => simp [extended, loopEndOf, isMarked, hmark, LoopEnd.ofMarks?]
  | some x =>
    obtain ⟨marked, c⟩ := x
    cases marked <;>
      simp [extended, loopEndOf, isMarked, hmark, LoopEnd.ofMarks?, Word.role_extenderFor]

/-- **Lifting and running a packet with one word besides its extender**, by what the packet does to
the guest. -/
theorem runsTo_extended (hends : w.role.endsPacket = true) (hx : w.isExtender = false)
    {post : Word → Cpu → Cpu → Prop}
    (h : ∀ pc, ∃ ps, wordPlaces w (if extender.isSome then pc + 4 else pc) (carried extender) =
        some ps ∧ ps.length ≤ Roster.capacity ∧
      ∀ (p : Packet) (before after : Cpu),
        p.pc = pc → p.words = extended extender w → p.places = ps →
        (∀ r, after.register r = (blockAct [p] (before.guest [])).live r.slot) →
        post pc before after) :
    RunsTo (extended extender w) post := by
  intro options fetch pc s hsep hbudget haligned hstored
  obtain ⟨ps, hps, hroom, hpost⟩ := h pc
  have hlength : (extended extender w).length ≤ readLimit := by
    cases extender <;> simp [extended, readLimit]
  have hat : Packet.at? fetch pc = some ⟨pc, extended extender w, ps⟩ :=
    Packet.at?_eq_some_iff.mpr ⟨rfl,
      window_eq_closed_iff.mpr ⟨packetWords_extended hends hstored, hlength⟩,
      (places_extended hx pc).trans hps, hroom⟩
  have hpackets : packetsAt? fetch (options.maxPackets - 1) pc =
      some [⟨pc, extended extender w, ps⟩] := by
    rw [Nat.sub_eq_zero_of_le hbudget, packetsAt?, hat]
    rfl
  obtain ⟨block, s', hgives⟩ := exists_liftBlock_iff.mpr ⟨haligned, by rw [hpackets]; rfl⟩
  obtain ⟨packets, hfound, -, hrun⟩ := exists_packets_of_run hsep hgives
  obtain rfl := Option.some.inj (hpackets.symm.trans hfound)
  refine ⟨block, s', hgives, fun cpu hcpu => ?_⟩
  obtain ⟨hexited, hguest, -⟩ := hrun cpu hcpu
  refine ⟨hexited, hpost ⟨pc, extended extender w, ps⟩ _ _ rfl rfl rfl fun r => ?_⟩
  rw [← hguest, Cpu.guest_live]

/-! ## Single instructions -/

section LastWord

variable {f : Form} {values : List Word} {i : Instruction}

/-- An instruction, alone in its packet or behind an extender. -/
theorem runsTo_lastWord (hi : i.written? = some (f, values)) (hfit : Fit values f.operands)
    (rest : Word) {post : Word → Cpu → Cpu → Prop}
    (h : ∀ (p : Packet) (x : Place) (before after : Cpu),
      p.words = extended extender (f.lastWord values rest) → p.places = [x] →
      x.instruction = i → x.extender = carried extender →
      (∀ r, after.register r = (blockAct [p] (before.guest [])).live r.slot) →
      post p.pc before after) :
    RunsTo (extended extender (f.lastWord values rest)) post := by
  obtain ⟨hdecode, hx⟩ := Form.decode_lastWord hi hfit rest
  have hrole := f.role_lastWord values rest
  refine runsTo_extended (by rw [hrole]; rfl) hx fun pc => ?_
  refine ⟨[_], by rw [wordPlaces, hrole, if_neg (by decide)], (by decide : 1 ≤ Roster.capacity), ?_⟩
  rintro p before after rfl hwords hplaces hafter
  exact h p _ before after hwords hplaces hdecode rfl hafter

/-- **The register that an instruction sets.** -/
theorem runsTo_result (hi : i.written? = some (f, values)) (hfit : Fit values f.operands)
    (rest : Word) (hplain : i.isDotNew = false) {n : Byte} {value : Site → RegisterFile → Word}
    (hresults : ∀ site before newPredicates,
      i.results site before newPredicates = [.value (.general n) (value site before)]) :
    RunsTo (extended extender (f.lastWord values rest)) fun _ before after =>
      ∃ site : Site, site.extender = carried extender ∧
        after.register (.general n) = value site (before.guest []).live := by
  refine runsTo_lastWord hi hfit rest fun p x before after _ hplaces hx hextender hafter => ?_
  refine ⟨p.site x, hextender, ?_⟩
  rw [hafter]
  refine Packet.live_blockAct_of_first hplaces ?_ ?_ (by simp)
  · rw [hplaces]
    simpa [hx] using hplain
  · rw [hx]
    exact hresults _ _ _

variable (extender) in
/-- **Where a jump leads.** A loop that jumps back, which only an extender can mark here, comes
first. -/
theorem runsTo_jump {offset : Word} (hfit : Fit [offset] Form.jump.operands) (rest : Word) :
    RunsTo (extended extender (Form.jump.lastWord [offset] rest)) fun pc before after =>
      ∃ site : Site, site.extender = carried extender ∧ site.packetPc = pc ∧
        after.register .pc =
          if extender.any (·.1) = true ∧ 1 < before.register .lc0 then before.register .sa0
          else site.branchTarget offset 22 := by
  refine runsTo_lastWord (i := .jump offset) rfl hfit rest
    fun p x before after hwords hplaces hx hextender hafter => ?_
  refine ⟨p.site x, hextender, rfl, ?_⟩
  have hloop : p.loopEnd = if extender.any (·.1) then some .loop0 else none := by
    rw [Packet.loopEnd, hwords]
    exact loopEndOf_extended (by rw [Form.role_lastWord]; decide)
  have htarget : p.target? (before.guest []).live =
      some ((p.site x).branchTarget offset 22) := by
    simp [Packet.target?, hplaces, hx, Instruction.target?]
  rw [hafter, Packet.live_pc_blockAct ?_ htarget ?_, hloop]
  · by_cases hmarked : extender.any (·.1) = true
    · simp only [hmarked, if_true, Option.bind_some, LoopEnd.again?, Cpu.guest_live, true_and]
      split_ifs <;> rfl
    · simp [hmarked]
  · rw [hplaces]
    simp [hx, Instruction.isDotNew]
  · intro slot hslot
    rw [Packet.hasSlot_writes, hplaces]
    have hne : slot.val ≠ Register.pc.slot.val := fun heq => hslot (Fin.ext heq)
    simp [hx, Instruction.footprint, Footprint.writes, hne]

end LastWord

/-! ## Duplex words -/

/-- The two instructions of a duplex word whose upper half sets a register. -/
theorem exists_wordPlaces_join {kind : Nat} {group : Group}
    (hgroups : Duplex.groups? kind = some (.a, group)) (rd : BitVec 4) (imm : BitVec 6)
    (lower pc : Word) (supplied : Option Word) :
    let w := Duplex.join kind (SubForm.setImmediateBits rd imm) lower
    w.role = .duplex ∧ ∃ x y : Place, wordPlaces w pc supplied = some [x, y] ∧
      x.extender = supplied ∧
      x.instruction = .subSetImmediate (SubForm.register (rd.setWidth 32)) (imm.setWidth 32) ∧
      y.instruction.footprint = (Instruction.decodeSub lower group).footprint ∧
      y.instruction.isDotNew = false := by
  intro w
  have hkind : kind < 16 := by
    unfold Duplex.groups? at hgroups
    split at hgroups <;> simp_all
  obtain ⟨hrole, hsplit⟩ :=
    Duplex.split_join hkind hgroups (SubForm.setImmediateBits rd imm) lower pc
  -- the number of its group stands above the payload of a half
  have hpayload : ∀ (v : Word) (group : Group), Instruction.payload
      (Instruction.payload v ||| (group.code <<< 13)) = Instruction.payload v := fun v group =>
    (Duplex.payload_or_code (Duplex.toNat_payload_lt v) group).1
  refine ⟨hrole, _, _, by rw [wordPlaces, if_pos hrole, hsplit]; rfl, rfl, ?_, ?_, ?_⟩
  · exact SubForm.decodeSub_setImmediateBits
      ((hpayload _ _).trans (SubForm.payload_assemble .setImmediate _))
  · exact Instruction.footprint_decodeSub_congr (hpayload lower group) group
  · exact (Instruction.of_decodeSub _ _).1

variable (extender) in
/-- **The register that the upper half of a duplex word sets**, if the lower half does not write
it. -/
theorem runsTo_duplex {kind : Nat} {group : Group}
    (hgroups : Duplex.groups? kind = some (.a, group)) {lower : Word} {rd : BitVec 4}
    (hlower : (Instruction.decodeSub lower group).footprint.writes.contains
      (SubForm.registerOf rd) = false) (imm : BitVec 6) :
    RunsTo (extended extender (Duplex.join kind (SubForm.setImmediateBits rd imm) lower))
      fun _ _ after => ∃ site : Site, site.extender = carried extender ∧
        after.register (SubForm.registerOf rd) = site.extendUnsigned (imm.setWidth 32) := by
  obtain ⟨hrole, -⟩ := exists_wordPlaces_join hgroups rd imm lower 0 none
  refine runsTo_extended (by rw [hrole]; rfl)
    (Bool.eq_false_iff.mpr fun hx => Word.role_ne_duplex_of_isExtender hx hrole) fun pc => ?_
  obtain ⟨-, x, y, hplaces, hextender, hx, hfootprint, hplain⟩ := exists_wordPlaces_join hgroups rd
    imm lower (if extender.isSome then pc + 4 else pc) (carried extender)
  refine ⟨[x, y], hplaces, (by decide : 2 ≤ Roster.capacity), ?_⟩
  rintro p before after - - hplaces hafter
  refine ⟨p.site x, hextender, ?_⟩
  rw [hafter]
  refine Packet.live_blockAct_of_first hplaces ?_ ?_ ?_
  · rw [hplaces, List.forall_mem_cons, List.forall_mem_singleton]
    exact ⟨by rw [hx]; rfl, hplain⟩
  · rw [hx]
    rfl
  · rw [List.forall_mem_singleton, hfootprint]
    exact hlower

end Extended

/-! ## Constants -/

theorem RunsTo.mono {words : List Word} {post post' : Word → Cpu → Cpu → Prop}
    (h : RunsTo words post)
    (himp : ∀ pc before after, post pc before after → post' pc before after) :
    RunsTo words post' := by
  intro options fetch pc s hsep hbudget haligned hstored
  obtain ⟨block, s', hgives, hrun⟩ := h options fetch pc s hsep hbudget haligned hstored
  exact ⟨block, s', hgives, fun cpu hcpu => (hrun cpu hcpu).imp id (himp _ _ _)⟩

/-- The low bits of an immediate that completes a constant. -/
theorem setWidth_append_setWidth {n : Nat} (upper : BitVec n) (c : Word) :
    (upper ++ c.setWidth 6).setWidth 6 = c.setWidth 6 := by
  refine BitVec.eq_of_getLsbD_eq fun i hi => ?_
  simp only [BitVec.getLsbD_setWidth, BitVec.getLsbD_append, hi, decide_true, Bool.true_and,
    if_true]

section Immediates

variable {site : Site} {n : Nat} {imm : BitVec n}

/-- **A constant is completed behind its extender**, however the immediate is used. -/
theorem Site.extend_of_carried {marked : Bool} {c : Word}
    (h : site.extender = carried (some (marked, c))) (hlow : imm.setWidth 6 = c.setWidth 6)
    (bits : Nat) :
    site.extendSigned (imm.setWidth 32) bits = c ∧ site.extendUnsigned (imm.setWidth 32) = c ∧
      site.branchTarget (imm.setWidth 32) bits = site.packetPc + c := by
  have hc := c.upperPart_or_low hlow
  rw [extendSigned, extendUnsigned, branchTarget, h]
  exact ⟨hc, hc, congrArg (site.packetPc + ·) hc⟩

/-- **Without an extender an immediate stands for itself**, as a number of its width. -/
theorem Site.extend_of_none (h : site.extender = carried none) (hpos : 0 < n) (hn : n ≤ 32) :
    site.extendSigned (imm.setWidth 32) n = imm.signExtend 32 ∧
      site.extendUnsigned (imm.setWidth 32) = imm.setWidth 32 ∧
      site.branchTarget (imm.setWidth 32) n = site.packetPc + 4 * imm.signExtend 32 := by
  rw [extendSigned, extendUnsigned, branchTarget, h]
  exact ⟨Word.signExtend_setWidth hpos hn imm, rfl,
    congrArg (site.packetPc + ·) (Word.branchOffset_setWidth hpos hn imm)⟩

end Immediates

/-! ### The four ways to use an immediate -/

section Uses

variable (extender : Option (Bool × Word)) (rest : Word) (rd rs : BitVec 5) (imm : BitVec 16)

theorem setWidth_setWidth_register : (rd.setWidth 8).setWidth 32 = rd.setWidth 32 := by
  refine BitVec.eq_of_toNat_eq ?_
  simp only [BitVec.toNat_setWidth]
  omega

theorem runsTo_setImmediate :
    RunsTo (extended extender
        (Form.setImmediate.lastWord [rd.setWidth 32, imm.setWidth 32] rest))
      fun _ _ after => ∃ site : Site, site.extender = carried extender ∧
        after.register (.general (rd.setWidth 8)) = site.extendSigned (imm.setWidth 32) 16 := by
  refine runsTo_result (i := .setImmediate (rd.setWidth 8) (imm.setWidth 32)) ?_ ?_ rest rfl
    fun _ _ _ => rfl
  · rw [Instruction.written?, setWidth_setWidth_register]
  · exact .cons (Word.toNat_setWidth_lt (by decide) rd)
      (.cons (Word.toNat_setWidth_lt (by decide) imm) .nil)

theorem runsTo_addImmediate :
    RunsTo (extended extender
        (Form.addImmediate.lastWord [rd.setWidth 32, rs.setWidth 32, imm.setWidth 32] rest))
      fun _ before after => ∃ site : Site, site.extender = carried extender ∧
        after.register (.general (rd.setWidth 8)) =
          before.register (.general (rs.setWidth 8)) + site.extendSigned (imm.setWidth 32) 16 := by
  refine RunsTo.mono (runsTo_result
    (i := .addImmediate (rd.setWidth 8) (rs.setWidth 8) (imm.setWidth 32)) ?_ ?_ rest rfl
    fun _ _ _ => rfl) ?_
  · rw [Instruction.written?, setWidth_setWidth_register, setWidth_setWidth_register]
  · exact .cons (Word.toNat_setWidth_lt (by decide) rd)
      (.cons (Word.toNat_setWidth_lt (by decide) rs)
        (.cons (Word.toNat_setWidth_lt (by decide) imm) .nil))
  · rintro pc before after ⟨site, hsite, hafter⟩
    exact ⟨site, hsite, by rw [hafter, Cpu.guest_live]⟩

end Uses

/-- **Extended immediates give every constant.** Whatever the upper bits of the immediate are, the
extender of `c` and the low six bits of `c` behind it set a register to `c`, add `c` to a register,
set a register to `c` from the upper half of a duplex word whose lower half does not write it, and
jump to the address that lies `c` bytes behind the packet's, unless the extender also ends a loop
that jumps back. Without an extender the same fields are read as numbers of 16 bits with a sign, of
6 bits without one, and as a distance of 22 bits with a sign that counts words. -/
theorem extended_immediates_give_constants (c rest : Word) (marked : Bool) :
    (∀ (rd : BitVec 5) (upper : BitVec 10),
      RunsTo [.extenderFor marked c, Form.setImmediate.lastWord
          [rd.setWidth 32, (upper ++ c.setWidth 6).setWidth 32] rest]
        fun _ _ after => after.register (.general (rd.setWidth 8)) = c) ∧
    (∀ (rd rs : BitVec 5) (upper : BitVec 10),
      RunsTo [.extenderFor marked c, Form.addImmediate.lastWord
          [rd.setWidth 32, rs.setWidth 32, (upper ++ c.setWidth 6).setWidth 32] rest]
        fun _ before after => after.register (.general (rd.setWidth 8)) =
          before.register (.general (rs.setWidth 8)) + c) ∧
    (∀ (rd : BitVec 4) (kind : Nat) (group : Group) (lower : Word),
      Duplex.groups? kind = some (.a, group) →
      (Instruction.decodeSub lower group).footprint.writes.contains (SubForm.registerOf rd) =
        false →
      RunsTo [.extenderFor marked c,
          Duplex.join kind (SubForm.setImmediateBits rd (c.setWidth 6)) lower]
        fun _ _ after => after.register (SubForm.registerOf rd) = c) ∧
    (∀ upper : BitVec 16,
      RunsTo [.extenderFor marked c,
          Form.jump.lastWord [(upper ++ c.setWidth 6).setWidth 32] rest]
        fun pc before after => after.register .pc =
          if marked = true ∧ 1 < before.register .lc0 then before.register .sa0 else pc + c) ∧
    (∀ (rd : BitVec 5) (imm : BitVec 16),
      RunsTo [Form.setImmediate.lastWord [rd.setWidth 32, imm.setWidth 32] rest]
        fun _ _ after => after.register (.general (rd.setWidth 8)) = imm.signExtend 32) ∧
    (∀ (rd rs : BitVec 5) (imm : BitVec 16),
      RunsTo [Form.addImmediate.lastWord [rd.setWidth 32, rs.setWidth 32, imm.setWidth 32] rest]
        fun _ before after => after.register (.general (rd.setWidth 8)) =
          before.register (.general (rs.setWidth 8)) + imm.signExtend 32) ∧
    (∀ (rd : BitVec 4) (imm : BitVec 6) (kind : Nat) (group : Group) (lower : Word),
      Duplex.groups? kind = some (.a, group) →
      (Instruction.decodeSub lower group).footprint.writes.contains (SubForm.registerOf rd) =
        false →
      RunsTo [Duplex.join kind (SubForm.setImmediateBits rd imm) lower]
        fun _ _ after => after.register (SubForm.registerOf rd) = imm.setWidth 32) ∧
    ∀ offset : BitVec 22,
      RunsTo [Form.jump.lastWord [offset.setWidth 32] rest]
        fun pc _ after => after.register .pc = pc + 4 * offset.signExtend 32 := by
  have hjumpFit (offset : BitVec 22) : Fit [offset.setWidth 32] Form.jump.operands :=
    .cons (Word.toNat_setWidth_lt (by decide) offset) .nil
  refine ⟨?_, ?_, ?_, ?_, ?_, ?_, ?_, ?_⟩
  · intro rd upper
    refine (runsTo_setImmediate (some (marked, c)) rest rd (upper ++ c.setWidth 6)).mono ?_
    rintro - - after ⟨site, hsite, hafter⟩
    exact hafter.trans (site.extend_of_carried hsite (setWidth_append_setWidth upper c) 16).1
  · intro rd rs upper
    refine (runsTo_addImmediate (some (marked, c)) rest rd rs (upper ++ c.setWidth 6)).mono ?_
    rintro - before after ⟨site, hsite, hafter⟩
    rw [hafter, (site.extend_of_carried hsite (setWidth_append_setWidth upper c) 16).1]
  · intro rd kind group lower hgroups hlower
    refine (runsTo_duplex (some (marked, c)) hgroups hlower (c.setWidth 6)).mono ?_
    rintro - - after ⟨site, hsite, hafter⟩
    exact hafter.trans (site.extend_of_carried hsite (BitVec.setWidth_eq _) 6).2.1
  · intro upper
    refine (runsTo_jump (some (marked, c)) (hjumpFit (upper ++ c.setWidth 6)) rest).mono ?_
    rintro pc before after ⟨site, hsite, rfl, hafter⟩
    rw [hafter, (site.extend_of_carried hsite (setWidth_append_setWidth upper c) 22).2.2]
    rfl
  · intro rd imm
    refine (runsTo_setImmediate none rest rd imm).mono ?_
    rintro - - after ⟨site, hsite, hafter⟩
    exact hafter.trans (site.extend_of_none hsite (by decide) (by decide)).1
  · intro rd rs imm
    refine (runsTo_addImmediate none rest rd rs imm).mono ?_
    rintro - before after ⟨site, hsite, hafter⟩
    rw [hafter, (site.extend_of_none hsite (by decide) (by decide)).1]
  · intro rd imm kind group lower hgroups hlower
    refine (runsTo_duplex none hgroups hlower imm).mono ?_
    rintro - - after ⟨site, hsite, hafter⟩
    exact hafter.trans (site.extend_of_none hsite (by decide) (by decide)).2.1
  · intro offset
    refine (runsTo_jump none (hjumpFit offset) rest).mono ?_
    rintro pc before after ⟨site, hsite, rfl, hafter⟩
    rw [hafter, (site.extend_of_none hsite (by decide) (by decide)).2.2]
    exact if_neg (by simp)

/-- The constant `0xDEADBEEF` for `r1`, and `r23 = add(r16, #1)` beside it. -/
def constantPacket : Fetch := fun address =>
  if address = 0 then some 0x0DEA76FB else if address = 4 then some 0x2AF1318F else none

theorem extended_immediates_give_constants_constantPacket :
    ∃ block s', (liftBlock scalarCore { maxPackets := 1 } constantPacket 0).Gives
        { state := (0 : Nat) } block s' ∧
      ∀ cpu : Cpu, cpu.Fits .packed →
        (block.listing.run cpu).2.register (.general 1) = 0xDEADBEEF := by
  have hextender : Word.extenderFor false 0xDEADBEEF = 0x0DEA76FB := by decide +kernel
  have hduplex : Duplex.join 3
      (SubForm.setImmediateBits 1 ((0xDEADBEEF : Word).setWidth 6)) 0x118F = 0x2AF1318F := by
    decide +kernel
  have hruns := (extended_immediates_give_constants 0xDEADBEEF 0 false).2.2.1 1 3 .a 0x118F rfl
    (by decide +kernel)
  rw [hextender, hduplex] at hruns
  obtain ⟨block, s', hgives, hrun⟩ := hruns { maxPackets := 1 } constantPacket 0 ⟨(0 : Nat), #[]⟩
    Layout.separate_packed (by decide) (by decide) ⟨rfl, rfl, trivial⟩
  exact ⟨block, s', hgives, fun cpu hcpu => (hrun cpu hcpu).2⟩

end PacketLift
