import PacketLift.Proofs.Block.Packets
import PacketLift.Proofs.Packet.Meaning

/-!
# Lifting packet by packet

A block is lifted in steps, one for each packet. Much of what is proved about blocks holds for any
instruction set, whether or not it only appends: it is shown for one packet and carried along the
steps. This module gives the steps as a relation, and says what one step adds to a build.

## Main definitions

* `PacketInfo.Counts`, `Build.Gains`: what is told about a packet, and what it adds to a build
* `Draft.Idle`: nothing of a packet is pending
* `LiftsPackets`: packets lifted one behind the other, with the sessions between them

## Main results

* `exists_gains_of_liftPacket`: what one step adds
* `gives_liftPackets_iff`, `gives_liftBlock_iff`: packets and blocks are lifted in such steps
-/

namespace PacketLift

variable {isa : InstructionSet}

/-! ## One packet -/

/-- The address behind a packet. -/
def PacketInfo.after (info : PacketInfo) : Word := info.pc + 4 * BitVec.ofNat 32 info.words

/-- The address behind a packet, found ahead of reading it, is the right one. -/
theorem Packet.addressBehind_eq {fetch : Fetch} {p : Packet} (h : at? fetch p.pc = some p) :
    addressBehind fetch p.pc = .ok p.after := by
  obtain ⟨-, hwindow, hplaces, hroom⟩ := at?_eq_some_iff.mp h
  exact addressBehind_of_places hwindow hplaces hroom

/-- What is told about a packet has its address, counts its words and instructions, and names the
loops that end with it. -/
structure PacketInfo.Counts (info : PacketInfo) (p : Packet) : Prop where
  pc : info.pc = p.pc
  words : info.words = p.words.length
  instructions : info.instructions = p.places.length
  loopEnd : info.loopEnd = p.loopEnd

theorem PacketInfo.Counts.after_eq {info : PacketInfo} {p : Packet} (h : info.Counts p) :
    info.after = p.after := by
  rw [PacketInfo.after, h.pc, h.words, Packet.after]

/-- **Nothing is pending**: no word was read, no extender waits, no loop end or trap is marked, and
no instruction is on the roster. -/
structure Draft.Idle (d : Draft) : Prop where
  words : d.words = 0
  extender : d.extender = none
  mark0 : d.mark0 = false
  mark1 : d.mark1 = false
  trap : d.trap = false
  roster : d.roster = .empty

/-- **What a packet adds to a build**: it is told about last, its words are counted, and nothing of
it is pending any more. -/
structure Build.Gains (b : Build) (p : Packet) (info : PacketInfo) (b' : Build) : Prop where
  packets : b'.packets = b.packets ++ [info]
  words : b'.words = b.words + BitVec.ofNat 32 p.words.length
  idle : b'.draft.Idle
  info : info.Counts p

/-- The next packet starts behind the words of this one. -/
theorem Build.Gains.next_eq {b b' : Build} {p : Packet} {info : PacketInfo}
    (h : b.Gains p info b') : p.pc + 4 * (b'.words - b.words) = p.after :=
  Build.add_sub_words h.words p.pc

/-- Each lifted instruction has a record. -/
theorem LiftsPlaces.size_eq {packetPc nextPc : Word} {p q : Progress} {ps : List Place}
    (h : LiftsPlaces isa packetPc nextPc p ps q) :
    q.roster.size = p.roster.size + ps.length := by
  induction h with
  | nil => rfl
  | cons s s' _ _ ih =>
    rw [ih, Progress.lift, Roster.size_add, List.length_cons, Nat.add_right_comm, Nat.add_assoc]

/-- **What lifting a packet adds**, for any instruction set: the packet that memory has at the
address. -/
theorem exists_gains_of_liftPacket {fetch : Fetch} {pc : Word} {b b' : Build}
    {s s' : Session isa.State} (h : (liftPacket isa fetch pc b).Gives s b' s') :
    ∃ p info, Packet.at? fetch pc = some p ∧ b.Gains p info b' := by
  obtain ⟨nextPc, words, b₁, s₁, -, hwindow, hwords, hfinish⟩ := gives_liftPacket_iff.mp h
  obtain ⟨hextender, closing, listing, -, rfl⟩ := exists_gives_finishPacket.mp ⟨s', hfinish⟩
  obtain ⟨ps, hps, hlifts, hframe⟩ := exists_places_of_liftWords hwords hextender
  rw [Build.foldl_countWord] at hframe
  have hsize : b₁.draft.roster.size = 0 + ps.length := hlifts.size_eq
  have hroom : 0 + ps.length ≤ Roster.capacity := hlifts.length_le (Nat.zero_le _)
  have hcount : b₁.draft.words = 0 + words.length := congrArg (·.draft.words) hframe
  rw [Nat.zero_add] at hsize hroom hcount
  let info : PacketInfo :=
    { pc := b₁.draft.packetPc, words := b₁.draft.words, instructions := b₁.draft.roster.size
      closing, loopEnd := b₁.draft.loopEnd }
  have hloop : b₁.draft.loopEnd = loopEndOf words := by
    have hmark0 : b₁.draft.mark0 = isMarked words 0 := congrArg (·.draft.mark0) hframe
    have hmark1 : b₁.draft.mark1 = isMarked words 1 := congrArg (·.draft.mark1) hframe
    rw [Draft.loopEnd, hmark0, hmark1, loopEndOf]
  refine ⟨⟨pc, words, ps⟩, info, Packet.at?_eq_some_iff.mpr ⟨rfl, hwindow, hps, hroom⟩, ?_,
    congrArg (·.words) hframe, ⟨rfl, rfl, rfl, rfl, rfl, rfl⟩, congrArg (·.draft.packetPc) hframe,
    hcount, hsize, hloop⟩
  have hpackets : b₁.packets = b.packets := congrArg (·.packets) hframe
  rw [Build.finished, hpackets]

/-! ## All packets -/

/-- **Packets lifted one behind the other**, from a build and a session to the result and the
session behind it. They go on until one of them ends the block, and the budget is how many there may
be behind the first. -/
inductive LiftsPackets (isa : InstructionSet) (fetch : Fetch) :
    Nat → Word → Build → Session isa.State → Build × BlockExit × Word → Session isa.State →
      Prop where
  | last {budget : Nat} {pc : Word} {b b' : Build} {s s' : Session isa.State} :
      (liftPacket isa fetch pc b).Gives s b' s' → (b'.exit = none → budget = 0) →
      LiftsPackets isa fetch budget pc b s
        (b', b'.exit.getD .budget, pc + 4 * (b'.words - b.words)) s'
  | cons {budget : Nat} {pc : Word} {b b' : Build} {s t s' : Session isa.State}
      {result : Build × BlockExit × Word} :
      (liftPacket isa fetch pc b).Gives s b' t → b'.exit = none →
      LiftsPackets isa fetch budget (pc + 4 * (b'.words - b.words)) b' t result s' →
      LiftsPackets isa fetch (budget + 1) pc b s result s'

/-- **Lifting packets succeeds in steps**, one for each packet. -/
theorem gives_liftPackets_iff {fetch : Fetch} {budget : Nat} {pc : Word} {b : Build}
    {s s' : Session isa.State} {result : Build × BlockExit × Word} :
    (liftPackets isa fetch pc b budget).Gives s result s' ↔
      LiftsPackets isa fetch budget pc b s result s' := by
  constructor
  · intro h
    induction budget generalizing pc b s with
    | zero =>
      obtain ⟨b₁, t, hpacket, hpure⟩ := Lift.gives_bind.mp h
      obtain ⟨rfl, rfl⟩ := Lift.gives_pure.mp hpure
      exact .last hpacket fun _ => rfl
    | succ budget ih =>
      obtain ⟨b₁, t, hpacket, hrest⟩ := Lift.gives_bind.mp h
      cases hexit : b₁.exit with
      | some exit =>
        rw [hexit] at hrest
        obtain ⟨rfl, rfl⟩ := Lift.gives_pure.mp hrest
        have hlast : LiftsPackets isa fetch (budget + 1) pc b s (b₁, b₁.exit.getD .budget, _) t :=
          .last hpacket (by simp [hexit])
        rwa [hexit] at hlast
      | none =>
        rw [hexit] at hrest
        exact .cons hpacket hexit (ih hrest)
  · intro h
    induction h with
    | @last budget pc b b' s s' hpacket hbudget =>
      cases budget with
      | zero => exact Lift.gives_bind.mpr ⟨b', s', hpacket, Lift.gives_pure.mpr ⟨rfl, rfl⟩⟩
      | succ budget =>
        refine Lift.gives_bind.mpr ⟨b', s', hpacket, ?_⟩
        cases hexit : b'.exit with
        | some exit => exact Lift.gives_pure.mpr ⟨rfl, rfl⟩
        | none => exact absurd (hbudget hexit) (Nat.succ_ne_zero budget)
    | cons hpacket hexit _ ih =>
      refine Lift.gives_bind.mpr ⟨_, _, hpacket, ?_⟩
      rw [hexit]
      exact ih

/-! ## The block -/

/-- The block that is made of a build, when its packets end at `after`. -/
def Build.block (b : Build) (entry : Word) (exit : BlockExit) (after : Word) : Block where
  entry := entry
  exit := exit
  packets := b.packets
  words := b.words
  byteSize := after - entry
  listing := (if exit = .branch then b.listing
    else b.listing.append (.set Global.pc after)).append .exitBlock

theorem Build.after_block (b : Build) (entry : Word) (exit : BlockExit) (after : Word) :
    (b.block entry exit after).after = after := by
  rw [Block.after, block, BitVec.add_comm, BitVec.sub_add_cancel]

/-- **When lifting a block succeeds**, and with what. -/
theorem gives_liftBlock_iff {options : LiftOptions} {fetch : Fetch} {entry : Word}
    {block : Block} {s s' : Session isa.State} :
    (liftBlock isa options fetch entry).Gives s block s' ↔
      entry &&& 3 = 0 ∧ ∃ b exit after t,
        LiftsPackets isa fetch (options.maxPackets - 1) entry
          { listing := .forGuest options.layout } s (b, exit, after) t ∧
        block = b.block entry exit after ∧
        { t with journal := t.journal.push block.message } = s' := by
  unfold liftBlock
  split_ifs with haligned
  · have hne : entry &&& 3 ≠ 0 := by simpa using haligned
    constructor
    · intro h
      obtain ⟨_, _, hthrow, -⟩ := Lift.gives_bind.mp h
      exact absurd hthrow Lift.not_gives_throw
    · rintro ⟨heq, -⟩
      exact absurd heq hne
  · have heq : entry &&& 3 = 0 := by simpa using haligned
    constructor
    · intro h
      obtain ⟨⟨b, exit, after⟩, t, hpackets, h⟩ := Lift.gives_bind.mp h
      obtain ⟨_, t', hnote, hpure⟩ := Lift.gives_bind.mp h
      obtain ⟨rfl, rfl⟩ := Lift.gives_pure.mp hpure
      exact ⟨heq, b, exit, after, t, gives_liftPackets_iff.mp hpackets, rfl,
        Lift.gives_note.mp hnote⟩
    · rintro ⟨-, b, exit, after, t, hpackets, rfl, hnote⟩
      exact Lift.gives_bind.mpr ⟨_, t, gives_liftPackets_iff.mpr hpackets, Lift.gives_bind.mpr
        ⟨(), s', Lift.gives_note.mpr hnote, Lift.gives_pure.mpr ⟨rfl, rfl⟩⟩⟩

/-- Reporting faults makes no difference to blocks that are lifted. -/
theorem gives_liftBlock_of_liftReporting {options : LiftOptions} {fetch : Fetch}
    {entry : Word} {block : Block} {s s' : Session isa.State}
    (h : (liftReporting isa options fetch entry).run s = (.ok block, s')) :
    (liftBlock isa options fetch entry).Gives s block s' := by
  rcases Lift.gives_tryCatch.mp h with hblock | ⟨fault, t, -, hthrow⟩
  · exact hblock
  · obtain ⟨_, _, -, hthrow⟩ := Lift.gives_bind.mp hthrow
    exact absurd hthrow Lift.not_gives_throw

end PacketLift
