import Mathlib.Algebra.Order.BigOperators.Group.List
import Mathlib.Algebra.Order.Ring.Nat
import PacketLift.Proofs.Block.Steps

/-!
# Reading words comes to an end

Packets are read within a window of ten words. This module shows that the window is no restriction.
It gives the loop that reads one word after the other, opens a packet if none is open, and closes it
behind the word that ends it. Nothing in this loop knows how many words a packet may have, and
memory may have a word at every address. It ends nevertheless, since two extenders in a row are a
fault and so is a fifth instruction: a packet that is closed has had eight words at most, and one
that is not closed has failed with its tenth at the latest.

## Main definitions

* `Cursor`, `Cursor.turn`, `Cursor.turns`: the loop, one word at a time
* `liftByWords`: a block lifted in a number of turns
* `Draft.Bounded`, `Build.Counted`: what bounds the words of a packet, and those of a block

## Main results

* `Draft.Bounded.of_liftWord`: one word keeps the bound
* `turns_eq_liftPackets`: the loop lifts the packets of a block
* `Cursor.counted_of_turns`: the words that were read, as long as the loop goes on
* `wordLoop_terminates`: the loop ends, with the block or the fault that lifting gives
-/

namespace PacketLift

variable {isa : InstructionSet}

/-! ## The loop -/

/-- **Where the loop stands**: the address of the next word, and what has been built so far. -/
structure Cursor where
  pc : Word
  build : Build

/-- What a turn of the loop comes to. -/
inductive Turn where
  /-- Another word has to be read. -/
  | goesOn (c : Cursor)
  /-- The packets of the block are complete. -/
  | complete (b : Build) (exit : BlockExit) (after : Word)

namespace Cursor

/-- The build in which the next word is read. A packet is opened if none is open. -/
def ready (isa : InstructionSet) (fetch : Fetch) (c : Cursor) : Lift isa.State Build :=
  match c.build.draft.phase with
  | .accumulating => return c.build
  | .awaiting => do
    let nextPc ← addressBehind fetch c.pc
    return c.build.opened c.pc nextPc

/-- Whether the loop goes on behind a word: not if the packet that was closed ends the block, and
not if there are as many packets as the limit allows. -/
def next (limit : Nat) (pc : Word) (b : Build) : Turn :=
  match b.exit with
  | some exit => .complete b exit pc
  | none =>
    if b.draft.phase = .awaiting ∧ limit ≤ b.packets.length then .complete b .budget pc
    else .goesOn ⟨pc, b⟩

/-- The packet is closed if the word at `pc` ends it. -/
def finish {State : Type} (w pc : Word) (b : Build) : Lift State Build :=
  if w.role.endsPacket then finishPacket pc b else return b

/-- **One turn of the loop**: a word is read, and its packet is closed if the word ends it. -/
def turn (isa : InstructionSet) (fetch : Fetch) (limit : Nat) (c : Cursor) :
    Lift isa.State Turn := do
  let b ← c.ready isa fetch
  match fetch c.pc with
  | none => throw (.unmapped c.pc)
  | some w =>
    let b ← liftWord isa w c.pc b
    let b ← finish w c.pc b
    return next limit (c.pc + 4) b

/-- **The loop**, given up after a number of turns. -/
def turns (isa : InstructionSet) (fetch : Fetch) (limit : Nat) (c : Cursor) :
    Nat → Lift isa.State Turn
  | 0 => return .goesOn c
  | n + 1 => do
    match ← c.turn isa fetch limit with
    | .goesOn c => c.turns isa fetch limit n
    | .complete b exit after => return .complete b exit after

end Cursor

/-- Where the loop starts. -/
def LiftOptions.start (options : LiftOptions) (entry : Word) : Cursor :=
  ⟨entry, { listing := .forGuest options.layout }⟩

/-- The largest number of packets in a block. -/
def LiftOptions.limit (options : LiftOptions) : Nat := max 1 options.maxPackets

/-- **The block at `entry`, lifted word by word** in a number of turns, if these are enough. -/
def liftByWords (isa : InstructionSet) (options : LiftOptions) (fetch : Fetch) (entry : Word)
    (n : Nat) : Lift isa.State (Option Block) := do
  if entry &&& 3 != 0 then
    throw (.misaligned entry)
  match ← (options.start entry).turns isa fetch options.limit n with
  | .goesOn _ => return none
  | .complete b exit after =>
    Lift.note (b.block entry exit after).message
    return some (b.block entry exit after)

/-! ## What bounds a packet -/

/-- **What bounds the words of a packet**: each instruction has a word of its own, one more word in
front of it at most, and one more may wait for the instruction behind it. -/
structure Draft.Bounded (d : Draft) : Prop where
  room : d.roster.size ≤ Roster.capacity
  words : d.words ≤ 2 * d.roster.size + d.extender.toList.length

namespace Draft.Bounded

variable {d : Draft}

/-- Nine words at most have been read without a fault. -/
theorem words_lt (h : d.Bounded) : d.words < readLimit := by
  have hroom := h.room
  have hwords := h.words
  have hone : d.extender.toList.length ≤ 1 := by cases d.extender <;> simp
  simp only [Roster.capacity, readLimit] at *
  omega

/-- A packet in which no extender waits has eight words at most. -/
theorem words_le (h : d.Bounded) (hextender : d.extender = none) : d.words ≤ searchLimit := by
  have hroom := h.room
  have hwords := h.words
  simp only [hextender, Option.toList_none, List.length_nil, Roster.capacity, searchLimit] at *
  omega

theorem begin (d : Draft) (pc nextPc : Word) (anchor : OpId) :
    (d.begin pc nextPc anchor).Bounded :=
  ⟨Nat.zero_le _, Nat.zero_le _⟩

theorem reset (d : Draft) : { d.reset with phase := .awaiting : Draft }.Bounded :=
  ⟨Nat.zero_le _, Nat.zero_le _⟩

end Draft.Bounded

/-- Reading a word counts it, and changes nothing else but the instructions and the extender. -/
theorem frame_of_liftWord {w pc : Word} {b b' : Build} {s s' : Session isa.State}
    (h : (liftWord isa w pc b).Gives s b' s') : b'.frame = b.frame.countWord w := by
  obtain ⟨-, t, -, hread⟩ := Lift.gives_bind.mp h
  rw [← b.frame_countWord]
  rcases readWord_cases hread with ⟨-, -, rfl⟩ | ⟨-, here, -, hlifted⟩
  · rfl
  · exact hlifted.frame

/-- What reading a word counts, and what it leaves alone. -/
theorem counts_of_liftWord {w pc : Word} {b b' : Build} {s s' : Session isa.State}
    (h : (liftWord isa w pc b).Gives s b' s') :
    b'.words = b.words + 1 ∧ b'.draft.words = b.draft.words + 1 ∧ b'.packets = b.packets ∧
      b'.exit = b.exit ∧ b'.draft.phase = b.draft.phase := by
  have hframe := frame_of_liftWord h
  rw [Build.countWord, Draft.countWord_eq] at hframe
  exact ⟨congrArg (·.words) hframe, congrArg (·.draft.words) hframe, congrArg (·.packets) hframe,
    congrArg (·.exit) hframe, congrArg (·.draft.phase) hframe⟩

/-- **One word keeps the bound.** An extender waits where none has waited before, and any other word
brings an instruction at least. -/
theorem Draft.Bounded.of_liftWord {w pc : Word} {b b' : Build} {s s' : Session isa.State}
    (h : (liftWord isa w pc b).Gives s b' s') (hb : b.draft.Bounded) : b'.draft.Bounded := by
  obtain ⟨-, hcount, -⟩ := counts_of_liftWord h
  have hroster : (b.countWord w).draft.roster = b.draft.roster :=
    congrArg (·.roster) (b.progress_countWord w)
  have hroom : (b.countWord w).draft.roster.size ≤ Roster.capacity := hroster ▸ hb.room
  have hwords := hb.words
  obtain ⟨-, t, -, hread⟩ := Lift.gives_bind.mp h
  have hcases := readWord_cases hread
  rw [b.extender_countWord] at hcases
  rcases hcases with ⟨-, hnone, rfl⟩ | ⟨-, here, hhere, hlifted⟩
  · rw [hnone] at hwords
    refine ⟨hroom, hcount.le.trans ?_⟩
    show b.draft.words + 1 ≤ 2 * (b.countWord w).draft.roster.size + 1
    rw [hroster]
    simpa using hwords
  · have hnone : b'.draft.extender = none := hlifted.extender
    have hsize : b'.draft.roster.size = (b.countWord w).draft.roster.size + here.length :=
      hlifted.places.size_eq
    have hfits : (b.countWord w).draft.roster.size + here.length ≤ Roster.capacity :=
      hlifted.places.length_le hroom
    have hpos := length_pos_of_wordPlaces hhere
    have hone : b.draft.extender.toList.length ≤ 1 := by cases b.draft.extender <;> simp
    rw [hroster] at hsize hfits
    refine ⟨hsize.le.trans hfits, ?_⟩
    rw [hcount, hsize, hnone]
    simp only [Option.toList_none, List.length_nil]
    omega

/-! ## The loop and the window -/

/-- What runs behind a computation matters only for what it gives. -/
theorem Lift.bind_congr {State α β : Type} {x : Lift State α} {f g : α → Lift State β}
    (h : ∀ s a s', x.Gives s a s' → f a = g a) : x >>= f = x >>= g := by
  apply ExceptT.ext
  funext s
  show ExceptT.bindCont f (x.run s).1 (x.run s).2 = ExceptT.bindCont g (x.run s).1 (x.run s).2
  rcases hx : x.run s with ⟨fault | a, s'⟩
  · rfl
  · exact congrArg (·.run s') (h s a s' hx)

/-- A fault comes from the first computation, or from what runs behind it. -/
theorem Lift.of_bind_eq_error {State α β : Type} {x : Lift State α} {f : α → Lift State β}
    {fault : Fault} {s s' : Session State} (h : (x >>= f).run s = (.error fault, s')) :
    x.run s = (.error fault, s') ∨ ∃ a t, x.Gives s a t ∧ (f a).run t = (.error fault, s') := by
  have hrun : (x >>= f).run s = ExceptT.bindCont f (x.run s).1 (x.run s).2 := rfl
  rw [hrun] at h
  rcases hx : x.run s with ⟨fault' | a, t⟩ <;> rw [hx] at h
  · cases h
    exact .inl rfl
  · exact .inr ⟨a, t, hx, h⟩

/-- The rest of the packet at `start`, read within a window from `pc` on. -/
def liftRest (isa : InstructionSet) (fetch : Fetch) (start : Word) (limit : Nat) (pc : Word)
    (b : Build) : Lift isa.State Build := do
  let ahead := window fetch pc limit
  let b ← liftWords isa pc b ahead.words
  match ahead.ending with
  | .closed => finishPacket (pc + 4 * BitVec.ofNat 32 (ahead.words.length - 1)) b
  | .unmapped address => throw (.unmapped address)
  | .unfinished => throw (.packetFull Roster.capacity start)

theorem liftPacket_eq (fetch : Fetch) (pc : Word) (b : Build) :
    liftPacket isa fetch pc b = (do
      let nextPc ← addressBehind fetch pc
      liftRest isa fetch pc readLimit pc (b.opened pc nextPc)) := rfl

/-- **A window is read word by word.** -/
theorem liftRest_succ (fetch : Fetch) (start : Word) (limit : Nat) (pc : Word) (b : Build) :
    liftRest isa fetch start (limit + 1) pc b =
      match fetch pc with
      | none => throw (.unmapped pc)
      | some w => (do
        let b ← liftWord isa w pc b
        if w.role.endsPacket then finishPacket pc b
        else liftRest isa fetch start limit (pc + 4) b) := by
  unfold liftRest
  rw [window]
  cases fetch pc with
  | none => simp [liftWords]
  | some w =>
    cases hends : w.role.endsPacket with
    | true => simp [liftWords, hends]
    | false =>
      simp only [hends, Bool.false_eq_true, if_false, liftWords, bind_assoc]
      refine bind_congr fun b => bind_congr fun b => ?_
      cases hending : (window fetch (pc + 4) limit).ending with
      | unmapped address => rfl
      | unfinished => rfl
      | closed =>
        have hpos : 0 < (window fetch (pc + 4) limit).words.length :=
          (window_eq_closed_iff.mp (by rw [← hending])).1.length_pos
        obtain ⟨k, hk⟩ := Nat.exists_eq_succ_of_ne_zero hpos.ne'
        simp only [List.length_cons, hk, Nat.succ_eq_add_one, Nat.add_sub_cancel]
        rw [BitVec.ofNat_add, BitVec.mul_add, BitVec.add_comm (4 * _), ← BitVec.add_assoc]
        rfl

/-- What follows behind a packet, with a budget for those behind it. -/
def liftBehind (isa : InstructionSet) (fetch : Fetch) (pc : Word) (b : Build) :
    Nat → Lift isa.State (Build × BlockExit × Word)
  | 0 => return (b, b.exit.getD .budget, pc)
  | budget + 1 =>
    match b.exit with
    | some exit => return (b, exit, pc)
    | none => liftPackets isa fetch pc b budget

theorem liftPackets_eq (fetch : Fetch) (pc : Word) (b : Build) (budget : Nat) :
    liftPackets isa fetch pc b budget = (do
      let after ← liftPacket isa fetch pc b
      liftBehind isa fetch (pc + 4 * (after.words - b.words)) after budget) := by
  cases budget <;> rfl

namespace Cursor

variable {fetch : Fetch} {limit : Nat}

/-- With no packet open, a turn opens one and then goes on as in an open packet. -/
theorem turn_of_awaiting {c : Cursor} (h : c.build.draft.phase = .awaiting) :
    c.turn isa fetch limit = (do
      let nextPc ← addressBehind fetch c.pc
      turn isa fetch limit ⟨c.pc, c.build.opened c.pc nextPc⟩) := by
  simp only [turn, ready, h, bind_assoc, pure_bind]
  rfl

theorem turns_of_awaiting {c : Cursor} (h : c.build.draft.phase = .awaiting) (n : Nat) :
    c.turns isa fetch limit (n + 1) = (do
      let nextPc ← addressBehind fetch c.pc
      turns isa fetch limit ⟨c.pc, c.build.opened c.pc nextPc⟩ (n + 1)) := by
  simp only [turns, turn_of_awaiting h, bind_assoc]

/-- **A turn in an open packet.** -/
theorem turn_of_accumulating {c : Cursor} (h : c.build.draft.phase = .accumulating) :
    c.turn isa fetch limit =
      match fetch c.pc with
      | none => throw (.unmapped c.pc)
      | some w => (do
        let b ← liftWord isa w c.pc c.build
        let b ← finish w c.pc b
        return next limit (c.pc + 4) b) := by
  simp only [turn, ready, h, pure_bind]

end Cursor

/-- The packets of a block as what the loop comes to. -/
def completed (result : Build × BlockExit × Word) : Turn := .complete result.1 result.2.1 result.2.2

section Agreement

variable {fetch : Fetch} {limit budget : Nat}

/-- What the loop does behind a packet, with `n` turns left. -/
def turnsBehind (isa : InstructionSet) (fetch : Fetch) (limit : Nat) (pc : Word) (b : Build)
    (n : Nat) : Lift isa.State Turn :=
  match Cursor.next limit pc b with
  | .goesOn c => c.turns isa fetch limit n
  | .complete b exit after => return .complete b exit after

/-- **The loop reads an open packet as a window does.** What is left of the window is what is left
of the ten words, and the packet cannot use it up. -/
theorem turns_eq_liftRest {start words : Word}
    (hbehind : ∀ n pc b, 8 * budget + 2 ≤ n → b.draft.phase = .awaiting →
      b.packets.length + budget = limit →
      turnsBehind isa fetch limit pc b n = completed <$> liftBehind isa fetch pc b budget)
    {left n : Nat} {pc : Word} {b : Build} (hn : 8 * budget + left ≤ n)
    (hphase : b.draft.phase = .accumulating) (hexit : b.exit = none) (hb : b.draft.Bounded)
    (hleft : b.draft.words + left = readLimit) (hpackets : b.packets.length + 1 + budget = limit)
    (hpc : start + 4 * (b.words - words) = pc) :
    Cursor.turns isa fetch limit ⟨pc, b⟩ n = (do
      let after ← liftRest isa fetch start left pc b
      completed <$> liftBehind isa fetch (start + 4 * (after.words - words)) after budget) := by
  induction left generalizing n pc b with
  | zero => exact absurd hleft hb.words_lt.ne
  | succ left ih =>
    obtain ⟨n, rfl⟩ : ∃ m, n = m + 1 := ⟨n - 1, by omega⟩
    rw [Cursor.turns, Cursor.turn_of_accumulating hphase, liftRest_succ]
    cases fetch pc with
    | none => rfl
    | some w =>
      simp only [bind_assoc]
      refine Lift.bind_congr fun s b' s' hword => ?_
      obtain ⟨hcount, hdraft, hpackets', hexit', hphase'⟩ := counts_of_liftWord hword
      have hbounded := hb.of_liftWord hword
      have hnext : start + 4 * (b'.words - words) = pc + 4 := by
        rw [hcount, ← hpc]
        grind
      unfold Cursor.finish
      cases w.role.endsPacket with
      | true =>
        simp only [if_true, pure_bind]
        refine Lift.bind_congr fun t after t' hfinish => ?_
        obtain ⟨hextender, closing, listing, -, rfl⟩ :=
          exists_gives_finishPacket.mp ⟨t', hfinish⟩
        -- eight words at most, so that ten turns are left for the next packet
        have hshort := hbounded.words_le hextender
        simp only [readLimit, searchLimit] at hleft hshort
        rw [Build.finished, hnext]
        refine hbehind n _ _ (by omega) rfl ?_
        rw [List.length_append, hpackets']
        exact hpackets
      | false =>
        rw [hexit] at hexit'
        rw [hphase] at hphase'
        have hgoes : Cursor.next limit (pc + 4) b' = .goesOn ⟨pc + 4, b'⟩ := by
          simp [Cursor.next, hexit', hphase']
        simp only [Bool.false_eq_true, if_false, pure_bind, hgoes]
        exact ih (by omega) hphase' hexit' hbounded (by omega) (by rw [hpackets']; exact hpackets)
          hnext

/-- The loop reads a packet and what follows behind it. -/
theorem turns_eq_of_behind
    (hbehind : ∀ n pc b, 8 * budget + 2 ≤ n → b.draft.phase = .awaiting →
      b.packets.length + budget = limit →
      turnsBehind isa fetch limit pc b n = completed <$> liftBehind isa fetch pc b budget)
    {n : Nat} {pc : Word} {b : Build} (hn : 8 * budget + 10 ≤ n)
    (hphase : b.draft.phase = .awaiting) (hexit : b.exit = none)
    (hpackets : b.packets.length + 1 + budget = limit) :
    Cursor.turns isa fetch limit ⟨pc, b⟩ n = completed <$> liftPackets isa fetch pc b budget := by
  obtain ⟨n, rfl⟩ : ∃ m, n = m + 1 := ⟨n - 1, by omega⟩
  rw [Cursor.turns_of_awaiting hphase, liftPackets_eq, liftPacket_eq]
  simp only [map_bind, bind_assoc]
  refine bind_congr fun nextPc => ?_
  refine turns_eq_liftRest hbehind hn rfl hexit (.begin _ _ _ _) rfl hpackets ?_
  simp [Build.opened]

/-- **The loop lifts the packets of a block**, in eight turns for each of them and two more for the
last. -/
theorem turns_eq_liftPackets {n : Nat} {pc : Word} {b : Build} (hn : 8 * budget + 10 ≤ n)
    (hphase : b.draft.phase = .awaiting) (hexit : b.exit = none)
    (hpackets : b.packets.length + 1 + budget = limit) :
    Cursor.turns isa fetch limit ⟨pc, b⟩ n = completed <$> liftPackets isa fetch pc b budget := by
  induction budget generalizing n pc b with
  | zero =>
    refine turns_eq_of_behind (fun n pc b _ hphase hlength => ?_) hn hphase hexit hpackets
    cases hexit : b.exit with
    | some exit => simp [turnsBehind, Cursor.next, liftBehind, hexit, completed]
    | none => simp [turnsBehind, Cursor.next, liftBehind, hexit, completed, hphase, ← hlength]
  | succ budget ih =>
    refine turns_eq_of_behind (fun n pc b hn hphase hlength => ?_) hn hphase hexit hpackets
    cases hexit : b.exit with
    | some exit => simp [turnsBehind, Cursor.next, liftBehind, hexit, completed]
    | none =>
      have hgoes : Cursor.next limit pc b = .goesOn ⟨pc, b⟩ := by
        simp [Cursor.next, hexit, ← hlength]
      simp only [turnsBehind, liftBehind, hgoes, hexit]
      exact ih (by omega) hphase hexit (by omega)

end Agreement

/-- **The block that the loop lifts**, when it has enough turns. -/
theorem liftByWords_eq {options : LiftOptions} {fetch : Fetch} {entry : Word} {n : Nat}
    (hn : 8 * (options.limit - 1) + 10 ≤ n) :
    liftByWords isa options fetch entry n = some <$> liftBlock isa options fetch entry := by
  have hlimit : options.limit - 1 = options.maxPackets - 1 := by
    simp only [LiftOptions.limit]
    omega
  have hone : 0 + 1 + (options.limit - 1) = options.limit := by
    simp only [LiftOptions.limit]
    omega
  have hturns : (options.start entry).turns isa fetch options.limit n = completed <$>
      liftPackets isa fetch entry (options.start entry).build (options.limit - 1) :=
    turns_eq_liftPackets hn rfl rfl hone
  rw [hlimit] at hturns
  unfold liftByWords liftBlock
  split_ifs with haligned
  · rfl
  · simp only [hturns, map_bind, map_pure, bind_map_left]
    refine bind_congr fun _ => bind_congr fun result => ?_
    rfl

/-! ## Counting words -/

/-- **The words that were read** so far, `n` of them: those of the packets that are closed, eight at
most for each, and those of the packet that is open. The counter has them modulo the size of a
word. -/
structure Build.Counted (b : Build) (n : Nat) : Prop where
  words : b.words = BitVec.ofNat 32 n
  total : n = (b.packets.map (·.words)).sum + b.draft.words
  short : ∀ info ∈ b.packets, info.words ≤ searchLimit
  draft : b.draft.Bounded
  idle : b.draft.phase = .awaiting → b.draft.words = 0

/-- **What is known of the words after `n` turns.** If the loop goes on, each turn has read one, and
there is room for the packet that is open or comes next. If it is complete, no packet is open. -/
def Turn.Counted (limit n : Nat) : Turn → Prop
  | .goesOn c => c.build.Counted n ∧ c.build.exit = none ∧ c.build.packets.length < limit
  | .complete b _ _ => ∃ m ≤ n, b.Counted m ∧ b.draft.words = 0 ∧ b.packets.length ≤ limit

namespace Build.Counted

variable {b b' : Build} {n : Nat}

theorem sum_le (h : b.Counted n) : (b.packets.map (·.words)).sum ≤ 8 * b.packets.length := by
  have hle := List.sum_le_card_nsmul (b.packets.map (·.words)) searchLimit
    (by simpa using h.short)
  rwa [List.length_map, nsmul_eq_mul, Nat.cast_id, Nat.mul_comm] at hle

/-- Fewer words than eight for each packet that may be there, and ten for one more. -/
theorem lt_of_length_lt (h : b.Counted n) {limit : Nat} (hlt : b.packets.length < limit) :
    n < 8 * (limit - 1) + 10 := by
  have htotal := h.total
  have hsum := h.sum_le
  have hopen := h.draft.words_lt
  simp only [readLimit] at hopen
  omega

theorem opened (h : b.Counted n) (hphase : b.draft.phase = .awaiting) (pc nextPc : Word) :
    (b.opened pc nextPc).Counted n where
  words := h.words
  total := by
    have htotal := h.total
    rwa [h.idle hphase] at htotal
  short := h.short
  draft := .begin _ _ _ _
  idle hawaiting := by cases hawaiting

/-- **One word more.** -/
theorem of_liftWord {w pc : Word} {s s' : Session isa.State} (h : b.Counted n)
    (hphase : b.draft.phase = .accumulating) (hword : (liftWord isa w pc b).Gives s b' s') :
    b'.Counted (n + 1) ∧ b'.draft.phase = .accumulating ∧ b'.packets = b.packets ∧
      b'.exit = b.exit := by
  obtain ⟨hcount, hdraft, hpackets, hexit, hphase'⟩ := counts_of_liftWord hword
  rw [hphase] at hphase'
  refine ⟨⟨?_, ?_, hpackets ▸ h.short, h.draft.of_liftWord hword, ?_⟩, hphase', hpackets, hexit⟩
  · rw [hcount, h.words, BitVec.ofNat_add]
    rfl
  · rw [hpackets, hdraft, ← Nat.add_assoc, ← h.total]
  · intro hawaiting
    cases hphase'.symm.trans hawaiting

/-- **Closing a packet** moves its words to those of the closed ones. -/
theorem of_finishPacket {State : Type} {pc : Word} {s s' : Session State} (h : b.Counted n)
    (hfinish : (finishPacket pc b).Gives s b' s') :
    b'.Counted n ∧ b'.draft.phase = .awaiting ∧ b'.packets.length = b.packets.length + 1 := by
  obtain ⟨hextender, closing, listing, -, rfl⟩ := exists_gives_finishPacket.mp ⟨s', hfinish⟩
  refine ⟨⟨h.words, ?_, ?_, .reset _, fun _ => rfl⟩, rfl, List.length_append⟩
  · simp [Build.finished, Draft.reset, h.total]
  · intro info hinfo
    rcases List.mem_append.mp hinfo with hinfo | hinfo
    · exact h.short info hinfo
    · obtain rfl := List.mem_singleton.mp hinfo
      exact h.draft.words_le hextender

end Build.Counted

namespace Cursor

variable {fetch : Fetch} {limit : Nat} {c : Cursor} {n : Nat}

/-- The count when the next word is read, in a packet that is open. -/
theorem counted_of_ready {b : Build} {s s' : Session isa.State} (h : c.build.Counted n)
    (hready : (c.ready isa fetch).Gives s b s') :
    b.Counted n ∧ b.draft.phase = .accumulating ∧ b.packets = c.build.packets ∧
      b.exit = c.build.exit := by
  unfold ready at hready
  cases hphase : c.build.draft.phase with
  | accumulating =>
    rw [hphase] at hready
    obtain ⟨rfl, -⟩ := Lift.gives_pure.mp hready
    exact ⟨h, hphase, rfl, rfl⟩
  | awaiting =>
    rw [hphase] at hready
    obtain ⟨nextPc, _, -, hpure⟩ := Lift.gives_bind.mp hready
    obtain ⟨rfl, -⟩ := Lift.gives_pure.mp hpure
    exact ⟨h.opened hphase c.pc nextPc, rfl, rfl, rfl⟩

/-- **What a turn does to the count**: it reads one word, and closes one packet at most. -/
theorem exists_counted_of_turn {t : Turn} {s s' : Session isa.State} (h : c.build.Counted n)
    (hturn : (c.turn isa fetch limit).Gives s t s') :
    ∃ b, t = next limit (c.pc + 4) b ∧ b.Counted (n + 1) ∧
      (b.draft.phase = .accumulating ∧ b.packets = c.build.packets ∧ b.exit = c.build.exit ∨
        b.draft.phase = .awaiting ∧ b.packets.length = c.build.packets.length + 1) := by
  obtain ⟨b₀, s₀, hready, hturn⟩ := Lift.gives_bind.mp hturn
  obtain ⟨hcounted, hphase, hpackets, hexit⟩ := counted_of_ready h hready
  cases hfetch : fetch c.pc with
  | none =>
    rw [hfetch] at hturn
    exact absurd hturn Lift.not_gives_throw
  | some w =>
    rw [hfetch] at hturn
    obtain ⟨b₁, s₁, hword, hturn⟩ := Lift.gives_bind.mp hturn
    obtain ⟨b₂, s₂, hclose, hpure⟩ := Lift.gives_bind.mp hturn
    obtain ⟨rfl, -⟩ := Lift.gives_pure.mp hpure
    obtain ⟨hcounted₁, hphase₁, hpackets₁, hexit₁⟩ := hcounted.of_liftWord hphase hword
    refine ⟨b₂, rfl, ?_⟩
    unfold finish at hclose
    cases hends : w.role.endsPacket with
    | false =>
      rw [hends, if_neg Bool.false_ne_true] at hclose
      obtain ⟨rfl, -⟩ := Lift.gives_pure.mp hclose
      exact ⟨hcounted₁, .inl ⟨hphase₁, hpackets₁.trans hpackets, hexit₁.trans hexit⟩⟩
    | true =>
      rw [hends, if_pos rfl] at hclose
      obtain ⟨hcounted₂, hphase₂, hlength⟩ := hcounted₁.of_finishPacket hclose
      exact ⟨hcounted₂, .inr ⟨hphase₂, by rw [hlength, hpackets₁, hpackets]⟩⟩

/-- **One turn keeps the count**, and if it closes the last packet there may be, the loop is
complete. -/
theorem counted_of_turn {t : Turn} {s s' : Session isa.State}
    (h : (Turn.goesOn c).Counted limit n) (hturn : (c.turn isa fetch limit).Gives s t s') :
    t.Counted limit (n + 1) := by
  obtain ⟨hcounted, hexit, hlt⟩ := h
  obtain ⟨b, rfl, hb, hcases⟩ := exists_counted_of_turn hcounted hturn
  rcases hcases with ⟨hphase, hpackets, hsame⟩ | ⟨hphase, hlength⟩
  · have hgoes : next limit (c.pc + 4) b = .goesOn ⟨c.pc + 4, b⟩ := by
      simp [next, hsame, hexit, hphase]
    rw [hgoes]
    exact ⟨hb, hsame.trans hexit, hpackets ▸ hlt⟩
  · have hcomplete : ∀ exit, (Turn.complete b exit (c.pc + 4)).Counted limit (n + 1) := fun _ =>
      ⟨n + 1, le_rfl, hb, hb.idle hphase, hlength.le.trans hlt⟩
    unfold next
    cases hexit' : b.exit with
    | some exit => exact hcomplete exit
    | none =>
      split_ifs with hlimit
      · exact hcomplete .budget
      · exact ⟨hb, hexit', Nat.lt_of_not_le fun hle => hlimit ⟨hphase, hle⟩⟩

/-- **The words that were read after some turns**, from a count before the first of them on. -/
theorem counted_of_turns {k : Nat} {t : Turn} {s s' : Session isa.State}
    (h : (Turn.goesOn c).Counted limit n) (hturns : (c.turns isa fetch limit k).Gives s t s') :
    t.Counted limit (n + k) := by
  induction k generalizing c n s with
  | zero =>
    obtain ⟨rfl, -⟩ := Lift.gives_pure.mp hturns
    exact h
  | succ k ih =>
    obtain ⟨t₁, s₁, hturn, hrest⟩ := Lift.gives_bind.mp hturns
    have hcounted := counted_of_turn h hturn
    cases t₁ with
    | goesOn c₁ =>
      rw [Nat.add_comm k 1, ← Nat.add_assoc]
      exact ih hcounted hrest
    | complete b exit after =>
      obtain ⟨rfl, -⟩ := Lift.gives_pure.mp hrest
      obtain ⟨m, hle, hb⟩ := hcounted
      exact ⟨m, by omega, hb⟩

/-- A fault is one of a single turn, behind turns that went on. -/
theorem exists_turn_of_fault {k : Nat} {fault : Fault} {s s' : Session isa.State}
    (h : (c.turns isa fetch limit k).run s = (.error fault, s')) :
    ∃ m < k, ∃ c' t, (c.turns isa fetch limit m).Gives s (.goesOn c') t ∧
      (c'.turn isa fetch limit).run t = (.error fault, s') := by
  induction k generalizing c s with
  | zero => cases h
  | succ k ih =>
    rcases Lift.of_bind_eq_error h with hturn | ⟨t₁, s₁, hturn, hrest⟩
    · exact ⟨0, k.succ_pos, c, s, Lift.gives_pure.mpr ⟨rfl, rfl⟩, hturn⟩
    · rcases t₁ with ⟨c₁⟩ | ⟨b, exit, after⟩
      · obtain ⟨m, hm, c', t, hgoes, hfault⟩ := ih hrest
        exact ⟨m + 1, Nat.succ_lt_succ hm, c', t, Lift.gives_bind.mpr ⟨_, s₁, hturn, hgoes⟩, hfault⟩
      · cases hrest

end Cursor

theorem LiftOptions.counted_start (options : LiftOptions) (entry : Word) :
    (Turn.goesOn (options.start entry)).Counted options.limit 0 :=
  ⟨⟨rfl, rfl, by simp [start], ⟨Nat.zero_le _, Nat.zero_le _⟩, fun _ => rfl⟩, rfl,
    Nat.lt_of_lt_of_le Nat.zero_lt_one (Nat.le_max_left _ _)⟩

/-- **Reading words comes to an end**, for any memory, entry, budget and instruction set. The loop
that reads one word in each turn, and has no limit for the words of a packet, is over after eight
turns for each packet but the last and ten for that one, and gives the block or the fault that
lifting gives. As long as it goes on, it has read one word in each turn; each packet that it has
closed has eight words at most, and the one that is open has less than ten, so that the next word is
the tenth at most. When it is complete no packet is open, and when it fails it does so in a turn
behind turns that went on. -/
theorem wordLoop_terminates (isa : InstructionSet) (options : LiftOptions) (fetch : Fetch)
    (entry : Word) :
    let bound := 8 * (max 1 options.maxPackets - 1) + 10
    let loop := (options.start entry).turns isa fetch (max 1 options.maxPackets)
    (∀ n, bound ≤ n →
      liftByWords isa options fetch entry n = some <$> liftBlock isa options fetch entry) ∧
    (∀ n s c s', (loop n).run s = (.ok (.goesOn c), s') →
      n < bound ∧ c.build.words = BitVec.ofNat 32 n ∧
      n = (c.build.packets.map (·.words)).sum + c.build.draft.words ∧
      c.build.packets.length < max 1 options.maxPackets ∧
      (∀ info ∈ c.build.packets, info.words ≤ 8) ∧ c.build.draft.words < 10) ∧
    (∀ n s b exit after s', (loop n).run s = (.ok (.complete b exit after), s') →
      (b.packets.map (·.words)).sum ≤ n ∧
      b.words = BitVec.ofNat 32 (b.packets.map (·.words)).sum ∧
      b.packets.length ≤ max 1 options.maxPackets ∧ ∀ info ∈ b.packets, info.words ≤ 8) ∧
    ∀ n s fault s', (loop n).run s = (.error fault, s') →
      ∃ m < n, ∃ c t, (loop m).run s = (.ok (.goesOn c), t) ∧
        (c.turn isa fetch (max 1 options.maxPackets)).run t = (.error fault, s') := by
  intro bound loop
  have hstart := options.counted_start entry
  refine ⟨fun n hn => liftByWords_eq hn, ?_, ?_, fun n s fault s' => Cursor.exists_turn_of_fault⟩
  · intro n s c s' h
    obtain ⟨hcounted, -, hlt⟩ := Cursor.counted_of_turns hstart h
    rw [Nat.zero_add] at hcounted
    exact ⟨hcounted.lt_of_length_lt hlt, hcounted.words, hcounted.total, hlt, hcounted.short,
      hcounted.draft.words_lt⟩
  · intro n s b exit after s' h
    obtain ⟨m, hle, hcounted, hopen, hlength⟩ := Cursor.counted_of_turns hstart h
    rw [Nat.zero_add] at hle
    obtain rfl : m = (b.packets.map (·.words)).sum := by rw [hcounted.total, hopen, Nat.add_zero]
    exact ⟨hle, hcounted.words, hlength, hcounted.short⟩

/-- Extenders and instructions in turn, at every address there is. Only the eighth word ends a
packet. -/
def endlessWords : Fetch := fun address =>
  if address = 28 then some 0x7F00C000 -- nop, the last word of its packet
  else if address &&& 4 = 0 then some 0x00004000 -- immext
  else some 0x7F004000 -- nop

/-- How many words a turn that goes on has read in all, in its closed packets, and in the open
one. -/
def Turn.counts? : Turn → Option (Word × List Nat × Nat)
  | .goesOn c => some (c.build.words, c.build.packets.map (·.words), c.build.draft.words)
  | .complete _ _ _ => none

/-- **The bound is reached**: with a budget of two packets the loop goes on behind the seventeenth
word, and it fails with the eighteenth. -/
theorem wordLoop_terminates_endlessWords :
    let options : LiftOptions := { maxPackets := 2 }
    let start : Session Nat := ⟨0, #[]⟩
    (∃ c s', ((options.start 0).turns scalarCore endlessWords 2 17).run start =
        (.ok (.goesOn c), s') ∧
      (Turn.goesOn c).counts? = some (17, [8], 9) ∧ 17 < 8 * (max 1 2 - 1) + 10) ∧
    (liftByWords scalarCore options endlessWords 0 18).run start =
      (some <$> liftBlock scalarCore options endlessWords 0).run start ∧
    ((liftBlock scalarCore options endlessWords 0).run start).1.toOption.isNone = true := by
  intro options start
  have hgoes : (((options.start 0).turns scalarCore endlessWords 2 17).run
      start).1.toOption.map Turn.counts? = some (some (17, [8], 9)) := by
    decide +kernel
  obtain ⟨hends, hgoesOn, -⟩ := wordLoop_terminates scalarCore options endlessWords 0
  obtain ⟨t, s', hrun, hcounts⟩ := Lift.exists_of_toOption hgoes
  rcases t with ⟨c⟩ | ⟨b, exit, after⟩
  · exact ⟨⟨c, s', hrun, hcounts, (hgoesOn 17 start c s' hrun).1⟩,
      congrArg (·.run start) (hends 18 (by decide)), by decide +kernel⟩
  · cases hcounts

end PacketLift
