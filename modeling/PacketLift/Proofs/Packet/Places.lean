import Mathlib.Data.Option.Basic
import Mathlib.Tactic.SplitIfs
import PacketLift.InstructionSet
import PacketLift.Packet.Draft
import PacketLift.Packet.Window

/-!
# The instructions in the words of a packet

Which instructions a packet has can be read off its words, before any of them is lifted: extenders
go to the instruction behind them, and a duplex word has two instructions. This module says so
without any reference to lifting, and gives the marks of loop ends and the extent of a packet in
the same way.

## Main definitions

* `Code`, `Place`: the bits of an instruction, and where they stand
* `places pc pending words`: the instructions in some words, if the rules for extenders and
  duplex words are kept
* `loopEndOf words`, `hasTrapMark words`: what the words say about the end of the packet
* `PacketWords fetch pc words`: the words of the packet at an address

## Main results

* `length_le_of_places`: each instruction has at most two words
* `window_eq_closed_iff`: a closed window has the words of a packet
-/

namespace PacketLift

/-- The bits of an instruction: a whole word, or one half of a duplex word. -/
inductive Code where
  | whole (w : Word)
  | half (s : SubInstruction)
  deriving DecidableEq, Repr

/-- The bits as a word. -/
def Code.word : Code → Word
  | whole w => w
  | half s => s.bits

/-- Whether the address of the instruction is stored before it runs. The lower half of a duplex
word shares the address of the upper one. -/
def Code.isTraced : Code → Bool
  | whole _ => true
  | half s => s.half == .upper

/-- **Where an instruction stands**: its bits, their address, and what an extender in front of it
supplies. -/
structure Place where
  code : Code
  pc : Word
  extender : Option Word
  deriving DecidableEq, Repr

/-- What the instruction at a place may know, in the packet from `packetPc` to `nextPc`. -/
def Place.site (p : Place) (packetPc nextPc : Word) (predicatesWritten : Bool) : Site where
  word := p.code.word
  pc := p.pc
  packetPc := packetPc
  nextPc := nextPc
  extender := p.extender
  predicatesWritten := predicatesWritten

/-- The instructions in a word that is no extender. -/
def wordPlaces (w pc : Word) (extender : Option Word) : Option (List Place) :=
  if w.role = .duplex then
    (Duplex.split w pc).toOption.map fun d =>
      [⟨.half d.upper, pc, extender⟩, ⟨.half d.lower, pc, none⟩]
  else some [⟨.whole w, pc, extender⟩]

/-- **The instructions in some words**, the first of them at `pc`, when `pending` is what an
extender in front supplies. There are none if an extender has no instruction behind it, or if a
duplex word is of the reserved class. -/
def places (pc : Word) (pending : Option Word) : List Word → Option (List Place)
  | [] => if pending.isNone then some [] else none
  | w :: ws =>
    if w.isExtender then
      if pending.isNone then places (pc + 4) (some w.extension) ws else none
    else
      (wordPlaces w pc pending).bind fun here =>
        (places (pc + 4) none ws).map (here ++ ·)

/-- Whether the word at a position is marked as a loop end. -/
def isMarked (words : List Word) (position : Nat) : Bool :=
  words[position]?.any (·.role = .loopMark)

/-- The loops that end with a packet of the given words. -/
def loopEndOf (words : List Word) : Option LoopEnd :=
  LoopEnd.ofMarks? (isMarked words 0) (isMarked words 1)

/-- Whether the words have the trap word among them. -/
def hasTrapMark (words : List Word) : Bool := words.any (· == Word.trapMark)

/-- **The words of the packet at an address**: those from there on, up to and including the first
that closes a packet. -/
inductive PacketWords (fetch : Fetch) : Word → List Word → Prop where
  | last {pc w : Word} : fetch pc = some w → w.role.endsPacket = true → PacketWords fetch pc [w]
  | more {pc w : Word} {ws : List Word} : fetch pc = some w → w.role.endsPacket = false →
      PacketWords fetch (pc + 4) ws → PacketWords fetch pc (w :: ws)

/-! ## Extent -/

theorem length_pos_of_wordPlaces {w pc : Word} {extender : Option Word} {here : List Place}
    (h : wordPlaces w pc extender = some here) : 0 < here.length := by
  unfold wordPlaces at h
  split_ifs at h with hrole
  · obtain ⟨d, -, rfl⟩ := Option.map_eq_some_iff.mp h
    simp
  · cases h
    simp

/-- **Each instruction has at most two words**, an extender and its own. -/
theorem length_le_of_places {pc : Word} {pending : Option Word} {ws : List Word}
    {ps : List Place} (h : places pc pending ws = some ps) :
    ws.length + pending.toList.length ≤ 2 * ps.length := by
  induction ws generalizing pc pending ps with
  | nil =>
    cases pending with
    | none => simp
    | some value => simp [places] at h
  | cons w ws ih =>
    rw [places] at h
    split_ifs at h with hx hpending
    · have hrest := ih h
      rw [Option.isNone_iff_eq_none.mp hpending]
      simp only [Option.toList_some, Option.toList_none, List.length_cons, List.length_nil] at *
      omega
    · obtain ⟨here, hhere, hrest⟩ := Option.bind_eq_some_iff.mp h
      obtain ⟨rest, htail, rfl⟩ := Option.map_eq_some_iff.mp hrest
      have hlen := ih htail
      have hpos := length_pos_of_wordPlaces hhere
      have hone : pending.toList.length ≤ 1 := by cases pending <;> simp
      simp only [Option.toList_none, List.length_append, List.length_cons, List.length_nil] at *
      omega

theorem PacketWords.length_pos {fetch : Fetch} {pc : Word} {words : List Word}
    (h : PacketWords fetch pc words) : 0 < words.length := by
  cases h <;> simp

/-- **A window is closed if it has the words of a packet**, and these fit. -/
theorem window_eq_closed_iff {fetch : Fetch} {pc : Word} {limit : Nat} {words : List Word} :
    window fetch pc limit = ⟨words, .closed⟩ ↔
      PacketWords fetch pc words ∧ words.length ≤ limit := by
  induction limit generalizing pc words with
  | zero =>
    constructor
    · intro h
      cases h
    · rintro ⟨h, hlen⟩
      cases h <;> simp at hlen
  | succ limit ih =>
    rw [window]
    constructor
    · intro h
      cases hf : fetch pc with
      | none => simp [hf] at h
      | some w =>
        simp only [hf] at h
        split_ifs at h with hend
        · obtain ⟨rfl, -⟩ := Window.mk.inj h
          exact ⟨.last hf hend, by simp⟩
        · obtain ⟨rfl, hclosed⟩ := Window.mk.inj h
          have hrest : window fetch (pc + 4) limit =
              ⟨(window fetch (pc + 4) limit).words, .closed⟩ := by rw [← hclosed]
          obtain ⟨hwords, hlen⟩ := ih.mp hrest
          exact ⟨.more hf (by simpa using hend) hwords, by simpa using hlen⟩
    · rintro ⟨h, hlen⟩
      cases h with
      | last hf hend => simp [hf, hend]
      | more hf hend hrest =>
        have hwindow := ih.mpr ⟨hrest, Nat.le_of_succ_le_succ hlen⟩
        simp only [hf, hend, Bool.false_eq_true, if_false, hwindow]

/-- **A closed window does not depend on its limit**, if it fits. -/
theorem window_eq_of_closed {fetch : Fetch} {pc : Word} {limit limit' : Nat}
    (h : (window fetch pc limit).ending = .closed)
    (hfits : (window fetch pc limit).words.length ≤ limit') :
    window fetch pc limit' = window fetch pc limit := by
  have hwindow : window fetch pc limit = ⟨(window fetch pc limit).words, .closed⟩ := by rw [← h]
  obtain ⟨hwords, -⟩ := window_eq_closed_iff.mp hwindow
  rw [hwindow]
  exact window_eq_closed_iff.mpr ⟨hwords, hfits⟩

/-- The address behind a packet that is closed and not too long. -/
theorem addressBehind_eq {fetch : Fetch} {pc : Word} {limit : Nat}
    (h : (window fetch pc limit).ending = .closed)
    (hfits : (window fetch pc limit).words.length ≤ searchLimit) :
    addressBehind fetch pc =
      .ok (pc + 4 * BitVec.ofNat 32 (window fetch pc limit).words.length) := by
  unfold addressBehind
  simp only [window_eq_of_closed h hfits, h]

end PacketLift
