import Mathlib.Algebra.GroupWithZero.Nat
import Mathlib.Data.List.Chain
import PacketLift.Block.Lift
import PacketLift.Proofs.Packet.Arrangement

/-!
# Which words make up a packet

The rules for the words of a packet can be checked one by one, without reading it: an extender has
an instruction directly behind it, there are at most four instructions, where a duplex word has two,
and no duplex word is of the reserved class. This module shows that these rules are all: the words
of a packet keep them if and only if their instructions can be read, and then the instructions are
those of the single words.

## Main definitions

* `Word.instructions w`, `Word.instructionCount w`: the instructions in one word
* `WellFormed words`: the rules for the words of a packet
* `writesPc`, `endsLoop`, `endsBlock`, `exitOf`: what words say about the end of a block

## Main results

* `exists_places_iff`: when the instructions in words can be read
* `Packet.exists_at?_iff`: memory has a packet if and only if its words are well formed
* `Packet.contains_pc_of_at?`: whether a packet writes the program counter can be read off its words
-/

namespace PacketLift

/-! ## Words -/

namespace Word

/-- **The instructions in a word**: none in an extender, two in a duplex word of a class that is not
reserved, and one in any other word. -/
def instructions (w : Word) : List Instruction :=
  if w.isExtender then []
  else if w.role = .duplex then
    (Duplex.split w 0).toOption.elim [] fun d =>
      [.decodeSub d.upper.bits d.upper.group, .decodeSub d.lower.bits d.lower.group]
  else [.decode w]

/-- How many instructions a word counts for. -/
def instructionCount (w : Word) : Nat :=
  if w.isExtender then 0 else if w.role = .duplex then 2 else 1

theorem role_ne_duplex_of_isExtender {w : Word} (h : w.isExtender = true) : w.role ≠ .duplex := by
  have hbits : w.field 14 15 ≠ 0 := by
    have hboth := h
    simp only [isExtender, Bool.and_eq_true, bne_iff_ne] at hboth
    exact hboth.1
  intro hrole
  apply hbits
  apply BitVec.eq_of_toNat_eq
  unfold role at hrole
  split at hrole <;> simp_all

end Word

/-- Whether an instruction may write the program counter. -/
def Instruction.isBranch : Instruction → Bool
  | jump _ => true
  | call _ => true
  | jumpRegister _ => true
  | jumpIf _ _ _ => true
  | _ => false

/-- Whether an instruction in the words may write the program counter. -/
def writesPc (words : List Word) : Bool :=
  (words.flatMap Word.instructions).any Instruction.isBranch

/-- Whether one of the first two words is marked as a loop end. -/
def endsLoop (words : List Word) : Bool := isMarked words 0 || isMarked words 1

/-- **Whether a block ends with a packet** of the given words. -/
def endsBlock (words : List Word) : Bool :=
  writesPc words || endsLoop words || hasTrapMark words

/-- **Why a block ends** when its last packet has the given words. -/
def exitOf (words : List Word) : BlockExit :=
  if writesPc words || endsLoop words then .branch
  else if hasTrapMark words then .trap
  else .budget

/-- **The rules for the words of a packet.** -/
structure WellFormed (words : List Word) : Prop where
  /-- No extender stands directly behind an extender. -/
  extenders : words.IsChain fun w w' => w.isExtender = true → w'.isExtender = false
  /-- The last word is no extender. -/
  last : ∀ w ∈ words.getLast?, w.isExtender = false
  /-- There are at most four instructions. -/
  room : (words.map Word.instructionCount).sum ≤ 4
  /-- No duplex word is of the reserved class. -/
  duplex : ∀ w ∈ words, w.role = .duplex → Duplex.kindOf w ≠ 15

instance (words : List Word) : Decidable (WellFormed words) :=
  decidable_of_iff
    (words.IsChain (fun w w' => (w.isExtender && w'.isExtender) = false) ∧
      words.getLast?.toList.all (!·.isExtender) = true ∧
      (words.map Word.instructionCount).sum ≤ 4 ∧
      words.all (fun w => w.role ≠ .duplex || Duplex.kindOf w ≠ 15) = true) <| by
    simp only [Bool.and_eq_false_imp]
    exact
      ⟨fun h => ⟨h.1, by simpa using h.2.1, h.2.2.1, by simpa [or_iff_not_imp_left] using h.2.2.2⟩,
        fun h => ⟨h.extenders, by simpa using h.last, h.room,
          by simpa [or_iff_not_imp_left] using h.duplex⟩⟩

-- two instructions and a duplex word fill a packet, each with an extender in front of it
example : WellFormed [0x00004000, 0xF3024203, 0x00004001, 0xF3034204, 0x00004002, 0x20002000] := by
  decide

-- three instructions leave no room for a duplex word
example : ¬WellFormed [0xF3024203, 0xF3034204, 0xF3044205, 0x20002000] := by
  decide

/-! ## Reading instructions -/

namespace Duplex

theorem kindOf_lt (w : Word) : kindOf w < 16 := by
  have hupper : (w.field 29 31).toNat ≤ 7 := by
    rw [Word.field, BitVec.toNat_and]
    exact Nat.and_le_right.trans (by decide)
  have hlower : (w.field 13 13).toNat ≤ 1 := by
    rw [Word.field, BitVec.toNat_and]
    exact Nat.and_le_right.trans (by decide)
  rw [kindOf, Word.fields, BitVec.toNat_or]
  apply Nat.or_lt_two_pow (n := 4)
  · rw [BitVec.toNat_shiftLeft, Nat.shiftLeft_eq]
    omega
  · omega

theorem isSome_groups?_iff {n : Nat} (h : n < 16) : (groups? n).isSome = true ↔ n ≠ 15 := by
  revert n
  decide

/-- A duplex word can be taken apart unless its class is reserved. -/
theorem isSome_split_iff (w pc : Word) :
    (split w pc).toOption.isSome = true ↔ kindOf w ≠ 15 := by
  rw [← isSome_groups?_iff (kindOf_lt w), split]
  cases groups? (kindOf w) <;> rfl

theorem split_congr {w pc : Word} {d : Duplex} (h : split w pc = .ok d) (pc' : Word) :
    split w pc' = .ok d := by
  unfold split at h ⊢
  cases hgroups : groups? (kindOf w) with
  | none => simp [hgroups] at h
  | some groups => simpa [hgroups] using h

end Duplex

/-- The instructions in a word that is no extender can be read unless its class is reserved. -/
theorem exists_wordPlaces_iff {w pc : Word} {extender : Option Word} :
    (∃ here, wordPlaces w pc extender = some here) ↔
      (w.role = .duplex → Duplex.kindOf w ≠ 15) := by
  unfold wordPlaces
  split_ifs with hrole
  · rw [← Duplex.isSome_split_iff w pc]
    simp [hrole, Option.isSome_iff_exists]
  · simp [hrole]

theorem map_instruction_wordPlaces {w pc : Word} {extender : Option Word} {here : List Place}
    (hx : w.isExtender = false) (h : wordPlaces w pc extender = some here) :
    here.map Place.instruction = w.instructions ∧ here.length = w.instructionCount := by
  unfold wordPlaces at h
  simp only [Word.instructions, Word.instructionCount, hx, Bool.false_eq_true, if_false]
  split_ifs at h ⊢ with hrole
  · obtain ⟨d, hd, rfl⟩ := Option.map_eq_some_iff.mp h
    have hsplit : Duplex.split w pc = .ok d := by
      cases hs : Duplex.split w pc <;> simp_all [Except.toOption]
    rw [Duplex.split_congr hsplit 0]
    exact ⟨rfl, rfl⟩
  · cases h
    exact ⟨rfl, rfl⟩

/-- The two rules for extenders, for one word more. -/
theorem extenders_cons_iff {w : Word} {ws : List Word} :
    ((w :: ws).IsChain (fun w w' => w.isExtender = true → w'.isExtender = false) ∧
        ∀ x ∈ (w :: ws).getLast?, x.isExtender = false) ↔
      (w.isExtender = true → ∃ x ∈ ws.head?, x.isExtender = false) ∧
      ws.IsChain (fun w w' => w.isExtender = true → w'.isExtender = false) ∧
        ∀ x ∈ ws.getLast?, x.isExtender = false := by
  cases ws with
  | nil => simp
  | cons x ws => simp [List.isChain_cons_cons, and_assoc]

/-- **When the instructions in words can be read**: each extender, one that waits in front of the
words included, has a word behind it that is none, and no duplex word is of the reserved class. -/
theorem exists_places_iff {pc : Word} {pending : Option Word} {ws : List Word} :
    (∃ ps, places pc pending ws = some ps) ↔
      (pending.isSome = true → ∃ w ∈ ws.head?, w.isExtender = false) ∧
      (ws.IsChain (fun w w' => w.isExtender = true → w'.isExtender = false) ∧
        ∀ w ∈ ws.getLast?, w.isExtender = false) ∧
      ∀ w ∈ ws, w.role = .duplex → Duplex.kindOf w ≠ 15 := by
  induction ws generalizing pc pending with
  | nil => cases pending <;> simp [places]
  | cons w ws ih =>
    rw [places, extenders_cons_iff, List.forall_mem_cons, List.head?_cons]
    cases hx : w.isExtender with
    | true =>
      have hrole := Word.role_ne_duplex_of_isExtender hx
      cases pending with
      | some value => simp [hx]
      | none => simp [ih, hrole, and_assoc]
    | false =>
      have hsplit : (∃ ps, (wordPlaces w pc pending).bind (fun here =>
            (places (pc + 4) none ws).map (here ++ ·)) = some ps) ↔
          (∃ here, wordPlaces w pc pending = some here) ∧
            ∃ rest, places (pc + 4) none ws = some rest := by
        cases wordPlaces w pc pending <;> cases places (pc + 4) none ws <;> simp
      rw [if_neg (by simp), hsplit, exists_wordPlaces_iff, ih]
      simp [hx, and_left_comm]

/-- **The instructions that are read are those of the single words.** -/
theorem map_instruction_places {pc : Word} {pending : Option Word} {ws : List Word}
    {ps : List Place} (h : places pc pending ws = some ps) :
    ps.map Place.instruction = ws.flatMap Word.instructions ∧
      ps.length = (ws.map Word.instructionCount).sum := by
  induction ws generalizing pc pending ps with
  | nil =>
    obtain ⟨-, rfl⟩ : pending = none ∧ [] = ps := by simpa [places] using h
    exact ⟨rfl, rfl⟩
  | cons w ws ih =>
    rw [places] at h
    rw [List.flatMap_cons, List.map_cons, List.sum_cons]
    split_ifs at h with hx hpending
    · have hnone : w.instructions = [] ∧ w.instructionCount = 0 := by
        simp [Word.instructions, Word.instructionCount, hx]
      rw [hnone.1, hnone.2, List.nil_append, Nat.zero_add]
      exact ih h
    · obtain ⟨here, hhere, hrest⟩ := Option.bind_eq_some_iff.mp h
      obtain ⟨rest, htail, rfl⟩ := Option.map_eq_some_iff.mp hrest
      obtain ⟨hinsns, hcount⟩ := map_instruction_wordPlaces (by simpa using hx) hhere
      obtain ⟨hinsns', hcount'⟩ := ih htail
      rw [List.map_append, List.length_append, hinsns, hcount, hinsns', hcount']
      exact ⟨rfl, rfl⟩

/-! ## Packets -/

theorem PacketWords.unique {fetch : Fetch} {pc : Word} {ws ws' : List Word}
    (h : PacketWords fetch pc ws) (h' : PacketWords fetch pc ws') : ws = ws' := by
  have hwindow := window_eq_closed_iff.mpr ⟨h, Nat.le_max_left ws.length ws'.length⟩
  have hwindow' := window_eq_closed_iff.mpr ⟨h', Nat.le_max_right ws.length ws'.length⟩
  exact congrArg Window.words (hwindow.symm.trans hwindow')

/-- **Memory has a packet** at an address if and only if the words there are well formed. -/
theorem Packet.exists_at?_iff {fetch : Fetch} {pc : Word} {words : List Word} :
    (∃ p, at? fetch pc = some p ∧ p.words = words) ↔
      PacketWords fetch pc words ∧ WellFormed words := by
  constructor
  · rintro ⟨p, hp, rfl⟩
    obtain ⟨-, hwindow, hplaces, hroom⟩ := at?_eq_some_iff.mp hp
    obtain ⟨-, ⟨hchain, hlast⟩, hduplex⟩ := exists_places_iff.mp ⟨_, hplaces⟩
    rw [(map_instruction_places hplaces).2] at hroom
    exact ⟨(window_eq_closed_iff.mp hwindow).1, hchain, hlast, hroom, hduplex⟩
  · rintro ⟨hwords, hwell⟩
    have hplaces : ∃ ps, PacketLift.places pc none words = some ps :=
      exists_places_iff.mpr ⟨by simp, ⟨hwell.extenders, hwell.last⟩, hwell.duplex⟩
    obtain ⟨ps, hps⟩ := hplaces
    have hroom : ps.length ≤ Roster.capacity := (map_instruction_places hps).2.le.trans hwell.room
    -- an instruction has two words at most, so the window is wide enough
    have hlen : words.length ≤ readLimit := by
      have hle := length_le_of_places hps
      simp only [Option.toList_none, List.length_nil, Roster.capacity] at hle hroom
      simp only [readLimit]
      omega
    exact ⟨⟨pc, words, ps⟩, at?_eq_some_iff.mpr
      ⟨rfl, window_eq_closed_iff.mpr ⟨hwords, hlen⟩, hps, hroom⟩, rfl⟩

/-! ## What ends a block -/

/-- The footprint of an instruction has the program counter in it if it is a branch. -/
theorem Instruction.contains_pc (i : Instruction) :
    i.footprint.writes.contains .pc = i.isBranch := by
  have hgeneral (n : Byte) : Register.pc.slot.val ≠ (Register.general n).slot.val := fun heq =>
    Register.slot_general_ne_pc n (Fin.ext heq.symm)
  cases i with
  | predicatedAdd rd rs rt pu invert dotNew =>
    cases dotNew <;>
      simp [footprint, Footprint.writes, RegisterSet.contains, isBranch, hgeneral]
  | loopSetup which rs offset =>
    have hslots := slot_loopRegisters which
    simp_all [footprint, Footprint.writes, RegisterSet.contains, isBranch, Fin.val_inj, eq_comm]
  | compareEqual pd rs rt =>
    simp [footprint, Footprint.writes, RegisterSet.contains, isBranch, Fin.val_inj, eq_comm]
  | _ => simp [footprint, Footprint.writes, RegisterSet.contains, isBranch, hgeneral]

theorem isSome_loopEndOf (words : List Word) : (loopEndOf words).isSome = endsLoop words := by
  unfold loopEndOf endsLoop
  cases isMarked words 0 <;> cases isMarked words 1 <;> rfl

theorem Packet.contains_pc_of_at? {fetch : Fetch} {pc : Word} {p : Packet}
    (h : at? fetch pc = some p) : p.writes.contains .pc = writesPc p.words := by
  obtain ⟨-, -, hplaces, -⟩ := at?_eq_some_iff.mp h
  rw [RegisterSet.contains, hasSlot_writes, writesPc, ← (map_instruction_places hplaces).1,
    List.any_map]
  exact congrArg p.places.any (funext fun x => x.instruction.contains_pc)

end PacketLift
