import PacketLift.Proofs.Instruction.Decoding
import PacketLift.Proofs.Packet.Grammar

/-!
# Duplex words

A duplex word has a class and two halves of 13 bits, and besides its role bits nothing else. So
taking it apart loses nothing, and two sub-instructions can be put into one word and found there
again.

## Main definitions

* `Duplex.join kind upper lower`: the word with a class and two halves
* `Duplex.encoding`: where they stand in it
* `SubForm.encoding`, `Instruction.subWritten?`: how sub-instructions are written

## Main results

* `Duplex.join_eq_assemble`: the word is of the encoding
* `Duplex.eq_join_of_split`: what a word was taken apart into
* `SubForm.read_eq_of_subWritten?`: the operands of a sub-instruction
* `Duplex.split_loses_nothing`: taking apart, and putting together
-/

namespace PacketLift

open Word (span)

namespace Duplex

/-- **Where the class and the halves of a duplex word stand.** Its role bits are zero. -/
def encoding : Encoding where
  pattern := ⟨0xC000, 0⟩
  operands := [span 13 13 ++ span 29 31, span 16 28, span 0 12]
  nodup := by decide
  inside := by decide
  apart := by decide
  fixed := by decide

/-- **The duplex word of a class with the given halves.** -/
def join (kind : Nat) (upper lower : Word) : Word :=
  ((BitVec.ofNat 32 kind >>> 1) <<< 29) ||| (Instruction.payload upper <<< 16)
    ||| ((BitVec.ofNat 32 kind &&& 1) <<< 13) ||| Instruction.payload lower

theorem accepts_iff_role (w : Word) : encoding.pattern.accepts w = true ↔ w.role = .duplex := by
  have hmask : ∀ k < 32, encoding.pattern.mask.getLsbD k = true ↔ k ∈ span 14 15 := by
    decide
  have hzero : w.role = .duplex ↔ w.gather (span 14 15) = 0#32 := by
    rw [← Word.field_eq_gather]
    constructor
    · intro hrole
      apply BitVec.eq_of_toNat_eq
      unfold Word.role at hrole
      split at hrole <;> simp_all
    · intro hfield
      rw [Word.role, hfield]
      rfl
  rw [hzero, ← Word.zero_gather (span 14 15), Word.gather_eq_gather_iff (by simp),
    encoding.accepts_iff]
  constructor
  · intro h k hk
    have hlt : k < 32 := by
      have := (List.mem_range'_1.mp hk).2
      omega
    exact h k hlt ((hmask k hlt).mpr hk)
  · exact fun h k hk hfixed => h k ((hmask k hk).mp hfixed)

theorem toNat_payload_lt (bits : Word) : (Instruction.payload bits).toNat < 2 ^ 13 := by
  rw [Instruction.payload, BitVec.toNat_and]
  exact Nat.lt_of_le_of_lt Nat.and_le_right (by decide)

/-- The word of a class with two halves is of the encoding. -/
theorem join_eq_assemble {kind : Nat} (hkind : kind < 16) (upper lower : Word) :
    join kind upper lower = encoding.assemble
      [BitVec.ofNat 32 kind, Instruction.payload upper, Instruction.payload lower] 0#32 := by
  have hnat : (BitVec.ofNat 32 kind).toNat = kind := by
    rw [BitVec.toNat_ofNat, Nat.mod_eq_of_lt (by omega)]
  have hclass : Word.scatter (BitVec.ofNat 32 kind) (span 13 13 ++ span 29 31) =
      ((BitVec.ofNat 32 kind &&& 1) <<< 13) ||| ((BitVec.ofNat 32 kind >>> 1) <<< 29) := by
    have hlow : Word.scatter (BitVec.ofNat 32 kind) (span 13 13) =
        (BitVec.ofNat 32 kind &&& 1) <<< 13 := by
      have hone : (BitVec.ofNat 32 kind &&& 1) = Word.ofBit ((BitVec.ofNat 32 kind).getLsbD 0) :=
        BitVec.and_one_eq_setWidth_ofBool_getLsbD
      rw [hone]
      show (_ ||| 0#32) = _
      rw [BitVec.or_zero]
    rw [Word.scatter_append, hlow, Word.scatter_span]
    · rfl
    · rw [BitVec.toNat_ushiftRight, hnat, Word.length_span, Nat.shiftRight_eq_div_pow]
      omega
  have hperm : ∀ a b c d : Word, a ||| b ||| c ||| d = c ||| a ||| (b ||| d) := by
    intro a b c d
    ac_rfl
  rw [Encoding.assemble, BitVec.zero_and, BitVec.or_zero]
  show _ = 0#32 ||| (Word.scatter _ _ ||| (Word.scatter _ _ ||| (Word.scatter _ _ ||| 0#32)))
  rw [hclass, Word.scatter_span (toNat_payload_lt upper),
    Word.scatter_span (toNat_payload_lt lower), BitVec.zero_or, BitVec.or_zero,
    BitVec.shiftLeft_zero, join, hperm]

/-- **The bits of a half**: the number of its group stands above the payload. -/
theorem payload_or_code {v : Word} (hv : v.toNat < 2 ^ 13) (group : Group) :
    let bits := v ||| (group.code <<< 13)
    Instruction.payload bits = v ∧ bits.toNat < 2 ^ 16 ∧ bits.field 13 15 = group.code := by
  have hlow : v &&& 0x1FFF = v := by
    apply BitVec.eq_of_toNat_eq
    rw [BitVec.toNat_and]
    exact (Nat.and_two_pow_sub_one_eq_mod _ 13).trans (Nat.mod_eq_of_lt hv)
  have hhigh : v >>> 13 = 0#32 := by
    apply BitVec.eq_of_toNat_eq
    rw [BitVec.toNat_ushiftRight, Nat.shiftRight_eq_div_pow, Nat.div_eq_of_lt hv]
    rfl
  have hcode : (group.code <<< 13) &&& 0x1FFF = 0#32 ∧ (group.code <<< 13).toNat < 2 ^ 16 ∧
      ((group.code <<< 13) >>> 13) &&& Word.lowMask (15 - 13 + 1) = group.code := by
    cases group <;> decide
  refine ⟨?_, ?_, ?_⟩
  · rw [Instruction.payload, BitVec.and_or_distrib_right, hlow, hcode.1, BitVec.or_zero]
  · rw [BitVec.toNat_or]
    exact Nat.or_lt_two_pow (Nat.lt_trans hv (by decide)) hcode.2.1
  · rw [Word.field, BitVec.ushiftRight_or_distrib, hhigh, BitVec.zero_or, hcode.2.2]

/-! ## Taking apart -/

variable {w pc : Word} {d : Duplex}

/-- What a word is taken apart into. -/
theorem of_split (h : split w pc = .ok d) :
    groups? (kindOf w) = some (d.upper.group, d.lower.group) ∧ d.kind = kindOf w ∧
      d.upper = ⟨.upper, d.upper.group, w.gather (span 16 28) ||| (d.upper.group.code <<< 13)⟩ ∧
      d.lower = ⟨.lower, d.lower.group, w.gather (span 0 12) ||| (d.lower.group.code <<< 13)⟩ := by
  unfold split at h
  cases hgroups : groups? (kindOf w) with
  | none =>
    rw [hgroups] at h
    cases h
  | some groups =>
    rw [hgroups] at h
    cases h
    rw [← Word.field_eq_gather, ← Word.field_eq_gather]
    exact ⟨rfl, rfl, rfl, rfl⟩

theorem kindOf_eq_gather (w : Word) : kindOf w = (w.gather (span 13 13 ++ span 29 31)).toNat := by
  rw [kindOf, Word.fields_eq_gather]

/-- The reserved class has all bits set. -/
theorem kindOf_eq_fifteen_iff (w : Word) :
    kindOf w = 15 ↔ ∀ k ∈ span 13 13 ++ span 29 31, w.getLsbD k = true := by
  have hones : 15 = (Word.gather (BitVec.allOnes 32) (span 13 13 ++ span 29 31)).toNat := by decide
  have hbits : ∀ k ∈ span 13 13 ++ span 29 31, (BitVec.allOnes 32).getLsbD k = true := by decide
  rw [kindOf_eq_gather, hones, BitVec.toNat_inj, Word.gather_eq_gather_iff (by simp)]
  exact forall₂_congr fun k hk => by rw [hbits k hk]

/-- **A word is what its parts are put together to.** Every bit of it belongs to one of them. -/
theorem eq_join_of_split (hrole : w.role = .duplex) (h : split w pc = .ok d) :
    w = join d.kind d.upper.bits d.lower.bits := by
  obtain ⟨-, hkind, hupper, hlower⟩ := of_split h
  have hfree : encoding.free = 0#32 := by decide
  obtain ⟨-, rest, hw⟩ := encoding.eq_assemble_iff.mpr ⟨(accepts_iff_role w).mpr hrole, rfl⟩
  rw [join_eq_assemble (hkind ▸ kindOf_lt w), hkind, hupper, hlower,
    (payload_or_code (w.toNat_gather_lt _) _).1, (payload_or_code (w.toNat_gather_lt _) _).1,
    kindOf_eq_gather, BitVec.ofNat_toNat, BitVec.setWidth_eq]
  rw [Encoding.assemble, hfree, BitVec.and_zero] at hw
  exact hw

/-- **The parts that a word was put together from** are found in it again. -/
theorem split_join {kind : Nat} {upperGroup lowerGroup : Group} (hkind : kind < 16)
    (hgroups : groups? kind = some (upperGroup, lowerGroup)) (upper lower pc : Word) :
    (join kind upper lower).role = .duplex ∧
      split (join kind upper lower) pc = .ok
        { kind := kind
          upper := ⟨.upper, upperGroup, Instruction.payload upper ||| (upperGroup.code <<< 13)⟩
          lower :=
            ⟨.lower, lowerGroup, Instruction.payload lower ||| (lowerGroup.code <<< 13)⟩ } := by
  have hnat : (BitVec.ofNat 32 kind).toNat = kind := by
    rw [BitVec.toNat_ofNat, Nat.mod_eq_of_lt (by omega)]
  have hfit : Fit [BitVec.ofNat 32 kind, Instruction.payload upper, Instruction.payload lower]
      encoding.operands :=
    .cons (hnat.symm ▸ hkind) (.cons (toNat_payload_lt upper) (.cons (toNat_payload_lt lower) .nil))
  obtain ⟨haccepts, hvalues⟩ :=
    encoding.eq_assemble_iff.mp ⟨hfit, 0#32, join_eq_assemble hkind upper lower⟩
  obtain ⟨hclass, hupper, hlower⟩ : _ ∧ _ ∧ _ := by simpa [encoding] using hvalues
  refine ⟨(accepts_iff_role _).mp haccepts, ?_⟩
  have hkindOf : kindOf (join kind upper lower) = kind := by
    rw [kindOf_eq_gather, hclass, hnat]
  rw [split, hkindOf, hgroups, Word.field_eq_gather, Word.field_eq_gather, hupper, hlower]

end Duplex

/-! ## Sub-instructions -/

namespace SubForm

theorem mem_all (f : SubForm) : f ∈ all := by cases f <;> decide

/-- **Where the operands of a sub-instruction stand**, in the order in which it names them. -/
def operands : SubForm → List (List Nat)
  | addImmediate => [span 0 3, span 4 10]
  | setImmediate => [span 0 3, span 4 9]
  | copy => [span 0 3, span 4 7]
  | increment => [span 0 3, span 4 7]

/-- **The encoding of a form**, in the payload of a half. -/
def encoding (f : SubForm) : Encoding where
  pattern := f.pattern
  operands := f.operands
  nodup := by cases f <;> decide
  inside := by cases f <;> decide
  apart := by cases f <;> decide
  fixed := by cases f <;> decide

/-- Where the fixed bits of two forms meet, they differ. -/
theorem eq_of_pattern (f g : SubForm)
    (h : f.pattern.value &&& g.pattern.mask = g.pattern.value &&& f.pattern.mask) : f = g := by
  have hdiffer : ∀ f ∈ all, ∀ g ∈ all,
      f.pattern.value &&& g.pattern.mask = g.pattern.value &&& f.pattern.mask → f = g := by
    decide
  exact hdiffer f f.mem_all g g.mem_all h

/-- **The four bits that name a register**, if it is one of `r0` to `r7` and `r16` to `r23`. -/
def registerBits? (r : Byte) : Option Word :=
  if r < 8 then some (r.setWidth 32)
  else if 16 ≤ r ∧ r < 24 then some ((r - 8).setWidth 32)
  else none

theorem register_of_registerBits? {r : Byte} {v : Word} (h : registerBits? r = some v) :
    register v = r := by
  have hall : ∀ r : Byte, (registerBits? r).all (register · == r) = true := by
    decide +kernel
  have hr := hall r
  rw [h] at hr
  exact eq_of_beq hr

/-- A form with the bits of a register and an immediate. -/
def withImmediate (f : SubForm) (r : Byte) (imm : Word) : Option (SubForm × List Word) := do
  let v ← registerBits? r
  return (f, [v, imm])

/-- A form with the bits of two registers. -/
def withRegisters (f : SubForm) (rd rs : Byte) : Option (SubForm × List Word) := do
  let d ← registerBits? rd
  let s ← registerBits? rs
  return (f, [d, s])

theorem eq_of_withImmediate {f g : SubForm} {r : Byte} {imm v x : Word}
    (h : withImmediate g r imm = some (f, [v, x])) : g = f ∧ r = register v ∧ imm = x := by
  obtain ⟨v', hv, heq⟩ := Option.bind_eq_some_iff.mp h
  cases heq
  exact ⟨rfl, (register_of_registerBits? hv).symm, rfl⟩

theorem eq_of_withRegisters {f g : SubForm} {rd rs : Byte} {v x : Word}
    (h : withRegisters g rd rs = some (f, [v, x])) :
    g = f ∧ rd = register v ∧ rs = register x := by
  obtain ⟨d, hd, hrest⟩ := Option.bind_eq_some_iff.mp h
  obtain ⟨s, hs, heq⟩ := Option.bind_eq_some_iff.mp hrest
  cases heq
  exact ⟨rfl, (register_of_registerBits? hd).symm, (register_of_registerBits? hs).symm⟩

end SubForm

/-- **How a sub-instruction is written**: its form, and the values of its operands. -/
def Instruction.subWritten? : Instruction → Option (SubForm × List Word)
  | subAddImmediate rx imm => SubForm.addImmediate.withImmediate rx imm
  | subSetImmediate rd imm => SubForm.setImmediate.withImmediate rd imm
  | subCopy rd rs => SubForm.copy.withRegisters rd rs
  | subIncrement rd rs => SubForm.increment.withRegisters rd rs
  | _ => none

namespace SubForm

/-- **The operands that are read** are those in the bits of the form. -/
theorem read_eq_of_subWritten? {f : SubForm} {w : Word} {i : Instruction}
    (h : i.subWritten? = some (f, f.operands.map w.gather)) : f.read w = i := by
  have htwo : ∃ a b, f.operands = [a, b] := by cases f <;> exact ⟨_, _, rfl⟩
  obtain ⟨a, b, hoperands⟩ := htwo
  rw [hoperands] at h
  cases i with
  | subAddImmediate rx imm =>
    obtain ⟨rfl, rfl, rfl⟩ := eq_of_withImmediate h
    cases hoperands
    rw [read, Word.field_eq_gather, Word.field_eq_gather]
  | subSetImmediate rd imm =>
    obtain ⟨rfl, rfl, rfl⟩ := eq_of_withImmediate h
    cases hoperands
    rw [read, Word.field_eq_gather, Word.field_eq_gather]
  | subCopy rd rs =>
    obtain ⟨rfl, rfl, rfl⟩ := eq_of_withRegisters h
    cases hoperands
    rw [read, Word.field_eq_gather, Word.field_eq_gather]
  | subIncrement rd rs =>
    obtain ⟨rfl, rfl, rfl⟩ := eq_of_withRegisters h
    cases hoperands
    rw [read, Word.field_eq_gather, Word.field_eq_gather]
  | _ => cases h

/-- A form has no bits beyond the payload. -/
theorem payload_assemble (f : SubForm) (values : List Word) :
    Instruction.payload (f.encoding.assemble values 0#32) = f.encoding.assemble values 0#32 := by
  have hfree : ∀ f ∈ all, ∀ k < 32, (0x1FFF : Word).getLsbD k = !f.encoding.free.getLsbD k := by
    decide
  refine BitVec.eq_of_getLsbD_eq fun k hk => ?_
  rw [Instruction.payload, BitVec.getLsbD_and, hfree f f.mem_all k hk]
  cases hbit : f.encoding.free.getLsbD k with
  | false => rw [Bool.not_false, Bool.and_true]
  | true =>
    rw [f.encoding.getLsbD_assemble_of_free values 0#32 hk hbit, BitVec.getLsbD_zero]
    rfl

end SubForm

/-- **A sub-instruction is found again** in any bits with its payload. -/
theorem Instruction.decodeSub_of_subWritten? {i : Instruction} {f : SubForm} {values : List Word}
    (hi : i.subWritten? = some (f, values)) (hfit : Fit values f.operands) {bits : Word}
    (hbits : payload bits = f.encoding.assemble values 0#32) : decodeSub bits .a = i := by
  obtain ⟨haccepts, rfl⟩ := f.encoding.eq_assemble_iff.mp ⟨hfit, 0#32, hbits⟩
  rw [decodeSub, find?_eq_some_of_accepts SubForm.eq_of_pattern f.mem_all haccepts]
  exact SubForm.read_eq_of_subWritten? hi

namespace Duplex

open Instruction (decodeSub)

/-- **Duplex words are taken apart without loss.** This fails exactly if bits 31:29 and bit 13 are
all ones. Otherwise the word can be put together from its class and the payloads of its halves, and
the bits of each half have the number of its group above 13 bits of payload. Two sub-instructions
of group A, with registers that four bits can name and immediates that have room, are found again in
the word of class 3 that is put together from them, each in its half. -/
theorem split_loses_nothing (pc : Word) :
    (∀ w : Word, w.role = .duplex →
      ((∃ fault, split w pc = .error fault) ↔ ∀ k ∈ [13, 29, 30, 31], w.getLsbD k = true) ∧
      ∀ d, split w pc = .ok d →
        w = join d.kind d.upper.bits d.lower.bits ∧
        groups? d.kind = some (d.upper.group, d.lower.group) ∧
        ∀ half ∈ [d.upper, d.lower],
          half.bits.toNat < 2 ^ 16 ∧ half.bits.field 13 15 = half.group.code) ∧
    ∀ (i j : Instruction) (f g : SubForm) (values others : List Word),
      i.subWritten? = some (f, values) → Fit values f.operands →
      j.subWritten? = some (g, others) → Fit others g.operands →
      let w := join 3 (f.encoding.assemble values 0#32) (g.encoding.assemble others 0#32)
      w.role = .duplex ∧ ∃ d, split w pc = .ok d ∧
        d.upper.half = .upper ∧ decodeSub d.upper.bits d.upper.group = i ∧
        d.lower.half = .lower ∧ decodeSub d.lower.bits d.lower.group = j := by
  refine ⟨fun w hrole => ⟨?_, fun d hd => ⟨eq_join_of_split hrole hd, ?_, ?_⟩⟩, ?_⟩
  · have hfails : (∃ fault, split w pc = .error fault) ↔ kindOf w = 15 := by
      rw [← not_iff_not]
      refine Iff.trans ?_ (isSome_split_iff w pc)
      cases split w pc <;> simp [Except.toOption]
    exact hfails.trans (kindOf_eq_fifteen_iff w)
  · obtain ⟨hgroups, hkind, -, -⟩ := of_split hd
    rw [hkind, hgroups]
  · obtain ⟨-, -, hupper, hlower⟩ := of_split hd
    intro half hhalf
    rcases List.mem_pair.mp hhalf with rfl | rfl
    · rw [hupper]
      exact (payload_or_code (w.toNat_gather_lt _) _).2
    · rw [hlower]
      exact (payload_or_code (w.toNat_gather_lt _) _).2
  · intro i j f g values others hi hfit hj hfit' w
    obtain ⟨hrole, hsplit⟩ := split_join (show 3 < 16 by decide) rfl
      (f.encoding.assemble values 0#32) (g.encoding.assemble others 0#32) pc
    have hpayload : ∀ (f : SubForm) (values : List Word),
        Instruction.payload (Instruction.payload (f.encoding.assemble values 0#32) |||
          (Group.a.code <<< 13)) = f.encoding.assemble values 0#32 := fun f values =>
      (payload_or_code (toNat_payload_lt _) _).1.trans (f.payload_assemble values)
    refine ⟨hrole, _, hsplit, rfl, ?_, rfl, ?_⟩
    · exact Instruction.decodeSub_of_subWritten? hi hfit (hpayload f values)
    · exact Instruction.decodeSub_of_subWritten? hj hfit' (hpayload g others)

theorem split_loses_nothing_increment :
    let upper : Instruction := .subSetImmediate 1 63
    let lower : Instruction := .subIncrement 23 16
    let w := join 3 (SubForm.setImmediate.encoding.assemble [1, 63] 0#32)
      (SubForm.increment.encoding.assemble [15, 8] 0#32)
    upper.subWritten? = some (.setImmediate, [1, 63]) ∧
      lower.subWritten? = some (.increment, [15, 8]) ∧ w = 0x2BF1318F ∧ w.role = .duplex ∧
      (∃ d, split w 0 = .ok d ∧ w = join d.kind d.upper.bits d.lower.bits ∧
        decodeSub d.upper.bits d.upper.group = upper ∧
        decodeSub d.lower.bits d.lower.group = lower) ∧
      ∃ fault, split 0xE0002000 0 = .error fault := by
  intro upper lower w
  obtain ⟨hwords, hpairs⟩ := split_loses_nothing 0
  have hupper : upper.subWritten? = some (.setImmediate, [1, 63]) := by decide
  have hlower : lower.subWritten? = some (.increment, [15, 8]) := by decide
  have hw : w = 0x2BF1318F := by decide +kernel
  obtain ⟨hrole, d, hsplit, -, hfirst, -, hsecond⟩ := hpairs upper lower _ _ _ _ hupper
    (.cons (by decide) (.cons (by decide) .nil)) hlower
    (.cons (by decide) (.cons (by decide) .nil))
  have hjoin := ((hwords w hrole).2 d hsplit).1
  refine ⟨hupper, hlower, hw, hrole, ⟨d, hsplit, hjoin, hfirst, hsecond⟩, ?_⟩
  exact (hwords 0xE0002000 (by decide)).1.mpr (by decide)

end Duplex

end PacketLift
