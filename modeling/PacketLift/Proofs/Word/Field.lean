import Mathlib.Algebra.Group.Nat.Defs
import Mathlib.Data.Int.ModEq
import Mathlib.Tactic.SplitIfs
import PacketLift.Word.Field

/-!
# Bit fields as numbers

A field of a word is a quotient of its number, reduced modulo a power of two. Joining two fields
multiplies the upper one and adds the lower one, and widening takes that number of a residue class
which lies around zero. This module states these meanings, without bits. It also writes the
operations on fields down for a machine of 32-bit numbers that checks what it computes, and shows
that nothing it checks goes wrong.

## Main definitions

* `BitRange`: a range of bits of a word, with its `width` and its `value` in a word
* `Word.IsSigned v bits z`: `z` is the signed number in the low `bits` bits of `v`
* `Overflow`: what a machine of 32-bit numbers does not compute
* `Checked.field`, `Checked.fields`, `Checked.signExtend`, `Checked.branchOffset`: the operations on
  such a machine

## Main results

* `Word.toNat_field`, `Word.toNat_fields`: fields by division, and joined by multiplication
* `Word.isSigned_iff_bmod`, `Word.toInt_signExtend`: widening as a balanced remainder
* `Word.toNat_branchOffset`: distances count words of four bytes
* `Checked.field_eq` and its companions: a machine that checks comes to the same words
* `Word.fields_as_numbers`: all of these, and no operation overflows
-/

namespace PacketLift

/-! ## Ranges of bits -/

/-- **A range of bits of a word.** Both ends belong to it. -/
structure BitRange where
  lo : Word
  hi : Word
  lo_le_hi : lo ≤ hi := by decide
  hi_le : hi ≤ 31 := by decide

namespace BitRange

variable (r : BitRange)

/-- How many bits there are in a range. -/
def width : Nat := r.hi.toNat - r.lo.toNat + 1

/-- The number in a range of bits: what is below is divided off, and what is above is left out. -/
def value (w : Word) : Nat := w.toNat / 2 ^ r.lo.toNat % 2 ^ r.width

theorem toNat_hi_le : r.hi.toNat ≤ 31 := BitVec.le_def.mp r.hi_le

theorem toNat_lo_le : r.lo.toNat ≤ 31 := (BitVec.le_def.mp r.lo_le_hi).trans r.toNat_hi_le

theorem width_le : r.width ≤ 32 := by
  have hhi := r.toNat_hi_le
  rw [width]
  omega

theorem toNat_ofNat_width : (BitVec.ofNat 32 r.width).toNat = r.width := by
  have hle := r.width_le
  rw [BitVec.toNat_ofNat]
  omega

theorem value_lt (w : Word) : r.value w < 2 ^ r.width := Nat.mod_lt _ (Nat.two_pow_pos _)

end BitRange

namespace Word

/-! ## Fields -/

theorem toNat_lowMask (width : Nat) : (lowMask width).toNat = 2 ^ min width 32 - 1 := by
  unfold lowMask
  split_ifs with hwidth
  · have hlt : 2 ^ width < 2 ^ 32 := Nat.pow_lt_pow_right (by decide) hwidth
    have hpos : 0 < 2 ^ width := Nat.two_pow_pos width
    rw [BitVec.toNat_sub, BitVec.natCast_eq_ofNat, BitVec.toNat_ofNat, Nat.one_shiftLeft,
      Nat.mod_eq_of_lt hlt, Nat.min_eq_left hwidth.le]
    show (2 ^ 32 - 1 + 2 ^ width) % 2 ^ 32 = 2 ^ width - 1
    omega
  · rw [BitVec.toNat_allOnes, Nat.min_eq_right (Nat.not_lt.mp hwidth)]

theorem getLsbD_lowMask (width : Nat) {i : Nat} (hi : i < 32) :
    (lowMask width).getLsbD i = decide (i < width) := by
  rw [← BitVec.testBit_toNat, toNat_lowMask, Nat.testBit_two_pow_sub_one]
  simp [hi]

/-- **A field by division**, for any two numbers: a mask of 32 bits is wide enough for all that a
word can hold. -/
theorem toNat_field (w : Word) (lo hi : Nat) :
    (w.field lo hi).toNat = w.toNat / 2 ^ lo % 2 ^ (hi - lo + 1) := by
  have hlt : w.toNat / 2 ^ lo < 2 ^ 32 := Nat.lt_of_le_of_lt (Nat.div_le_self _ _) w.isLt
  rw [field, BitVec.toNat_and, BitVec.toNat_ushiftRight, Nat.shiftRight_eq_div_pow, toNat_lowMask,
    Nat.and_two_pow_sub_one_eq_mod]
  rcases Nat.le_total (hi - lo + 1) 32 with hle | hge
  · rw [Nat.min_eq_left hle]
  · rw [Nat.min_eq_right hge, Nat.mod_eq_of_lt hlt,
      Nat.mod_eq_of_lt (Nat.lt_of_lt_of_le hlt (Nat.pow_le_pow_right Nat.two_pos hge))]

theorem toNat_field_range (w : Word) (r : BitRange) :
    (w.field r.lo.toNat r.hi.toNat).toNat = r.value w :=
  toNat_field w _ _

/-- **Joined fields by multiplication**, if a word has room for both. -/
theorem toNat_fields (w : Word) {r r' : BitRange} (h : r.width + r'.width ≤ 32) :
    (w.fields r.lo.toNat r.hi.toNat r'.lo.toNat r'.hi.toNat).toNat =
      r'.value w * 2 ^ r.width + r.value w := by
  have hroom : r'.value w * 2 ^ r.width < 2 ^ 32 := by
    calc r'.value w * 2 ^ r.width
        < 2 ^ r'.width * 2 ^ r.width :=
          Nat.mul_lt_mul_of_pos_right (r'.value_lt w) (Nat.two_pow_pos _)
      _ = 2 ^ (r.width + r'.width) := by rw [← Nat.pow_add, Nat.add_comm]
      _ ≤ 2 ^ 32 := Nat.pow_le_pow_right Nat.two_pos h
  rw [fields, BitVec.toNat_or, BitVec.toNat_shiftLeft, toNat_field_range, toNat_field_range,
    ← BitRange.width, Nat.shiftLeft_eq, Nat.mod_eq_of_lt hroom, ← Nat.shiftLeft_eq,
    Nat.shiftLeft_add_eq_or_of_lt (r.value_lt w)]

/-! ## Signed fields -/

/-- **`z` is the signed number in the low `bits` bits of `v`.** -/
structure IsSigned (v : Word) (bits : Nat) (z : Int) : Prop where
  lower : -2 ^ (bits - 1) ≤ z
  upper : z < 2 ^ (bits - 1)
  congruent : z ≡ v.toNat [ZMOD 2 ^ bits]

section Signed

variable (v : Word) {bits : Nat}

/-- The balanced remainder by a power of two is a signed number. -/
theorem isSigned_iff_bmod (hpos : 1 ≤ bits) {z : Int} :
    IsSigned v bits z ↔ z = (v.toNat : Int).bmod (2 ^ bits) := by
  obtain ⟨n, rfl⟩ : ∃ n, bits = n + 1 := ⟨bits - 1, by omega⟩
  have hhalf : ((2 ^ (n + 1) : Nat) : Int) = 2 * 2 ^ n := by
    push_cast
    rw [pow_succ, mul_comm]
  rw [eq_comm, Int.bmod_eq_iff (Nat.two_pow_pos _)]
  constructor
  · rintro ⟨hlower, hupper, hcongruent⟩
    rw [Nat.add_sub_cancel] at hlower hupper
    refine ⟨by omega, by omega, ?_⟩
    exact_mod_cast hcongruent.symm.dvd
  · rintro ⟨hlower, hupper, hdvd⟩
    refine ⟨?_, ?_, ?_⟩
    · rw [Nat.add_sub_cancel]
      omega
    · rw [Nat.add_sub_cancel]
      omega
    · refine (Int.modEq_of_dvd ?_).symm
      exact_mod_cast hdvd

/-- **Moved to the upper end of a word**, a signed number is multiplied, and what stood above it is
lost. -/
theorem IsSigned.shiftLeft {v : Word} {z : Int} (h : IsSigned v bits z) (hpos : 1 ≤ bits)
    (hle : bits ≤ 32) : IsSigned (v <<< (32 - bits)) 32 (z * 2 ^ (32 - bits)) := by
  have hunit : (0 : Int) < 2 ^ (32 - bits) := Int.pow_pos (by decide)
  have hhalf : (2 : Int) ^ (bits - 1) * 2 ^ (32 - bits) = 2 ^ 31 := by
    rw [← pow_add]
    congr 1
    omega
  have hwhole : (2 : Int) ^ bits * 2 ^ (32 - bits) = 2 ^ 32 := by
    rw [← pow_add]
    congr 1
    omega
  refine ⟨?_, ?_, ?_⟩
  · rw [← hhalf, ← neg_mul]
    exact Int.mul_le_mul_of_nonneg_right h.lower hunit.le
  · rw [← hhalf]
    exact Int.mul_lt_mul_of_pos_right h.upper hunit
  · have hmoved : z * 2 ^ (32 - bits) ≡ v.toNat * 2 ^ (32 - bits) [ZMOD 2 ^ 32] := by
      rw [← hwhole]
      exact h.congruent.mul_right'
    rw [BitVec.toNat_shiftLeft, Nat.shiftLeft_eq]
    push_cast
    exact hmoved.trans (Int.mod_modEq _ _).symm

/-- **Widening takes the balanced remainder**, whatever stands above the field. -/
theorem toInt_signExtend (hpos : 1 ≤ bits) (hle : bits ≤ 32) :
    (v.signExtend bits).toInt = (v.toNat : Int).bmod (2 ^ bits) := by
  -- at the upper end of the word its sign is the sign of the word, and shifting back divides
  have hmoved := ((isSigned_iff_bmod v hpos).mpr rfl).shiftLeft hpos hle
  rw [isSigned_iff_bmod _ (by decide), ← BitVec.toInt_eq_toNat_bmod] at hmoved
  rw [signExtend, BitVec.toInt_sshiftRight, ← hmoved, Int.shiftRight_eq_div_pow]
  push_cast
  exact Int.mul_ediv_cancel _ (pow_ne_zero _ (by decide))

/-- **The distance is four times the signed number**, as far as a word can tell. -/
theorem toNat_branchOffset :
    ((v.branchOffset bits).toNat : Int) = 4 * (v.signExtend bits).toInt % 2 ^ 32 := by
  have hsame : (v.signExtend bits).toInt ≡ (v.signExtend bits).toNat [ZMOD 2 ^ 32] := by
    rw [BitVec.toInt_eq_toNat_bmod]
    exact Int.bmod_emod
  rw [branchOffset, BitVec.toNat_shiftLeft, Nat.shiftLeft_eq, mul_comm]
  push_cast
  exact (hsame.mul_left 4).symm

end Signed

end Word

/-! ## A machine that checks -/

/-- **What a machine of 32-bit numbers does not compute.** -/
inductive Overflow where
  /-- A sum that has no room in a word. -/
  | sum (a b : Word)
  /-- A difference below zero. -/
  | difference (a b : Word)
  /-- A shift by as many places as a word has, or more. -/
  | shift (places : Word)
  deriving DecidableEq, Repr

namespace Checked

/-- The sum of two words. -/
def add (a b : Word) : Except Overflow Word :=
  if a.toNat + b.toNat < 2 ^ 32 then .ok (a + b) else .error (.sum a b)

/-- The difference of two words. -/
def sub (a b : Word) : Except Overflow Word :=
  if b ≤ a then .ok (a - b) else .error (.difference a b)

/-- A word, moved by some places with any of the shifts. -/
def shift (move : Word → Nat → Word) (w places : Word) : Except Overflow Word :=
  if places < 32 then .ok (move w places.toNat) else .error (.shift places)

/-- How many bits there are from `lo` to `hi`. -/
def width (lo hi : Word) : Except Overflow Word := do add (← sub hi lo) 1

/-- The word whose low bits are ones. -/
def mask (places : Word) : Except Overflow Word := do sub (← shift (· <<< ·) 1 places) 1

/-- Bits `lo` to `hi` of `w`, right-justified. The mask of a full word is left out, since its length
is no shift. -/
def field (w lo hi : Word) : Except Overflow Word := do
  let places ← width lo hi
  let moved ← shift (· >>> ·) w lo
  if 32 ≤ places then return moved
  return moved &&& (← mask places)

/-- Two ranges joined: bits `lo'` to `hi'` stand above bits `lo` to `hi`. -/
def fields (w lo hi lo' hi' : Word) : Except Overflow Word := do
  let places ← width lo hi
  return (← shift (· <<< ·) (← field w lo' hi') places) ||| (← field w lo hi)

/-- The low `bits` bits of `v`, widened as a signed number. -/
def signExtend (v bits : Word) : Except Overflow Word := do
  let places ← sub 32 bits
  shift BitVec.sshiftRight (← shift (· <<< ·) v places) places

/-- The distance in bytes meant by a signed field of `bits` bits that counts words. -/
def branchOffset (v bits : Word) : Except Overflow Word := do
  shift (· <<< ·) (← signExtend v bits) 2

theorem add_eq_ok {a b : Word} (h : a.toNat + b.toNat < 2 ^ 32) : add a b = .ok (a + b) := if_pos h

theorem sub_eq_ok {a b : Word} (h : b ≤ a) : sub a b = .ok (a - b) := if_pos h

theorem shift_eq_ok (move : Word → Nat → Word) (w : Word) {places : Word} {n : Nat}
    (hplaces : places.toNat = n) (h : n < 32) : shift move w places = .ok (move w n) := by
  subst hplaces
  exact if_pos (BitVec.lt_def.mpr h)

section Range

variable (w : Word) (r : BitRange)

/-- A range has no more bits than a word, so that they can be counted. -/
theorem width_eq : width r.lo r.hi = .ok (BitVec.ofNat 32 r.width) := by
  have hhi := r.toNat_hi_le
  have hsub : (r.hi - r.lo).toNat = r.hi.toNat - r.lo.toNat := BitVec.toNat_sub_of_le r.lo_le_hi
  have hadd : (r.hi - r.lo).toNat + (1 : Word).toNat < 2 ^ 32 := by
    rw [hsub]
    show _ + 1 < 2 ^ 32
    omega
  rw [width, sub_eq_ok r.lo_le_hi]
  refine (add_eq_ok hadd).trans (congrArg Except.ok (BitVec.eq_of_toNat_eq ?_))
  rw [BitVec.toNat_add_of_lt hadd, hsub, r.toNat_ofNat_width]
  rfl

variable {r} in
/-- The mask of a range is a power of two less one, if that power has room in a word. -/
theorem mask_eq (h : r.width < 32) :
    mask (BitVec.ofNat 32 r.width) = .ok (Word.lowMask r.width) := by
  have hpower : ((1 : Word) <<< r.width).toNat = 2 ^ r.width := by
    rw [BitVec.toNat_shiftLeft, Nat.shiftLeft_eq]
    show 1 * 2 ^ r.width % 2 ^ 32 = 2 ^ r.width
    rw [one_mul, Nat.mod_eq_of_lt (Nat.pow_lt_pow_right (by decide) h)]
  have hone : (1 : Word) ≤ (1 : Word) <<< r.width := by
    rw [BitVec.le_def, hpower]
    exact Nat.two_pow_pos r.width
  rw [mask, shift_eq_ok _ _ r.toNat_ofNat_width h]
  refine (sub_eq_ok hone).trans (congrArg Except.ok (BitVec.eq_of_toNat_eq ?_))
  rw [BitVec.toNat_sub_of_le hone, hpower, Word.toNat_lowMask, Nat.min_eq_left h.le]
  rfl

theorem field_eq : field w r.lo r.hi = .ok (w.field r.lo.toNat r.hi.toNat) := by
  have hfull : 32 ≤ BitVec.ofNat 32 r.width ↔ ¬ r.width < 32 := by
    rw [BitVec.le_def, r.toNat_ofNat_width, Nat.not_lt]
    rfl
  rw [field, width_eq, shift_eq_ok _ _ rfl (Nat.lt_succ_of_le r.toNat_lo_le), Word.field,
    ← BitRange.width]
  show (if 32 ≤ BitVec.ofNat 32 r.width then _ else _) = _
  by_cases hwidth : r.width < 32
  · rw [if_neg (mt hfull.mp (not_not.mpr hwidth)), mask_eq hwidth]
    rfl
  · rw [if_pos (hfull.mpr hwidth), Word.lowMask, if_neg hwidth, BitVec.and_allOnes]
    rfl

theorem fields_eq {r r' : BitRange} (h : r.width + r'.width ≤ 32) :
    fields w r.lo r.hi r'.lo r'.hi =
      .ok (w.fields r.lo.toNat r.hi.toNat r'.lo.toNat r'.hi.toNat) := by
  have hpos : 0 < r'.width := Nat.succ_pos _
  have hwidth : r.width < 32 := by omega
  rw [fields, width_eq, field_eq, field_eq]
  show (do
    let upper ← shift (· <<< ·) (w.field r'.lo.toNat r'.hi.toNat) (BitVec.ofNat 32 r.width)
    return upper ||| w.field r.lo.toNat r.hi.toNat) = _
  rw [shift_eq_ok _ _ r.toNat_ofNat_width hwidth]
  rfl

end Range

section Signed

variable (v : Word) {bits : Word}

theorem signExtend_eq (hpos : 1 ≤ bits) (hle : bits ≤ 32) :
    signExtend v bits = .ok (v.signExtend bits.toNat) := by
  have hsub : (32 - bits).toNat = 32 - bits.toNat := BitVec.toNat_sub_of_le hle
  have hplaces : 32 - bits.toNat < 32 := by
    have hnat : 1 ≤ bits.toNat := BitVec.le_def.mp hpos
    omega
  rw [signExtend, sub_eq_ok hle]
  show (do shift BitVec.sshiftRight (← shift (· <<< ·) v (32 - bits)) (32 - bits)) = _
  rw [shift_eq_ok _ _ hsub hplaces]
  exact shift_eq_ok _ _ hsub hplaces

theorem branchOffset_eq (hpos : 1 ≤ bits) (hle : bits ≤ 32) :
    branchOffset v bits = .ok (v.branchOffset bits.toNat) := by
  have htwo : (2 : Word).toNat = 2 := rfl
  rw [branchOffset, signExtend_eq v hpos hle]
  exact shift_eq_ok _ _ htwo (by decide)

end Signed

/-- No bits at all would be shifted by the length of a word. -/
example : signExtend 1 0 = .error (.shift 32) := by decide

end Checked

/-- **Fields are numbers.** A field is a quotient of the word, modulo the power of two that its
width gives, and of two fields joined the upper one is multiplied by that power for the lower one.
The field that is widened is the only signed number of its width in the residue class of the word,
and a distance is four times that number, modulo the power of two for a word. A machine that checks
comes to the same words: no sum, no difference and no shift on the way is one that it does not
compute. -/
theorem Word.fields_as_numbers (w : Word) :
    (∀ r : BitRange,
      (w.field r.lo.toNat r.hi.toNat).toNat = r.value w ∧
        Checked.field w r.lo r.hi = .ok (w.field r.lo.toNat r.hi.toNat)) ∧
    (∀ r r' : BitRange, r.width + r'.width ≤ 32 →
      (w.fields r.lo.toNat r.hi.toNat r'.lo.toNat r'.hi.toNat).toNat =
          r'.value w * 2 ^ r.width + r.value w ∧
        Checked.fields w r.lo r.hi r'.lo r'.hi =
          .ok (w.fields r.lo.toNat r.hi.toNat r'.lo.toNat r'.hi.toNat)) ∧
    (∀ bits : Word, 1 ≤ bits → bits ≤ 32 →
      (∀ z : Int, w.IsSigned bits.toNat z ↔ z = (w.signExtend bits.toNat).toInt) ∧
        Checked.signExtend w bits = .ok (w.signExtend bits.toNat) ∧
        ((w.branchOffset bits.toNat).toNat : Int) =
          4 * (w.signExtend bits.toNat).toInt % 2 ^ 32 ∧
        Checked.branchOffset w bits = .ok (w.branchOffset bits.toNat)) := by
  refine ⟨fun r => ⟨w.toNat_field_range r, Checked.field_eq w r⟩,
    fun r r' h => ⟨w.toNat_fields h, Checked.fields_eq w h⟩, fun bits hpos hle => ?_⟩
  have hnat : 1 ≤ bits.toNat ∧ bits.toNat ≤ 32 := ⟨BitVec.le_def.mp hpos, BitVec.le_def.mp hle⟩
  refine ⟨fun z => ?_, Checked.signExtend_eq w hpos hle, w.toNat_branchOffset,
    Checked.branchOffset_eq w hpos hle⟩
  rw [w.toInt_signExtend hnat.1 hnat.2]
  exact w.isSigned_iff_bmod hnat.1

/-- The whole of a word, two of its fields joined, and a negative number under other bits. -/
theorem Word.fields_as_numbers_negative :
    (field 0xABCD8234 0 31).toNat = 0xABCD8234 ∧
      (fields 0xABCD8234 0 13 16 27).toNat = 0xBCD * 2 ^ 14 + 0x234 ∧
      Checked.fields 0xABCD8234 0 13 16 27 = .ok (fields 0xABCD8234 0 13 16 27) ∧
      (signExtend 0xABCD8234 16).toInt = -0x7DCC ∧
      Checked.signExtend 0xABCD8234 16 = .ok (signExtend 0xABCD8234 16) ∧
      ((branchOffset 0xABCD8234 16).toNat : Int) = 2 ^ 32 - 4 * 0x7DCC := by
  obtain ⟨hfield, hfields, hsigned⟩ := fields_as_numbers 0xABCD8234
  have hwhole := (hfield { lo := 0, hi := 31 }).1
  obtain ⟨hjoined, hchecked⟩ := hfields { lo := 0, hi := 13 } { lo := 16, hi := 27 } (by decide)
  obtain ⟨hunique, hwidened, hoffset, -⟩ := hsigned 16 (by decide) (by decide)
  have hnegative := (hunique (-0x7DCC)).mp ⟨by decide, by decide, by decide⟩
  refine ⟨hwhole, hjoined, hchecked, hnegative.symm, hwidened, hoffset.trans ?_⟩
  rw [← hnegative]
  decide

end PacketLift
