import Mathlib.Algebra.Group.Nat.Defs
import Mathlib.Data.List.Perm.Subperm
import Mathlib.Data.List.Nodup
import PacketLift.Instruction.Form
import PacketLift.Proofs.Word.Field

/-!
# Encodings

An encoding says what each bit of a word means: it is fixed, it belongs to one of the operands, or
it is free. Operands may be scattered over the word. A word is of the encoding, with the given
values of its operands, exactly if it is put together from the fixed bits, these values at their
places, and anything in the free bits.

## Main definitions

* `Word.gather w bits`, `Word.scatter v bits`: numbers taken from some bits, and brought to them
* `Encoding`: fixed bits and the bits of each operand, none of them used twice
* `Encoding.assemble`: the word with the given values

## Main results

* `Word.field_eq_gather`, `Word.fields_eq_gather`: fields are gathered bits
* `Encoding.eq_assemble_iff`: putting together and taking apart are inverse
-/

namespace PacketLift

namespace Word

/-- The bits from `lo` to `hi`. -/
def span (lo hi : Nat) : List Nat := List.range' lo (hi - lo + 1)

/-- The word with at most its lowest bit set. -/
def ofBit (b : Bool) : Word := (BitVec.ofBool b).setWidth 32

@[simp] theorem getLsbD_ofBit (b : Bool) (i : Nat) :
    (ofBit b).getLsbD i = (decide (i = 0) && b) := by
  cases i <;> simp [ofBit, BitVec.getLsbD_setWidth]

/-- **The number in some bits of a word**, of which the first is the least significant. -/
def gather (w : Word) : List Nat → Word
  | [] => 0
  | k :: bits => (w.gather bits <<< 1) ||| ofBit (w.getLsbD k)

/-- **A number in some bits of a word**, with all other bits zero. -/
def scatter (v : Word) : List Nat → Word
  | [] => 0
  | k :: bits => (ofBit (v.getLsbD 0) <<< k) ||| scatter (v >>> 1) bits

theorem getLsbD_gather (w : Word) (bits : List Nat) {i : Nat} (hi : i < 32) :
    (w.gather bits).getLsbD i = bits[i]?.elim false w.getLsbD := by
  induction bits generalizing i with
  | nil => simp [gather]
  | cons k bits ih =>
    cases i with
    | zero => simp [gather, -BitVec.getLsbD_eq_getElem]
    | succ i =>
      rw [gather, BitVec.getLsbD_or, BitVec.getLsbD_shiftLeft, getLsbD_ofBit]
      simp only [hi, Nat.add_sub_cancel, ih (Nat.lt_of_succ_lt hi)]
      simp

theorem getLsbD_scatter (v : Word) (bits : List Nat) {k : Nat} (hk : k < 32) :
    (v.scatter bits).getLsbD k = true ↔ ∃ i : Nat, bits[i]? = some k ∧ v.getLsbD i = true := by
  induction bits generalizing v with
  | nil => simp [scatter]
  | cons b bits ih =>
    have hfirst : (ofBit (v.getLsbD 0) <<< b).getLsbD k = true ↔ b = k ∧ v.getLsbD 0 = true := by
      rw [BitVec.getLsbD_shiftLeft, getLsbD_ofBit]
      simp only [hk, Bool.and_eq_true, decide_eq_true_eq, Bool.not_eq_true',
        decide_eq_false_iff_not]
      constructor
      · rintro ⟨⟨-, hle⟩, hsub, hbit⟩
        exact ⟨by omega, hbit⟩
      · rintro ⟨rfl, hbit⟩
        exact ⟨⟨trivial, Nat.lt_irrefl b⟩, Nat.sub_self b, hbit⟩
    rw [scatter, BitVec.getLsbD_or, Bool.or_eq_true, hfirst, ih]
    constructor
    · rintro (⟨rfl, hbit⟩ | ⟨i, hi, hbit⟩)
      · exact ⟨0, rfl, hbit⟩
      · refine ⟨i + 1, hi, ?_⟩
        rwa [BitVec.getLsbD_ushiftRight, Nat.add_comm] at hbit
    · rintro ⟨i, hi, hbit⟩
      cases i with
      | zero => exact .inl ⟨Option.some.inj hi, hbit⟩
      | succ i =>
        refine .inr ⟨i, hi, ?_⟩
        rwa [BitVec.getLsbD_ushiftRight, Nat.add_comm]

theorem toNat_gather_lt (w : Word) (bits : List Nat) : (w.gather bits).toNat < 2 ^ bits.length := by
  refine Nat.lt_pow_two_of_testBit _ fun i hi => ?_
  rw [BitVec.testBit_toNat]
  rcases Nat.lt_or_ge i 32 with hlt | hge
  · rw [getLsbD_gather w bits hlt, List.getElem?_eq_none hi]
    rfl
  · exact BitVec.getLsbD_of_ge _ _ hge

theorem gather_congr {w w' : Word} {bits : List Nat}
    (h : ∀ k ∈ bits, w.getLsbD k = w'.getLsbD k) : w.gather bits = w'.gather bits := by
  induction bits with
  | nil => rfl
  | cons k bits ih =>
    obtain ⟨hk, hbits⟩ := List.forall_mem_cons.mp h
    rw [gather, gather, ih hbits, hk]

/-- Numbers in some bits are the same exactly if these bits are. -/
theorem gather_eq_gather_iff {w w' : Word} {bits : List Nat} (hlength : bits.length ≤ 32) :
    w.gather bits = w'.gather bits ↔ ∀ k ∈ bits, w.getLsbD k = w'.getLsbD k := by
  refine ⟨fun h k hk => ?_, gather_congr⟩
  obtain ⟨i, hi⟩ := List.mem_iff_getElem?.mp hk
  have hlt : i < 32 := Nat.lt_of_lt_of_le (List.getElem?_eq_some_iff.mp hi).1 hlength
  have hbit := getLsbD_gather w bits hlt
  rw [h, getLsbD_gather w' bits hlt, hi] at hbit
  exact hbit.symm

theorem zero_gather (bits : List Nat) : gather 0#32 bits = 0#32 := by
  induction bits with
  | nil => rfl
  | cons k bits ih => simp [gather, ih, ofBit]

/-- Bits in two lists, one above the other. -/
theorem gather_append (w : Word) (bits bits' : List Nat) :
    w.gather (bits ++ bits') = (w.gather bits' <<< bits.length) ||| w.gather bits := by
  induction bits with
  | nil => simp [gather]
  | cons k bits ih =>
    rw [List.cons_append, gather, ih, gather, BitVec.shiftLeft_or_distrib, ← BitVec.shiftLeft_add,
      List.length_cons, BitVec.or_assoc]

theorem scatter_append (v : Word) (bits bits' : List Nat) :
    v.scatter (bits ++ bits') = v.scatter bits ||| scatter (v >>> bits.length) bits' := by
  induction bits generalizing v with
  | nil => simp [scatter]
  | cons k bits ih =>
    rw [List.cons_append, scatter, ih, scatter, ← BitVec.shiftRight_add, List.length_cons,
      Nat.add_comm, BitVec.or_assoc]

@[simp] theorem length_span (lo hi : Nat) : (span lo hi).length = hi - lo + 1 :=
  List.length_range'

theorem field_eq_gather (w : Word) (lo hi : Nat) : w.field lo hi = w.gather (span lo hi) := by
  refine BitVec.eq_of_getLsbD_eq fun i hi' => ?_
  rw [field, BitVec.getLsbD_and, BitVec.getLsbD_ushiftRight, getLsbD_lowMask _ hi',
    getLsbD_gather _ _ hi']
  rcases Nat.lt_or_ge i (hi - lo + 1) with hlt | hge
  · rw [span, List.getElem?_range' hlt]
    simp [hlt]
  · rw [List.getElem?_eq_none (by simpa using hge)]
    simp [Nat.not_lt.mpr hge]

theorem scatter_span {v : Word} {lo hi : Nat} (h : v.toNat < 2 ^ (hi - lo + 1)) :
    v.scatter (span lo hi) = v <<< lo := by
  refine BitVec.eq_of_getLsbD_eq fun k hk => ?_
  rw [Bool.eq_iff_iff, getLsbD_scatter v _ hk, BitVec.getLsbD_shiftLeft]
  simp only [hk, decide_true, Bool.true_and, Bool.and_eq_true, Bool.not_eq_true',
    decide_eq_false_iff_not, Nat.not_lt]
  constructor
  · rintro ⟨i, hi', hbit⟩
    have hlt := (List.getElem?_eq_some_iff.mp hi').1
    rw [span, List.getElem?_range' (by simpa using hlt)] at hi'
    obtain rfl : lo + 1 * i = k := Option.some.inj hi'
    exact ⟨by omega, by simpa using hbit⟩
  · rintro ⟨hle, hbit⟩
    have hlt : k - lo < hi - lo + 1 := by
      by_contra hge
      rw [← BitVec.testBit_toNat, Nat.testBit_lt_two_pow] at hbit
      · cases hbit
      · exact Nat.lt_of_lt_of_le h (Nat.pow_le_pow_right Nat.two_pos (Nat.not_lt.mp hge))
    refine ⟨k - lo, ?_, hbit⟩
    rw [span, List.getElem?_range' hlt]
    congr 1
    omega

theorem fields_eq_gather (w : Word) (lo hi lo' hi' : Nat) :
    w.fields lo hi lo' hi' = w.gather (span lo hi ++ span lo' hi') := by
  rw [fields, field_eq_gather, field_eq_gather, gather_append, length_span]

end Word

/-! ## Patterns -/

/-- Where the fixed bits of two patterns meet, they agree if there is a word for both. -/
theorem Pattern.eq_of_accepts {p q : Pattern} {w : Word} (hp : p.accepts w = true)
    (hq : q.accepts w = true) : p.value &&& q.mask = q.value &&& p.mask := by
  rw [accepts, beq_iff_eq] at hp hq
  rw [← hp, ← hq, BitVec.and_assoc, BitVec.and_assoc, BitVec.and_comm p.mask]

/-- **Patterns whose fixed bits differ where they meet** can be tried in any order. -/
theorem find?_eq_some_of_accepts {F : Type} {pattern : F → Pattern}
    (hdiffer : ∀ f g, (pattern f).value &&& (pattern g).mask =
      (pattern g).value &&& (pattern f).mask → f = g)
    {w : Word} {table : List F} {f : F} (hf : f ∈ table) (h : (pattern f).accepts w = true) :
    table.find? (fun g => (pattern g).accepts w) = some f := by
  cases hfind : table.find? (fun g => (pattern g).accepts w) with
  | none => exact absurd h (List.find?_eq_none.mp hfind f hf)
  | some g =>
    have hg := List.find?_some hfind
    rw [hdiffer g f (Pattern.eq_of_accepts hg h)]

/-! ## Encodings -/

/-- **How an instruction is written in a word**: some bits are fixed, and some belong to operands.
No bit has two meanings. -/
structure Encoding where
  pattern : Pattern
  /-- The bits of each operand, from its least significant one on. -/
  operands : List (List Nat)
  nodup : operands.flatten.Nodup
  inside : ∀ k ∈ operands.flatten, k < 32
  apart : ∀ k ∈ operands.flatten, pattern.mask.getLsbD k = false
  fixed : pattern.value &&& pattern.mask = pattern.value

/-- Numbers in some bits of a word, each in its own. -/
def scatterAll (values : List Word) (operands : List (List Nat)) : Word :=
  (List.zipWith Word.scatter values operands).foldr (· ||| ·) 0

/-- Whether each number has room in the bits that are for it. -/
def Fit (values : List Word) (operands : List (List Nat)) : Prop :=
  List.Forall₂ (fun v bits => v.toNat < 2 ^ bits.length) values operands

namespace Encoding

/-- The bits without a meaning. -/
def free (e : Encoding) : Word :=
  ~~~(e.pattern.mask ||| Word.scatter (BitVec.allOnes 32) e.operands.flatten)

/-- **The word with the given values**: the fixed bits, the values scattered to the bits of the
operands, and the bits of `rest` in those without a meaning. -/
def assemble (e : Encoding) (values : List Word) (rest : Word) : Word :=
  e.pattern.value ||| scatterAll values e.operands ||| (rest &&& e.free)

end Encoding

section Operands

variable {values : List Word} {operands : List (List Nat)}

@[simp] theorem scatterAll_cons (v : Word) (bits : List Nat) :
    scatterAll (v :: values) (bits :: operands) = v.scatter bits ||| scatterAll values operands :=
  rfl

theorem getLsbD_scatter_of_notMem {v : Word} {bits : List Nat} {k : Nat} (hk : k < 32)
    (h : k ∉ bits) : (v.scatter bits).getLsbD k = false := by
  rw [← Bool.not_eq_true, Word.getLsbD_scatter v bits hk]
  rintro ⟨i, hi, -⟩
  exact h (List.mem_of_getElem? hi)

theorem length_le_of_nodup {bits : List Nat} (hnodup : bits.Nodup) (hinside : ∀ k ∈ bits, k < 32) :
    bits.length ≤ 32 := by
  have hsub : bits ⊆ List.range 32 := fun k hk => List.mem_range.mpr (hinside k hk)
  simpa using (List.subperm_of_subset hnodup hsub).length_le

/-- Only the bits of the operands are set. -/
theorem getLsbD_scatterAll_of_notMem {k : Nat} (hk : k < 32) (h : k ∉ operands.flatten) :
    (scatterAll values operands).getLsbD k = false := by
  induction operands generalizing values with
  | nil => simp [scatterAll]
  | cons bits operands ih =>
    cases values with
    | nil => simp [scatterAll]
    | cons v values =>
      rw [List.flatten_cons, List.mem_append, not_or] at h
      rw [scatterAll_cons, BitVec.getLsbD_or, getLsbD_scatter_of_notMem hk h.1, ih h.2]
      rfl

/-- **A number can be taken from the bits that it was brought to.** -/
theorem Word.gather_eq_of_scatter {v w : Word} {bits : List Nat} (hnodup : bits.Nodup)
    (hinside : ∀ k ∈ bits, k < 32) (hfits : v.toNat < 2 ^ bits.length)
    (h : ∀ k ∈ bits, w.getLsbD k = (v.scatter bits).getLsbD k) : w.gather bits = v := by
  refine BitVec.eq_of_getLsbD_eq fun i hi => ?_
  rw [getLsbD_gather w bits hi]
  cases hk : bits[i]? with
  | none =>
    have hle : bits.length ≤ i := List.getElem?_eq_none_iff.mp hk
    rw [← BitVec.testBit_toNat, Nat.testBit_lt_two_pow]
    · rfl
    · exact Nat.lt_of_lt_of_le hfits (Nat.pow_le_pow_right Nat.two_pos hle)
  | some k =>
    have hmem := List.mem_of_getElem? hk
    show w.getLsbD k = v.getLsbD i
    rw [h k hmem, Bool.eq_iff_iff, getLsbD_scatter v bits (hinside k hmem)]
    constructor
    · -- no position is there twice, so only the bit at `i` was brought to it
      rintro ⟨j, hj, hbit⟩
      have hlt := (List.getElem?_eq_some_iff.mp hj).1
      rwa [(List.getElem?_inj hlt hnodup).mp (hj.trans hk.symm)] at hbit
    · exact fun hbit => ⟨i, hk, hbit⟩

/-- **So can several numbers**, from any word that agrees with them in their bits. -/
theorem map_gather_eq_of_scatterAll {w : Word} (hnodup : operands.flatten.Nodup)
    (hinside : ∀ k ∈ operands.flatten, k < 32) (hfit : Fit values operands)
    (h : ∀ k ∈ operands.flatten, w.getLsbD k = (scatterAll values operands).getLsbD k) :
    operands.map w.gather = values := by
  induction hfit with
  | nil => rfl
  | @cons v bits values operands hv _ ih =>
    rw [List.flatten_cons] at hnodup hinside h
    obtain ⟨hbits, hrest, hdisjoint⟩ := List.nodup_append.mp hnodup
    rw [List.forall_mem_append] at hinside h
    rw [List.map_cons, ih hrest hinside.2]
    · congr 1
      refine Word.gather_eq_of_scatter hbits hinside.1 hv fun k hk => ?_
      have hother : k ∉ operands.flatten := fun hmem => hdisjoint k hk k hmem rfl
      rw [h.1 k hk, scatterAll_cons, BitVec.getLsbD_or,
        getLsbD_scatterAll_of_notMem (hinside.1 k hk) hother, Bool.or_false]
    · intro k hk
      have hother : k ∉ bits := fun hmem => hdisjoint k hmem k hk rfl
      rw [h.2 k hk, scatterAll_cons, BitVec.getLsbD_or,
        getLsbD_scatter_of_notMem (hinside.2 k hk) hother, Bool.false_or]

/-- **Numbers taken from a word can be brought back** to where they were. -/
theorem getLsbD_scatterAll_map_gather (w : Word) {k : Nat} (hk : k < 32)
    (hlength : ∀ bits ∈ operands, bits.length ≤ 32) :
    (scatterAll (operands.map w.gather) operands).getLsbD k =
      (decide (k ∈ operands.flatten) && w.getLsbD k) := by
  induction operands with
  | nil => simp [scatterAll]
  | cons bits operands ih =>
    obtain ⟨hbits, hrest⟩ := List.forall_mem_cons.mp hlength
    have hfirst : ((w.gather bits).scatter bits).getLsbD k =
        (decide (k ∈ bits) && w.getLsbD k) := by
      rw [Bool.eq_iff_iff, Word.getLsbD_scatter _ _ hk, Bool.and_eq_true, decide_eq_true_eq]
      constructor
      · rintro ⟨i, hi, hbit⟩
        have hlt := (List.getElem?_eq_some_iff.mp hi).1
        rw [Word.getLsbD_gather w bits (Nat.lt_of_lt_of_le hlt hbits), hi] at hbit
        exact ⟨List.mem_of_getElem? hi, hbit⟩
      · rintro ⟨hmem, hbit⟩
        obtain ⟨i, hi⟩ := List.mem_iff_getElem?.mp hmem
        have hlt := (List.getElem?_eq_some_iff.mp hi).1
        refine ⟨i, hi, ?_⟩
        rw [Word.getLsbD_gather w bits (Nat.lt_of_lt_of_le hlt hbits), hi]
        exact hbit
    rw [List.map_cons, scatterAll_cons, BitVec.getLsbD_or, hfirst, ih hrest, List.flatten_cons]
    simp [Bool.and_or_distrib_right]

end Operands

namespace Encoding

variable (e : Encoding)

/-- A word is accepted if it has the fixed bits. -/
theorem accepts_iff (w : Word) : e.pattern.accepts w = true ↔
    ∀ k < 32, e.pattern.mask.getLsbD k = true → w.getLsbD k = e.pattern.value.getLsbD k := by
  rw [Pattern.accepts, beq_iff_eq]
  constructor
  · intro h k _ hmask
    rw [← h, BitVec.getLsbD_and, hmask, Bool.and_true]
  · intro h
    rw [← e.fixed]
    refine BitVec.eq_of_getLsbD_eq fun k hk => ?_
    rw [BitVec.getLsbD_and, BitVec.getLsbD_and]
    cases hmask : e.pattern.mask.getLsbD k with
    | false => rw [Bool.and_false, Bool.and_false]
    | true => rw [h k hk hmask]

theorem getLsbD_value_of_mask {k : Nat} (h : e.pattern.mask.getLsbD k = false) :
    e.pattern.value.getLsbD k = false := by
  rw [← e.fixed, BitVec.getLsbD_and, h, Bool.and_false]

theorem getLsbD_free {k : Nat} (hk : k < 32) : e.free.getLsbD k =
    !(e.pattern.mask.getLsbD k || decide (k ∈ e.operands.flatten)) := by
  have htaken : (Word.scatter (BitVec.allOnes 32) e.operands.flatten).getLsbD k =
      decide (k ∈ e.operands.flatten) := by
    rw [Bool.eq_iff_iff, Word.getLsbD_scatter _ _ hk, decide_eq_true_eq, List.mem_iff_getElem?]
    refine exists_congr fun i => and_iff_left_of_imp fun hi => ?_
    have hlt := (List.getElem?_eq_some_iff.mp hi).1
    have hle := length_le_of_nodup e.nodup e.inside
    rw [BitVec.getLsbD_allOnes]
    exact decide_eq_true (Nat.lt_of_lt_of_le hlt hle)
  rw [free, BitVec.getLsbD_not, BitVec.getLsbD_or, htaken, decide_eq_true hk, Bool.true_and]

theorem getLsbD_assemble (values : List Word) (rest : Word) (k : Nat) :
    (e.assemble values rest).getLsbD k = (e.pattern.value.getLsbD k ||
      (scatterAll values e.operands).getLsbD k || (rest.getLsbD k && e.free.getLsbD k)) := by
  rw [assemble, BitVec.getLsbD_or, BitVec.getLsbD_or, BitVec.getLsbD_and]

/-- Bits without a meaning are those of `rest`. -/
theorem getLsbD_assemble_of_free (values : List Word) (rest : Word) {k : Nat} (hk : k < 32)
    (h : e.free.getLsbD k = true) : (e.assemble values rest).getLsbD k = rest.getLsbD k := by
  have hneither := h
  rw [e.getLsbD_free hk, Bool.not_eq_true', Bool.or_eq_false_iff] at hneither
  rw [getLsbD_assemble, e.getLsbD_value_of_mask hneither.1,
    getLsbD_scatterAll_of_notMem hk (of_decide_eq_false hneither.2), h]
  simp

/-- **Putting together and taking apart are inverse.** The values in a word of the encoding have
room, and the word is the one that is assembled from them; and a word that is assembled from values
with room is of the encoding and has these values. -/
theorem eq_assemble_iff {w : Word} {values : List Word} :
    (Fit values e.operands ∧ ∃ rest, w = e.assemble values rest) ↔
      e.pattern.accepts w = true ∧ e.operands.map w.gather = values := by
  rw [accepts_iff]
  constructor
  · rintro ⟨hfit, rest, rfl⟩
    refine ⟨fun k hk hmask => ?_, map_gather_eq_of_scatterAll e.nodup e.inside hfit fun k hk => ?_⟩
    · have hother : k ∉ e.operands.flatten := fun hmem => by
        rw [e.apart k hmem] at hmask
        cases hmask
      rw [getLsbD_assemble, getLsbD_scatterAll_of_notMem hk hother, e.getLsbD_free hk, hmask]
      simp
    · rw [getLsbD_assemble, e.getLsbD_value_of_mask (e.apart k hk),
        e.getLsbD_free (e.inside k hk), decide_eq_true hk]
      simp
  · rintro ⟨haccepts, rfl⟩
    refine ⟨?_, w, BitVec.eq_of_getLsbD_eq fun k hk => ?_⟩
    · exact List.forall₂_map_left_iff.mpr
        (List.forall₂_same.mpr fun bits _ => w.toNat_gather_lt bits)
    · have hlength : ∀ bits ∈ e.operands, bits.length ≤ 32 := fun bits hbits =>
        length_le_of_nodup ((List.nodup_flatten.mp e.nodup).1 bits hbits) fun j hj =>
          e.inside j (List.mem_flatten_of_mem hbits hj)
      rw [getLsbD_assemble, getLsbD_scatterAll_map_gather w hk hlength, e.getLsbD_free hk]
      cases hmask : e.pattern.mask.getLsbD k with
      | true =>
        have hother : k ∉ e.operands.flatten := fun hmem => by
          rw [e.apart k hmem] at hmask
          cases hmask
        simp [haccepts k hk hmask, hother]
      | false =>
        rw [e.getLsbD_value_of_mask hmask]
        by_cases hmem : k ∈ e.operands.flatten <;> simp [hmem]

end Encoding

end PacketLift
