import Mathlib.Algebra.Group.Nat.Defs
import PacketLift.Memory.Image

/-!
# Overlapping segments

Where segments overlap, a byte is read from the one that was added last among those that have its
address. A word is read from a single segment, the one that is seen at its first byte. So a word
and the four bytes at its addresses differ where a segment added later begins inside the word: the
bytes come from that segment, while the word does not show it.

## Main definitions

* `Word.byteAt`: the bytes of a word
* `Image.Sees`: which segment is seen at an address, and which were added after it

## Main results

* `Image.byte?_eq_some_iff`: a byte is that of the last segment that has its address
* `Image.word_bytes_under_later_segments`: the bytes at the addresses of a word
* `Image.not_forall_word_agrees_with_bytes`: they need not be the bytes of the word
-/

namespace PacketLift

/-- Byte `k` of a word, the least significant one first. -/
def Word.byteAt (w : Word) (k : Nat) : Byte := w.extractLsb' (8 * k) 8

/-- A word is made of its bytes. -/
theorem Word.append_byteAt (w : Word) :
    w.byteAt 3 ++ w.byteAt 2 ++ w.byteAt 1 ++ w.byteAt 0 = w := by
  refine BitVec.eq_of_getLsbD_eq fun i hi => ?_
  simp only [byteAt, BitVec.getLsbD_append, BitVec.getLsbD_extractLsb']
  grind

theorem Word.byteAt_append (b : Nat → Byte) {k : Nat} (hk : k < 4) :
    Word.byteAt (b 3 ++ b 2 ++ b 1 ++ b 0) k = b k := by
  refine BitVec.eq_of_getLsbD_eq fun i hi => ?_
  simp only [byteAt, BitVec.getLsbD_append, BitVec.getLsbD_extractLsb']
  obtain rfl | rfl | rfl | rfl : k = 0 ∨ k = 1 ∨ k = 2 ∨ k = 3 := by omega
  all_goals grind

/-! ## One segment -/

namespace Segment

variable {s : Segment} {a : Word} {i : Nat}

theorem contains_iff :
    s.contains a ↔ s.base.toNat ≤ a.toNat ∧ a.toNat < s.base.toNat + s.size := by
  simp only [contains, Bool.and_eq_true, decide_eq_true_eq, BitVec.le_def]
  rfl

theorem exists_byte?_iff : (∃ b, s.byte? i = some b) ↔ i < s.size := by
  have hdata : s.data.size ≤ s.size := Nat.le_add_right _ _
  unfold byte?
  by_cases hgiven : i < s.data.size
  · simp [hgiven, Nat.lt_of_lt_of_le hgiven hdata]
  · simp [hgiven]

/-- A word has the four bytes from its offset on. -/
theorem word?_eq_some_iff {w : Word} :
    s.word? i = some w ↔ ∀ k < 4, s.byte? (i + k) = some (w.byteAt k) := by
  simp only [word?, bind, pure, Option.bind_eq_some_iff, Option.some.injEq]
  constructor
  · rintro ⟨b0, h0, b1, h1, b2, h2, b3, h3, rfl⟩ k hk
    let b : Nat → Byte := fun k => [b0, b1, b2, b3].getD k 0
    have hread : s.byte? (i + k) = some (b k) := by
      obtain rfl | rfl | rfl | rfl : k = 0 ∨ k = 1 ∨ k = 2 ∨ k = 3 := by omega
      · exact h0
      · exact h1
      · exact h2
      · exact h3
    exact hread.trans (congrArg some (Word.byteAt_append b hk).symm)
  · intro hread
    exact ⟨_, hread 0 (by omega), _, hread 1 (by omega), _, hread 2 (by omega), _,
      hread 3 (by omega), w.append_byteAt⟩

/-- The distance of an address in the segment from its base. -/
theorem toNat_sub_base (h : s.contains a) : (a - s.base).toNat = a.toNat - s.base.toNat :=
  BitVec.toNat_sub_of_le (contains_iff.mp h).1

end Segment

/-! ## The segment that is seen -/

namespace Image

variable {m : Image} {s : Segment} {later : List Segment} {a : Word}

/-- **At `a` the segment `s` is seen**, behind which `later` were added. -/
def Sees (m : Image) (a : Word) (s : Segment) (later : List Segment) : Prop :=
  (∃ earlier, m.segments = earlier ++ s :: later) ∧ s.contains a ∧ ∀ t ∈ later, ¬ t.contains a

theorem segmentAt?_eq_some_iff : m.segmentAt? a = some s ↔ ∃ later, m.Sees a s later := by
  unfold segmentAt? Sees
  rw [List.find?_eq_some_iff_append]
  -- the search starts with the segment added last, so what it passes over was added later
  constructor
  · rintro ⟨hcontained, front, back, hsplit, hmissed⟩
    refine ⟨front.reverse, ⟨back.reverse, ?_⟩, hcontained, fun t ht => ?_⟩
    · rw [← List.reverse_reverse m.segments, hsplit]
      simp
    · simpa using hmissed t (List.mem_reverse.mp ht)
  · rintro ⟨later, ⟨earlier, hsplit⟩, hcontained, hmissed⟩
    refine ⟨hcontained, later.reverse, earlier.reverse, by simp [hsplit], fun t ht => ?_⟩
    simpa using hmissed t (List.mem_reverse.mp ht)

/-- **A byte is that of the last segment that has its address.** -/
theorem byte?_eq_some_iff {b : Byte} :
    m.byte? a = some b ↔
      ∃ s later, m.Sees a s later ∧ s.byte? (a.toNat - s.base.toNat) = some b := by
  unfold byte?
  rw [Option.bind_eq_some_iff]
  constructor
  · rintro ⟨s, hseen, hread⟩
    obtain ⟨later, hsees⟩ := segmentAt?_eq_some_iff.mp hseen
    exact ⟨s, later, hsees, by rwa [Segment.toNat_sub_base hsees.2.1] at hread⟩
  · rintro ⟨s, later, hsees, hread⟩
    refine ⟨s, segmentAt?_eq_some_iff.mpr ⟨later, hsees⟩, ?_⟩
    rwa [Segment.toNat_sub_base hsees.2.1]

/-- No byte is read exactly where no segment reaches. -/
theorem byte?_eq_none_iff : m.byte? a = none ↔ ∀ s ∈ m.segments, ¬ s.contains a := by
  unfold byte?
  cases hseen : m.segmentAt? a with
  | none =>
    have hmissed := List.find?_eq_none.mp hseen
    simpa using hmissed
  | some s =>
    obtain ⟨later, ⟨earlier, hsplit⟩, hcontained, -⟩ := segmentAt?_eq_some_iff.mp hseen
    have hbounds := Segment.contains_iff.mp hcontained
    obtain ⟨b, hread⟩ : ∃ b, s.byte? (a - s.base).toNat = some b := by
      rw [Segment.exists_byte?_iff, Segment.toNat_sub_base hcontained]
      omega
    have hmem : s ∈ m.segments := by simp [hsplit]
    simp only [Option.bind_some, hread, reduceCtorEq, false_iff]
    exact fun hmissed => hmissed s hmem hcontained

/-- Of two groups of segments, the one that was added later is asked first. -/
theorem byte?_append (earlier later : List Segment) (entry : Word) :
    byte? ⟨earlier ++ later, entry⟩ a = (byte? ⟨later, entry⟩ a).or (byte? ⟨earlier, entry⟩ a) := by
  cases hread : byte? ⟨later, entry⟩ a with
  | none =>
    have hmissed := byte?_eq_none_iff.mp hread
    have hunseen : later.reverse.find? (·.contains a) = none :=
      List.find?_eq_none.mpr fun t ht => hmissed t (List.mem_reverse.mp ht)
    simp only [byte?, segmentAt?, List.reverse_append, List.find?_append, hunseen, Option.none_or]
  | some b =>
    obtain ⟨s, behind, ⟨⟨front, hsplit⟩, hclear⟩, hvalue⟩ := byte?_eq_some_iff.mp hread
    refine byte?_eq_some_iff.mpr ⟨s, behind, ⟨⟨earlier ++ front, ?_⟩, hclear⟩, hvalue⟩
    rw [List.append_assoc]
    exact congrArg (earlier ++ ·) hsplit

/-! ## Words -/

/-- A word is read from the segment that is seen at its first byte. -/
theorem word?_eq_some_iff {w : Word} :
    m.word? a = some w ↔
      ∃ s later, m.Sees a s later ∧
        ∀ k < 4, s.byte? (a.toNat - s.base.toNat + k) = some (w.byteAt k) := by
  unfold word?
  rw [Option.bind_eq_some_iff]
  constructor
  · rintro ⟨s, hseen, hread⟩
    obtain ⟨later, hsees⟩ := segmentAt?_eq_some_iff.mp hseen
    rw [Segment.toNat_sub_base hsees.2.1, Segment.word?_eq_some_iff] at hread
    exact ⟨s, later, hsees, hread⟩
  · rintro ⟨s, later, hsees, hread⟩
    refine ⟨s, segmentAt?_eq_some_iff.mpr ⟨later, hsees⟩, ?_⟩
    rwa [Segment.toNat_sub_base hsees.2.1, Segment.word?_eq_some_iff]

/-- A segment in which an address is seen gives the byte at every address that it has, as far as
the segments behind it leave it visible. -/
theorem Sees.byte? (hsees : m.Sees a s later) {c : Word} {b : Byte}
    (habove : s.base.toNat ≤ c.toNat) (hread : s.byte? (c.toNat - s.base.toNat) = some b) :
    m.byte? c = (Image.byte? { m with segments := later } c).or (some b) := by
  obtain ⟨⟨earlier, hsplit⟩, -⟩ := hsees
  have hcontained : s.contains c := by
    have hinside := Segment.exists_byte?_iff.mp ⟨b, hread⟩
    exact Segment.contains_iff.mpr (by omega)
  have hown : Image.byte? ⟨earlier ++ [s], m.entry⟩ c = some b :=
    byte?_eq_some_iff.mpr ⟨s, [], ⟨⟨earlier, rfl⟩, hcontained, by simp⟩, hread⟩
  have hwhole : m = ⟨(earlier ++ [s]) ++ later, m.entry⟩ := by
    rw [List.append_assoc, List.singleton_append, ← hsplit]
  rw [hwhole, byte?_append, hown]

/-- **The bytes at the addresses of a word.** Every byte is that of the last segment that has its
address. For a word this means: with `later` the segments behind the one that the word is read from,
byte `k` is what these have at its address, and the word's own byte `k` where they have nothing,
as at its first address. So word and bytes agree exactly if `later` holds no other byte. -/
theorem word_bytes_under_later_segments (m : Image) (a w : Word) (hbelow : a.toNat ≤ 2 ^ 32 - 4)
    (hread : m.word? a = some w) :
    (∀ c b, m.byte? c = some b ↔
      ∃ s later, m.Sees c s later ∧ s.byte? (c.toNat - s.base.toNat) = some b) ∧
    ∃ s later, m.Sees a s later ∧
      (∀ k < 4, m.byte? (a + BitVec.ofNat 32 k) =
        (byte? { m with segments := later } (a + BitVec.ofNat 32 k)).or (some (w.byteAt k))) ∧
      ((∀ k < 4, m.byte? (a + BitVec.ofNat 32 k) = some (w.byteAt k)) ↔
        ∀ k < 4, ∀ b, byte? { m with segments := later } (a + BitVec.ofNat 32 k) = some b →
          b = w.byteAt k) := by
  refine ⟨fun c b => byte?_eq_some_iff, ?_⟩
  obtain ⟨s, later, hsees, hbytes⟩ := word?_eq_some_iff.mp hread
  have hbounds := Segment.contains_iff.mp hsees.2.1
  have hseen : ∀ k < 4, m.byte? (a + BitVec.ofNat 32 k) =
      (Image.byte? { m with segments := later } (a + BitVec.ofNat 32 k)).or
        (some (w.byteAt k)) := by
    intro k hk
    -- the word ends below the top of memory, so its addresses do not wrap around
    have haddress : (a + BitVec.ofNat 32 k).toNat = a.toNat + k := by
      simp only [BitVec.toNat_add, BitVec.toNat_ofNat]
      omega
    refine hsees.byte? (by omega) ?_
    rw [haddress, Nat.sub_add_comm hbounds.1]
    exact hbytes k hk
  refine ⟨s, later, hsees, hseen, forall₂_congr fun k hk => ?_⟩
  rw [hseen k hk]
  cases Image.byte? { m with segments := later } (a + BitVec.ofNat 32 k) <;> simp

/-- Four bytes from address 0 on, and a fifth that covers the third of them. -/
def coveredWord : Image :=
  (Image.empty.add { base := 0, data := ⟨#[1, 2, 3, 4]⟩, executable := false }).add
    { base := 2, data := ⟨#[0xFF]⟩, executable := false }

theorem word_bytes_under_later_segments_coveredWord :
    coveredWord.word? 0 = some 0x04030201 ∧
    ∃ s later, coveredWord.Sees 0 s later ∧
      ∀ k < 4, coveredWord.byte? (0 + BitVec.ofNat 32 k) =
        (byte? { coveredWord with segments := later } (0 + BitVec.ofNat 32 k)).or
          (some (Word.byteAt 0x04030201 k)) := by
  have hread : coveredWord.word? 0 = some 0x04030201 := by decide
  obtain ⟨-, s, later, hsees, hbytes, -⟩ :=
    word_bytes_under_later_segments coveredWord 0 0x04030201 (by decide) hread
  exact ⟨hread, s, later, hsees, hbytes⟩

/-- **A word need not agree with the bytes at its addresses.** -/
theorem not_forall_word_agrees_with_bytes :
    ¬ ∀ (m : Image) (a w : Word), a.toNat ≤ 2 ^ 32 - 4 → m.word? a = some w →
      ∀ k < 4, m.byte? (a + BitVec.ofNat 32 k) = some (w.byteAt k) := by
  intro hagree
  have hthird := hagree coveredWord 0 0x04030201 (by decide) (by decide) 2 (by decide)
  exact absurd hthird (by decide)

end Image

end PacketLift
