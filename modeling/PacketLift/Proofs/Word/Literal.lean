import Mathlib.Data.List.DropRight
import Mathlib.Data.List.Forall2
import Mathlib.Data.Nat.Digits.Defs
import PacketLift.Text.Numeral
import PacketLift.Word.Literal

/-!
# The grammar of written numbers

Which texts stand for a number, said by a grammar and not by reading. Blanks around a text and the
underscores in it do not count. What remains is a decimal digit or more, or `0x` and a hexadecimal
digit or more, and a plus sign may stand in front of the digits.

A text is read exactly if it stands for a number that fits into a word. As the grammar has all the
usual ways to print a word, a printed word can be read again, also with underscores put into it.

## Main definitions

* `Text.Spells base cs n`: the characters are digits of the number `n`
* `Word.Numeral cs n`: the characters are a decimal or hexadecimal numeral of `n`
* `Word.Denotes text n`: the text stands for the number `n`
* `Word.renderings w`: the usual ways to print a word

## Main results

* `Text.digitsValue?_eq_some_iff`: digits are read by what they spell
* `Text.trimmed_append`: only the blanks around a text are taken away
* `Word.literalValue?_eq_some_iff`: a text is read as the number that it stands for
* `Word.ofLiteral?_reads_grammar`: a word is read from the texts that stand for a number below
  `2 ^ 32`, among them all renderings, and from no others
-/

namespace PacketLift

namespace Text

/-! ## Digits -/

/-- **A digit and its value**: the usual sign of a number below the base, in either case. -/
def IsDigit (base : Nat) (c : Char) (d : Nat) : Prop :=
  d < base ∧ (c = d.digitChar ∨ c = d.digitChar.toUpper)

/-- **Digits and their number.** There is at least one digit, and the last has the least weight. -/
def Spells (base : Nat) (cs : List Char) (n : Nat) : Prop :=
  cs ≠ [] ∧ ∃ ds, List.Forall₂ (IsDigit base) cs ds ∧ n = Nat.ofDigits base ds.reverse

/-- The code points of the digits: numbers first, then letters of either case. -/
theorem toNat_digitChar {d : Nat} (hd : d < 16) :
    d.digitChar.toNat = (if d < 10 then 48 + d else 87 + d) ∧
      d.digitChar.toUpper.toNat = if d < 10 then 48 + d else 55 + d := by
  revert d
  decide

/-- One digit is read by its value. -/
theorem digitValue?_eq_some_iff {base : Nat} (hbase : base ≤ 16) {c : Char} {d : Nat} :
    digitValue? base c = some d ↔ IsDigit base c d := by
  unfold digitValue? IsDigit
  rw [Option.filter_eq_some_iff, decide_eq_true_iff, and_comm]
  refine and_congr_right fun hd => ?_
  obtain ⟨hlower, hupper⟩ := toNat_digitChar (hd.trans_le hbase)
  have hle : ∀ c' c'' : Char, c' ≤ c'' ↔ c'.toNat ≤ c''.toNat := fun _ _ => UInt32.le_iff_toNat_le
  simp only [← Char.toNat_inj, hle, hlower, hupper, Char.reduceToNat]
  split_ifs <;> simp <;> omega

theorem ofDigits_reverse (base : Nat) (ds : List Nat) :
    Nat.ofDigits base ds.reverse = ds.foldl (fun n d => base * n + d) 0 := by
  rw [Nat.ofDigits_eq_foldr, List.foldr_reverse]
  simp [Nat.add_comm]

/-- Reading on from a number reads digits, each of which takes the place of the last one. -/
theorem foldlM_digitValue?_eq_some_iff {base : Nat} (hbase : base ≤ 16) {cs : List Char}
    {start n : Nat} :
    cs.foldlM (fun n c => (digitValue? base c).map (base * n + ·)) start = some n ↔
      ∃ ds, List.Forall₂ (IsDigit base) cs ds ∧ n = ds.foldl (fun n d => base * n + d) start := by
  induction cs generalizing start with
  | nil => simp [List.forall₂_nil_left_iff, eq_comm]
  | cons c cs ih =>
    simp only [List.foldlM_cons, Option.bind_eq_bind, Option.bind_eq_some_iff,
      Option.map_eq_some_iff, digitValue?_eq_some_iff hbase, ih, List.forall₂_cons_left_iff]
    constructor
    · rintro ⟨_, ⟨d, hd, rfl⟩, ds, hds, rfl⟩
      exact ⟨d :: ds, ⟨d, ds, hd, hds, rfl⟩, rfl⟩
    · rintro ⟨_, ⟨d, ds, hd, hds, rfl⟩, rfl⟩
      exact ⟨_, ⟨d, hd, rfl⟩, ds, hds, rfl⟩

/-- **Digits are read by what they spell.** -/
theorem digitsValue?_eq_some_iff {base : Nat} (hbase : base ≤ 16) {cs : List Char} {n : Nat} :
    digitsValue? base cs = some n ↔ Spells base cs n := by
  unfold Spells
  simp only [ofDigits_reverse]
  cases cs with
  | nil => simp [digitsValue?]
  | cons c cs =>
    rw [digitsValue?, foldlM_digitValue?_eq_some_iff hbase]
    · simp
    · simp

namespace Spells

variable {base n : Nat} {cs : List Char}

theorem exists_isDigit (h : Spells base cs n) {c : Char} (hc : c ∈ cs) :
    ∃ d, IsDigit base c d := by
  obtain ⟨-, ds, hds, -⟩ := h
  induction hds with
  | nil => cases hc
  | cons hd _ ih =>
    rcases List.mem_cons.mp hc with rfl | hc
    · exact ⟨_, hd⟩
    · exact ih hc

theorem snoc (h : Spells base cs n) {c : Char} {d : Nat} (hd : IsDigit base c d) :
    Spells base (cs ++ [c]) (base * n + d) := by
  obtain ⟨-, ds, hds, rfl⟩ := h
  refine ⟨by simp, ds ++ [d], List.rel_append hds (.cons hd .nil), ?_⟩
  rw [List.reverse_append, List.reverse_singleton, List.singleton_append, Nat.ofDigits_cons]
  exact Nat.add_comm _ _

/-- **Printed digits spell the number**, in either case. -/
theorem map_toDigits (hbase : 1 < base) (form : Char → Char)
    (hform : ∀ d < base, IsDigit base (form d.digitChar) d) (n : Nat) :
    Spells base ((Nat.toDigits base n).map form) n := by
  induction n using Nat.strong_induction_on with
  | _ n ih =>
    by_cases hn : n < base
    · rw [Nat.toDigits_of_lt_base hn]
      exact ⟨by simp, [n], .cons (hform n hn) .nil, by simp⟩
    · have hle : base ≤ n := Nat.le_of_not_lt hn
      rw [Nat.toDigits_of_base_le hbase hle, List.map_append]
      have hfront := ih (n / base) (Nat.div_lt_self (by omega) hbase)
      have hlast := hform (n % base) (Nat.mod_lt n (by omega))
      simpa [Nat.div_add_mod] using hfront.snoc hlast

end Spells

/-- No blank is a digit. -/
theorem IsDigit.not_isBlank {c : Char} {d : Nat} (h : IsDigit 16 c d) : isBlank c = false := by
  obtain ⟨hd, hc⟩ := h
  have hdigits : ∀ d < 16, isBlank d.digitChar = false ∧ isBlank d.digitChar.toUpper = false := by
    decide
  rcases hc with rfl | rfl
  · exact (hdigits d hd).1
  · exact (hdigits d hd).2

/-! ## Blanks -/

theorem trimmed_eq_rdropWhile (cs : List Char) :
    trimmed cs = (cs.dropWhile isBlank).rdropWhile isBlank := rfl

/-- What is taken away at the ends is blank. -/
theorem exists_append_trimmed (cs : List Char) :
    ∃ front back, cs = front ++ trimmed cs ++ back ∧ ∀ c ∈ front ++ back, isBlank c = true := by
  refine ⟨cs.takeWhile isBlank, (cs.dropWhile isBlank).rtakeWhile isBlank, ?_, ?_⟩
  · rw [trimmed_eq_rdropWhile, List.append_assoc, List.rdropWhile_append_rtakeWhile,
      List.takeWhile_append_dropWhile]
  · intro c hc
    rcases List.mem_append.mp hc with hc | hc
    · exact List.mem_takeWhile_imp hc
    · exact List.mem_rtakeWhile_imp hc

/-- **Only the blanks around a text are taken away.** -/
theorem trimmed_append {front core back : List Char}
    (hblank : ∀ c ∈ front ++ back, isBlank c = true) (hcore : ∀ c ∈ core, isBlank c = false) :
    trimmed (front ++ core ++ back) = core := by
  have hfront : ∀ c ∈ front, isBlank c = true := fun c hc => hblank c (by simp [hc])
  have hback : ∀ c ∈ back.reverse, isBlank c = true := fun c hc => hblank c (by simp_all)
  -- without blanks in it, `core` stays at whichever end the blanks go
  have hkept : ∀ cs : List Char, (∀ c ∈ cs, isBlank c = false) → cs.dropWhile isBlank = cs := by
    intro cs hcs
    cases cs with
    | nil => rfl
    | cons c cs => simp [hcs c (by simp)]
  rw [trimmed, List.append_assoc, List.dropWhile_append_of_pos hfront]
  cases core with
  | nil =>
    have hnil : back.dropWhile isBlank = [] := List.dropWhile_eq_nil_iff.mpr (by simpa using hback)
    simp [hnil]
  | cons c core =>
    have hstart : ((c :: core) ++ back).dropWhile isBlank = (c :: core) ++ back := by
      simp [hcore c (by simp)]
    rw [hstart, List.reverse_append, List.dropWhile_append_of_pos hback,
      hkept _ fun c' hc' => hcore c' (List.mem_reverse.mp hc'), List.reverse_reverse]

end Text

/-! ## Numerals -/

open Text

/-- Digits with or without a plus sign in front. -/
def SpellsSigned (base : Nat) (cs : List Char) (n : Nat) : Prop :=
  ∃ digits, (cs = digits ∨ cs = '+' :: digits) ∧ Spells base digits n

/-- A character that has no value as a digit is in no digits. -/
theorem Text.Spells.notMem {base n : Nat} {cs : List Char} (hbase : base ≤ 16)
    (h : Spells base cs n) {c : Char} (hc : digitValue? base c = none) : c ∉ cs := by
  intro hmem
  obtain ⟨d, hd⟩ := h.exists_isDigit hmem
  rw [(digitValue?_eq_some_iff hbase).mpr hd] at hc
  cases hc

theorem signedDigitsValue?_eq_some_iff {base : Nat} (hbase : base ≤ 16)
    (hplus : digitValue? base '+' = none) {cs : List Char} {n : Nat} :
    signedDigitsValue? base cs = some n ↔ SpellsSigned base cs n := by
  unfold signedDigitsValue? SpellsSigned
  split
  · rename_i digits
    rw [digitsValue?_eq_some_iff hbase]
    constructor
    · intro h
      exact ⟨digits, .inr rfl, h⟩
    · rintro ⟨digits', rfl | heq, h⟩
      · exact absurd List.mem_cons_self (h.notMem hbase hplus)
      · rwa [(List.cons.inj heq).2]
  · rename_i hsign
    rw [digitsValue?_eq_some_iff hbase]
    constructor
    · intro h
      exact ⟨cs, .inl rfl, h⟩
    · rintro ⟨digits, rfl | rfl, h⟩
      · exact h
      · exact absurd rfl (hsign digits)

namespace Word

/-- **A numeral and its number**: decimal, or hexadecimal behind a mark. -/
inductive Numeral : List Char → Nat → Prop where
  | decimal {cs : List Char} {n : Nat} : SpellsSigned 10 cs n → Numeral cs n
  | hexadecimal {mark : Char} {cs : List Char} {n : Nat} :
    mark = 'x' ∨ mark = 'X' → SpellsSigned 16 cs n → Numeral ('0' :: mark :: cs) n

/-- **A text and the number that it stands for**: a numeral with any underscores in it, and with
any blanks around it. -/
def Denotes (text : String) (n : Nat) : Prop :=
  ∃ front core back, text.toList = front ++ core ++ back ∧
    (∀ c ∈ front ++ back, isBlank c = true) ∧ Numeral (core.filter (· ≠ '_')) n

/-- What is left of a text is read as a numeral, by its mark. A mark is no decimal digit, so a
decimal numeral has none behind its first character. -/
theorem literalValue?_eq_some_iff_numeral {text : String} {n : Nat} :
    literalValue? text = some n ↔ Numeral ((trimmed text.toList).filter (· ≠ '_')) n := by
  unfold literalValue?
  generalize (trimmed text.toList).filter (· ≠ '_') = cs
  have hdecimal : ∀ cs, signedDigitsValue? 10 cs = some n ↔ SpellsSigned 10 cs n :=
    fun _ => signedDigitsValue?_eq_some_iff (by decide) (by decide)
  have hhex : ∀ cs, signedDigitsValue? 16 cs = some n ↔ SpellsSigned 16 cs n :=
    fun _ => signedDigitsValue?_eq_some_iff (by decide) (by decide)
  constructor
  · intro h
    split at h
    · exact .hexadecimal (.inl rfl) ((hhex _).mp h)
    · exact .hexadecimal (.inr rfl) ((hhex _).mp h)
    · exact .decimal ((hdecimal _).mp h)
  · intro h
    cases h with
    | hexadecimal hmark h =>
      rcases hmark with rfl | rfl
      · exact (hhex _).mpr h
      · exact (hhex _).mpr h
    | decimal h =>
      have hmark : ∀ mark digits, digitValue? 10 mark = none → cs ≠ '0' :: mark :: digits := by
        rintro mark digits hnone rfl
        obtain ⟨digits', rfl | heq, hspells⟩ := h
        · exact hspells.notMem (by decide) hnone (by simp)
        · cases heq
      split
      · exact absurd rfl (hmark 'x' _ (by decide))
      · exact absurd rfl (hmark 'X' _ (by decide))
      · exact (hdecimal _).mpr h

/-- No blank is in a numeral. -/
theorem Numeral.not_isBlank {cs : List Char} {n : Nat} (h : Numeral cs n) {c : Char}
    (hc : c ∈ cs) : isBlank c = false := by
  have hsigned : ∀ {base cs}, base ≤ 16 → SpellsSigned base cs n → c ∈ cs → isBlank c = false := by
    rintro base cs hbase ⟨digits, hsign, hspells⟩ hc
    have hdigits : c = '+' ∨ c ∈ digits := by
      rcases hsign with rfl | rfl
      · exact .inr hc
      · exact List.mem_cons.mp hc
    rcases hdigits with rfl | hc
    · rfl
    · obtain ⟨d, hd, hchar⟩ := hspells.exists_isDigit hc
      exact IsDigit.not_isBlank ⟨hd.trans_le hbase, hchar⟩
  cases h with
  | decimal h => exact hsigned (by decide) h hc
  | hexadecimal hmark h =>
    simp only [List.mem_cons] at hc
    rcases hc with rfl | rfl | hc
    · rfl
    · rcases hmark with rfl | rfl <;> rfl
    · exact hsigned (by decide) h hc

/-- **A text is read as the number that it stands for**, however large. -/
theorem literalValue?_eq_some_iff {text : String} {n : Nat} :
    literalValue? text = some n ↔ Denotes text n := by
  rw [literalValue?_eq_some_iff_numeral]
  constructor
  · intro h
    obtain ⟨front, back, heq, hblank⟩ := exists_append_trimmed text.toList
    exact ⟨front, _, back, heq, hblank, h⟩
  · rintro ⟨front, core, back, heq, hblank, h⟩
    have hcore : ∀ c ∈ core, isBlank c = false := by
      intro c hc
      by_cases hscore : c = '_'
      · rw [hscore]
        rfl
      · exact h.not_isBlank (by simp [hc, hscore])
    rwa [heq, trimmed_append hblank hcore]

/-! ## Renderings -/

/-- **The usual ways to print a word**: decimal, and hexadecimal in lower and upper case. -/
def renderings (w : Word) : List String :=
  [toString w.toNat, "0x" ++ Text.hex w.toNat, "0x" ++ Text.upperHex w.toNat]

/-- Every rendering is a numeral of its word. -/
theorem numeral_of_mem_renderings {w : Word} {s : String} (hs : s ∈ w.renderings) :
    Numeral s.toList w.toNat := by
  have hlower : ∀ {base : Nat}, ∀ d < base, IsDigit base (id d.digitChar) d :=
    fun d hd => ⟨hd, .inl rfl⟩
  have hupper : ∀ {base : Nat}, ∀ d < base, IsDigit base d.digitChar.toUpper d :=
    fun d hd => ⟨hd, .inr rfl⟩
  simp only [renderings, List.mem_cons, List.not_mem_nil, or_false] at hs
  rcases hs with rfl | rfl | rfl
  · refine .decimal ⟨_, .inl rfl, ?_⟩
    simpa [Nat.toString_eq_ofList_toDigits] using
      Spells.map_toDigits (by decide) id hlower w.toNat
  · rw [String.toList_append]
    refine .hexadecimal (.inl rfl) ⟨_, .inl rfl, ?_⟩
    simpa [Text.hex] using Spells.map_toDigits (by decide) id hlower w.toNat
  · rw [String.toList_append]
    refine .hexadecimal (.inl rfl) ⟨_, .inl rfl, ?_⟩
    simpa [Text.upperHex] using Spells.map_toDigits (by decide) Char.toUpper hupper w.toNat

/-- A word is read from the texts that stand for its number. -/
theorem ofLiteral?_eq_some_iff {text : String} {w : Word} :
    ofLiteral? text = some w ↔ Denotes text w.toNat := by
  rw [← literalValue?_eq_some_iff, ofLiteral?, Option.bind_eq_some_iff]
  constructor
  · rintro ⟨n, hn, hfits⟩
    split_ifs at hfits with hlt
    obtain rfl := Option.some.inj hfits
    rw [BitVec.toNat_ofNat, Nat.mod_eq_of_lt hlt]
    exact hn
  · intro h
    refine ⟨w.toNat, h, ?_⟩
    rw [if_pos w.isLt, BitVec.ofNat_toNat, BitVec.setWidth_eq]

/-- **Words are read from exactly the texts of the grammar** whose number fits. So every rendering
of a word is read as that word, with underscores anywhere in it and blanks around it, and a text
that stands for a larger number is refused. -/
theorem ofLiteral?_reads_grammar :
    (∀ text n, (ofLiteral? text).map BitVec.toNat = some n ↔ Denotes text n ∧ n < 2 ^ 32) ∧
      (∀ (w : Word) (text : String) (front core back : List Char),
        text.toList = front ++ core ++ back → (∀ c ∈ front ++ back, isBlank c = true) →
        (∃ s ∈ w.renderings, core.filter (· ≠ '_') = s.toList) → ofLiteral? text = some w) ∧
      ∀ text n, Denotes text n → 2 ^ 32 ≤ n → ofLiteral? text = none := by
  refine ⟨fun text n => ?_, ?_, fun text n hdenotes hn => ?_⟩
  · rw [Option.map_eq_some_iff]
    constructor
    · rintro ⟨w, hw, rfl⟩
      exact ⟨ofLiteral?_eq_some_iff.mp hw, w.isLt⟩
    · rintro ⟨hdenotes, hn⟩
      have hword : (BitVec.ofNat 32 n).toNat = n := by
        rw [BitVec.toNat_ofNat, Nat.mod_eq_of_lt hn]
      exact ⟨BitVec.ofNat 32 n, ofLiteral?_eq_some_iff.mpr (by rwa [hword]), hword⟩
  · rintro w text front core back heq hblank ⟨s, hs, hcore⟩
    refine ofLiteral?_eq_some_iff.mpr ⟨front, core, back, heq, hblank, ?_⟩
    rw [hcore]
    exact numeral_of_mem_renderings hs
  · cases hread : ofLiteral? text with
    | none => rfl
    | some w =>
      have hword := literalValue?_eq_some_iff.mpr (ofLiteral?_eq_some_iff.mp hread)
      rw [literalValue?_eq_some_iff.mpr hdenotes] at hword
      have hlt := w.isLt
      rw [← Option.some.inj hword] at hlt
      omega

/-- The largest word with underscores and blanks, and the first number that is too large. -/
theorem ofLiteral?_reads_grammar_largest :
    ofLiteral? "\t0xFFFF_FFFF_ " = some 0xFFFFFFFF ∧ Denotes "0x1_0000_0000" (2 ^ 32) ∧
      ofLiteral? "0x1_0000_0000" = none := by
  have hdigit : ∀ d < 16, IsDigit 16 d.digitChar d := fun d hd => ⟨hd, .inl rfl⟩
  have hdenotes : Denotes "0x1_0000_0000" (2 ^ 32) := by
    refine ⟨[], "0x1_0000_0000".toList, [], by simp, by simp, ?_⟩
    refine .hexadecimal (.inl rfl) ⟨"100000000".toList, .inl (by decide), by decide,
      [1, 0, 0, 0, 0, 0, 0, 0, 0], ?_, by decide⟩
    have hone := hdigit 1 (by decide)
    have hzero := hdigit 0 (by decide)
    exact .cons hone (.cons hzero (.cons hzero (.cons hzero (.cons hzero (.cons hzero (.cons hzero
      (.cons hzero (.cons hzero .nil))))))))
  obtain ⟨-, hrendering, hlarge⟩ := ofLiteral?_reads_grammar
  refine ⟨?_, hdenotes, hlarge _ _ hdenotes (Nat.le_refl _)⟩
  have hblank : ∀ c ∈ ['\t'] ++ [' '], isBlank c = true := by simp [isBlank]
  refine hrendering 0xFFFFFFFF _ ['\t'] "0xFFFF_FFFF_".toList [' '] (by decide) hblank ?_
  exact ⟨"0xFFFFFFFF", by decide, by decide⟩

end Word

end PacketLift
