import Mathlib.Data.List.Forall2
import Mathlib.Data.Option.Basic
import PacketLift.Elf.Load
import PacketLift.Proofs.Memory.Shadowing

/-!
# What loading an ELF file gives

The memory made of an ELF file exists exactly if its table of program headers asks for something to
be loaded, and for nothing that the file does not hold or that is too large. The byte at an address
is then given by the last header of the table that has the address: a byte of the file, or zero
behind the bytes of the file.

## Main definitions

* `ProgramHeader.IsLoad`, `ProgramHeader.IsSound`: what is loaded, and what can be
* `ProgramHeader.Covers`, `ProgramHeader.Gives`: the addresses of a header, and the bytes there
* `ProgramHeader.LastAt`: the header that is seen at an address
* `ElfHeader.IsNarrow`: headers whose addresses have 32 bits

## Main results

* `Executable.isNarrow_of_read`: the headers of a file that is read are such
* `Executable.image_eq_ok_iff`: when there is an image, and which one it is
* `Executable.byte?_eq_some_iff_lastAt`: the bytes of that image
* `Executable.image_holds_headers`: success, entry address and bytes of the image
-/

namespace PacketLift

/-! ## Numbers -/

/-- The results of a run over a list that always succeeds, element by element. -/
theorem forall₂_of_mapM_eq_some {α β : Type} {f : α → Option β} {as : List α} {bs : List β}
    (h : as.mapM f = some bs) : List.Forall₂ (fun a b => f a = some b) as bs := by
  induction as generalizing bs with
  | nil =>
    obtain rfl : [] = bs := by simpa using h
    exact .nil
  | cons a as ih =>
    simp only [List.mapM_cons, bind, pure, Option.bind_eq_some_iff, Option.some.injEq] at h
    obtain ⟨b, hhead, bs, htail, rfl⟩ := h
    exact .cons hhead (ih htail)

/-- A run that gives `g a` where `p a` holds, and fails elsewhere. -/
theorem mapM_eq_ok_iff {ε α β : Type} {f : α → Except ε β} {p : α → Prop} {g : α → β}
    (hf : ∀ a b, f a = .ok b ↔ p a ∧ b = g a) {as : List α} {bs : List β} :
    as.mapM f = .ok bs ↔ (∀ a ∈ as, p a) ∧ bs = as.map g := by
  induction as generalizing bs with
  | nil => simp [pure, Except.pure, eq_comm]
  | cons a as ih =>
    rw [List.mapM_cons]
    by_cases hgood : p a
    · rw [(hf a (g a)).mpr ⟨hgood, rfl⟩]
      cases htail : as.mapM f with
      | error e =>
        have hstuck : ¬ ∀ a ∈ as, p a := fun hall => by
          simpa [htail] using ih.mpr ⟨hall, rfl⟩
        simp [bind, Except.bind, hgood, hstuck]
      | ok cs =>
        obtain ⟨hall, rfl⟩ := ih.mp htail
        have hwhole : ∀ c ∈ a :: as, p c := List.forall_mem_cons.mpr ⟨hgood, hall⟩
        rw [and_iff_right hwhole, List.map_cons]
        simp only [bind, Except.bind, pure, Except.pure, Except.ok.injEq, eq_comm]
    · cases hhead : f a with
      | error e => simp [bind, Except.bind, hgood]
      | ok b => exact absurd ((hf a b).mp hhead).1 hgood

namespace ElfFormat

theorem ofLittleEndian_lt (bytes : List UInt8) : ofLittleEndian bytes < 256 ^ bytes.length := by
  induction bytes with
  | nil => simp [ofLittleEndian]
  | cons b rest ih =>
    have := b.toNat_lt
    simp only [ofLittleEndian, List.length_cons, Nat.pow_succ]
    omega

theorem number?_lt {f : ElfFormat} {data : ByteArray} {offset width n : Nat}
    (h : f.number? data offset width = some n) : n < 256 ^ width := by
  simp only [number?, bind, pure, Option.bind_eq_some_iff, Option.some.injEq] at h
  obtain ⟨bytes, hread, rfl⟩ := h
  have hlength : bytes.length = width := by
    simpa using (forall₂_of_mapM_eq_some hread).length_eq.symm
  rw [← hlength]
  split
  · exact ofLittleEndian_lt bytes
  · simpa using ofLittleEndian_lt bytes.reverse

end ElfFormat

/-! ## Program headers -/

namespace ProgramHeader

/-- The header stands for something that is loaded. -/
def IsLoad (h : ProgramHeader) : Prop := h.kind = 1 ∧ 0 < h.memorySize

/-- What the header asks for is in the file, and it asks for at most 256 MiB of memory. -/
def IsSound (data : ByteArray) (h : ProgramHeader) : Prop :=
  h.offset + h.fileSize ≤ data.size ∧ h.memorySize ≤ 256 * 2 ^ 20

/-- The header has an address. -/
def Covers (h : ProgramHeader) (a : Nat) : Prop :=
  h.address ≤ a ∧ a < h.address + max h.memorySize h.fileSize

/-- **The byte that a header gives to an address**: one of the file, and zero behind these. -/
def Gives (data : ByteArray) (h : ProgramHeader) (a : Nat) (b : Byte) : Prop :=
  if a - h.address < h.fileSize then
    data[h.offset + (a - h.address)]? = some (UInt8.ofBitVec b)
  else b = 0

/-- **The last header in a table that loads something at an address.** -/
def LastAt (programs : List ProgramHeader) (a : Nat) (h : ProgramHeader) : Prop :=
  h.IsLoad ∧ h.Covers a ∧
    ∃ earlier later, programs = earlier ++ h :: later ∧ ∀ g ∈ later, g.IsLoad → ¬ g.Covers a

instance (h : ProgramHeader) : Decidable h.IsLoad :=
  inferInstanceAs (Decidable (_ ∧ _))

instance (data : ByteArray) (h : ProgramHeader) : Decidable (h.IsSound data) :=
  inferInstanceAs (Decidable (_ ∧ _))

instance (h : ProgramHeader) (a : Nat) : Decidable (h.Covers a) :=
  inferInstanceAs (Decidable (_ ∧ _))

instance (data : ByteArray) (h : ProgramHeader) (a : Nat) (b : Byte) :
    Decidable (h.Gives data a b) :=
  inferInstanceAs (Decidable (if a - h.address < h.fileSize then
    data[h.offset + (a - h.address)]? = some (UInt8.ofBitVec b) else b = 0))

theorem isLoadable_iff {h : ProgramHeader} : Executable.isLoadable h ↔ h.IsLoad := by
  simp [Executable.isLoadable, IsLoad]

/-- In a file with 32-bit addresses, a header's address is one of them. -/
theorem address_lt_of_read? {f : ElfFormat} {data : ByteArray} {start : Nat} {h : ProgramHeader}
    (hnarrow : f.wide = false) (hread : read? f data start = some h) : h.address < 2 ^ 32 := by
  simp only [read?, hnarrow, Bool.false_eq_true, if_false, bind, pure, Option.bind_eq_some_iff,
    Option.some.injEq] at hread
  obtain ⟨-, -, -, -, -, -, -, -, address, haddress, -, -, -, -, rfl⟩ := hread
  exact ElfFormat.number?_lt haddress

end ProgramHeader

/-! ## The file -/

/-- **All addresses in the headers have 32 bits.** This is what loading rests on, and all that it
takes from the way in which headers are read. -/
structure ElfHeader.IsNarrow (header : ElfHeader) : Prop where
  entry : header.entry < 2 ^ 32
  programs : ∀ h ∈ header.programs, h.address < 2 ^ 32

namespace Executable

variable {data : ByteArray} {e : Executable}

theorem of_read_eq_ok (hread : Executable.read data = .ok e) :
    e.data = data ∧ ElfHeader.read? data = some e.header ∧ e.header.format.wide = false := by
  unfold Executable.read at hread
  split at hread
  case h_1 => cases hread
  case h_2 header hfound =>
    split_ifs at hread with hother hwide hbig
    obtain rfl := Except.ok.inj hread
    exact ⟨rfl, hfound, by simpa using hwide⟩

/-- The addresses in the headers of a file that is read have 32 bits, each program header having
been read from a place of its own. -/
theorem isNarrow_of_read (hread : Executable.read data = .ok e) : e.header.IsNarrow := by
  obtain ⟨-, hfound, hwide⟩ := of_read_eq_ok hread
  simp only [ElfHeader.read?, bind, pure, Option.bind_eq_some_iff, Option.some.injEq] at hfound
  obtain ⟨format, -, -, -, machine, -, entry, hentry, table, -, flags, -, count, -, -, -,
    programs, hprograms, hheader⟩ := hfound
  rw [← hheader] at hwide ⊢
  have hnarrow : format.wide = false := hwide
  refine ⟨?_, fun h hmem => ?_⟩
  · simpa [hnarrow] using ElfFormat.number?_lt hentry
  · obtain ⟨i, hi, rfl⟩ := List.getElem_of_mem hmem
    have hpairs := forall₂_of_mapM_eq_some hprograms
    exact ProgramHeader.address_lt_of_read? hnarrow (hpairs.get (hpairs.length_eq ▸ hi) hi)

/-! ## Parts and segments -/

/-- The part that a header stands for. -/
def partOf (e : Executable) (h : ProgramHeader) : LoadPart where
  address := BitVec.ofNat 32 h.address
  memorySize := h.memorySize
  data := e.data.extract h.offset (h.offset + h.fileSize)
  executable := h.flags % 2 == 1
  writable := h.flags / 2 % 2 == 1

theorem part_eq_ok_iff (h : ProgramHeader) (p : LoadPart) :
    e.part h = .ok p ↔ h.IsSound e.data ∧ p = e.partOf h := by
  unfold part ProgramHeader.IsSound partLimit
  split_ifs with hpast hlarge
  · simp only [false_iff, not_and]
    omega
  · simp only [false_iff, not_and]
    omega
  · rw [Except.ok.injEq, eq_comm]
    exact (and_iff_right ⟨by omega, by omega⟩).symm

theorem parts_eq_ok_iff {ps : List LoadPart} :
    e.parts = .ok ps ↔
      (∀ h ∈ e.header.programs, h.IsLoad → h.IsSound e.data) ∧
      ps = (e.header.programs.filter isLoadable).map e.partOf := by
  unfold parts
  rw [mapM_eq_ok_iff part_eq_ok_iff]
  simp only [List.mem_filter, ProgramHeader.isLoadable_iff, and_imp]

/-- **When there is an image, and which one it is.** -/
theorem image_eq_ok_iff {m : Image} :
    e.image = .ok m ↔
      (∃ h ∈ e.header.programs, h.IsLoad) ∧
      (∀ h ∈ e.header.programs, h.IsLoad → h.IsSound e.data) ∧
      m = ⟨(e.header.programs.filter isLoadable).map fun h => (e.partOf h).segment, e.entry⟩ := by
  have hnonempty : (∃ h ∈ e.header.programs, h.IsLoad) ↔
      (e.header.programs.filter isLoadable).isEmpty = false := by
    simp [← ProgramHeader.isLoadable_iff]
  rw [hnonempty]
  constructor
  · intro hmade
    cases hread : e.parts with
    | error _ => simp [image, hread, bind, Except.bind] at hmade
    | ok ps =>
      obtain ⟨hsound, rfl⟩ := parts_eq_ok_iff.mp hread
      simp only [image, hread, bind, Except.bind, List.isEmpty_map] at hmade
      split_ifs at hmade with hempty
      refine ⟨by simpa using hempty, hsound, ?_⟩
      rw [← Except.ok.inj hmade, List.map_map]
      rfl
  · rintro ⟨hfull, hsound, rfl⟩
    simp only [image, parts_eq_ok_iff.mpr ⟨hsound, rfl⟩, bind, Except.bind, List.isEmpty_map, hfull,
      List.map_map]
    rfl

/-! ## Bytes -/

theorem size_segment_partOf {h : ProgramHeader} (hsound : h.IsSound e.data) :
    (e.partOf h).segment.size = max h.memorySize h.fileSize := by
  have := hsound.1
  simp only [partOf, LoadPart.segment, Segment.size, ByteArray.size_extract]
  omega

theorem toNat_base_segment_partOf {h : ProgramHeader} (haddress : h.address < 2 ^ 32) :
    (e.partOf h).segment.base.toNat = h.address :=
  (BitVec.toNat_ofNat h.address 32).trans (Nat.mod_eq_of_lt haddress)

theorem contains_segment_partOf {h : ProgramHeader} {a : Word} (hsound : h.IsSound e.data)
    (haddress : h.address < 2 ^ 32) : (e.partOf h).segment.contains a ↔ h.Covers a.toNat := by
  rw [Segment.contains_iff, size_segment_partOf hsound, toNat_base_segment_partOf haddress]
  rfl

/-- The segment of a header has the bytes that the header gives: those of the file, and zeros behind
them up to the size in memory. -/
theorem byte?_segment_partOf {h : ProgramHeader} {a : Nat} {b : Byte} (hsound : h.IsSound e.data)
    (haddress : h.address < 2 ^ 32) (hcovers : h.Covers a) :
    (e.partOf h).segment.byte? (a - (e.partOf h).segment.base.toNat) = some b ↔
      h.Gives e.data a b := by
  have hbase : (e.partOf h).segment.base.toNat = h.address := toNat_base_segment_partOf haddress
  have hsize := size_segment_partOf hsound
  have hlength : (e.partOf h).segment.data.size = h.fileSize := by
    have := hsound.1
    simp only [partOf, LoadPart.segment, ByteArray.size_extract]
    omega
  have hinside : a - h.address < (e.partOf h).segment.size := by
    have := hcovers.1
    have := hcovers.2
    omega
  rw [hbase, ProgramHeader.Gives]
  by_cases hstored : a - h.address < h.fileSize
  · have hbound : h.offset + (a - h.address) < e.data.size := by
      have := hsound.1
      omega
    have hgiven : (e.partOf h).segment.data[a - h.address]? =
        some e.data[h.offset + (a - h.address)] := by
      rw [getElem?_pos (e.partOf h).segment.data _ (hlength ▸ hstored)]
      exact congrArg some (ByteArray.getElem_extract _)
    rw [if_pos hstored, Segment.byte?, hgiven, getElem?_pos e.data _ hbound, Option.some.injEq,
      Option.some.injEq]
    exact ⟨fun heq => by rw [← heq], fun heq => by rw [heq]⟩
  · have habsent : (e.partOf h).segment.data[a - h.address]? = none :=
      getElem?_neg _ _ (hlength ▸ hstored)
    rw [if_neg hstored, Segment.byte?, habsent]
    simp only [if_pos hinside, Option.some.injEq, eq_comm]

/-- In memory made of the segments of some members of a list, the segment that is seen is that of
the last of these members that has the address. -/
theorem exists_sees_filter_map_iff {α : Type} {p : α → Bool} {f : α → Segment} {l : List α}
    {entry a : Word} {s : Segment} :
    (∃ later, Image.Sees ⟨(l.filter p).map f, entry⟩ a s later) ↔
      ∃ earlier x later, l = earlier ++ x :: later ∧ p x ∧ f x = s ∧ s.contains a ∧
        ∀ y ∈ later, p y → ¬ (f y).contains a := by
  constructor
  · rintro ⟨behind, ⟨front, hsplit⟩, hcontained, hmissed⟩
    -- the split of the segments is one of the list, with some members left out of it
    obtain ⟨l₁, l₂, hparted, -, htail⟩ := List.map_eq_append_iff.mp hsplit
    obtain ⟨x, t, rfl, rfl, rfl⟩ := List.map_eq_cons_iff.mp htail
    obtain ⟨xs, ys, rfl, -, hrest⟩ := List.filter_eq_append_iff.mp hparted
    obtain ⟨skipped, later, rfl, -, hkept, rfl⟩ := List.filter_eq_cons_iff.mp hrest
    refine ⟨xs ++ skipped, x, later, by simp, hkept, rfl, hcontained, fun y hy hpy => ?_⟩
    exact hmissed (f y) (List.mem_map_of_mem (List.mem_filter.mpr ⟨hy, hpy⟩))
  · rintro ⟨earlier, x, later, rfl, hpx, rfl, hcontained, hmissed⟩
    refine ⟨(later.filter p).map f, ⟨(earlier.filter p).map f, by simp [hpx]⟩, hcontained, ?_⟩
    intro t ht
    obtain ⟨y, hy, rfl⟩ := List.mem_map.mp ht
    obtain ⟨hy, hpy⟩ := List.mem_filter.mp hy
    exact hmissed y hy hpy

/-- In the image of a file, the segment that is seen is that of the last header at the address. -/
theorem exists_sees_iff_lastAt (hsound : ∀ h ∈ e.header.programs, h.IsLoad → h.IsSound e.data)
    (hnarrow : e.header.IsNarrow) {entry a : Word} {s : Segment} :
    (∃ later, Image.Sees ⟨(e.header.programs.filter isLoadable).map fun h => (e.partOf h).segment,
      entry⟩ a s later) ↔
      ∃ h, ProgramHeader.LastAt e.header.programs a.toNat h ∧ (e.partOf h).segment = s := by
  have hcontains : ∀ h ∈ e.header.programs, h.IsLoad →
      ((e.partOf h).segment.contains a ↔ h.Covers a.toNat) := fun h hmem hload =>
    contains_segment_partOf (hsound h hmem hload) (hnarrow.programs h hmem)
  rw [exists_sees_filter_map_iff]
  constructor
  · rintro ⟨earlier, h, later, hsplit, hload, rfl, hcontained, hmissed⟩
    have hload := ProgramHeader.isLoadable_iff.mp hload
    refine ⟨h, ⟨hload, (hcontains h (by simp [hsplit]) hload).mp hcontained, earlier, later, hsplit,
      fun g hg hgload => ?_⟩, rfl⟩
    rw [← hcontains g (by simp [hsplit, hg]) hgload]
    exact hmissed g hg (ProgramHeader.isLoadable_iff.mpr hgload)
  · rintro ⟨h, ⟨hload, hcovers, earlier, later, hsplit, hmissed⟩, rfl⟩
    refine ⟨earlier, h, later, hsplit, ProgramHeader.isLoadable_iff.mpr hload, rfl,
      (hcontains h (by simp [hsplit]) hload).mpr hcovers, fun g hg hgload => ?_⟩
    have hgload := ProgramHeader.isLoadable_iff.mp hgload
    rw [hcontains g (by simp [hsplit, hg]) hgload]
    exact hmissed g hg hgload

/-- **A byte of the image of a file** is what the last header at its address gives. -/
theorem byte?_eq_some_iff_lastAt (hsound : ∀ h ∈ e.header.programs, h.IsLoad → h.IsSound e.data)
    (hnarrow : e.header.IsNarrow) {entry a : Word} {b : Byte} :
    Image.byte? ⟨(e.header.programs.filter isLoadable).map fun h => (e.partOf h).segment, entry⟩ a =
        some b ↔
      ∃ h, ProgramHeader.LastAt e.header.programs a.toNat h ∧ h.Gives e.data a.toNat b := by
  have hgives : ∀ {h : ProgramHeader}, ProgramHeader.LastAt e.header.programs a.toNat h →
      ((e.partOf h).segment.byte? (a.toNat - (e.partOf h).segment.base.toNat) = some b ↔
        h.Gives e.data a.toNat b) := by
    rintro h ⟨hload, hcovers, earlier, later, hsplit, -⟩
    have hmem : h ∈ e.header.programs := by simp [hsplit]
    exact byte?_segment_partOf (hsound h hmem hload) (hnarrow.programs h hmem) hcovers
  rw [Image.byte?_eq_some_iff]
  constructor
  · rintro ⟨s, later, hsees, hvalue⟩
    obtain ⟨h, hlast, rfl⟩ := (exists_sees_iff_lastAt hsound hnarrow).mp ⟨later, hsees⟩
    exact ⟨h, hlast, (hgives hlast).mp hvalue⟩
  · rintro ⟨h, hlast, hvalue⟩
    obtain ⟨later, hsees⟩ := (exists_sees_iff_lastAt hsound hnarrow).mpr ⟨h, hlast, rfl⟩
    exact ⟨_, later, hsees, (hgives hlast).mpr hvalue⟩

/-- **Loading is exact, and all or nothing**, for headers whose addresses have 32 bits, as those of
every file that is read have. There is an image exactly if some header is to be loaded and all such
headers are sound. The image is entered where the headers say, and has at each address what the last
header there gives, and nothing where there is none. Nothing else is asked of the headers, so that
it does not matter by what reader they were found in the file. -/
theorem image_holds_headers (e : Executable) :
    (∀ data, Executable.read data = .ok e →
      e.data = data ∧ ElfHeader.read? data = some e.header ∧ e.header.IsNarrow) ∧
    (e.header.IsNarrow →
      ((∃ m, e.image = .ok m) ↔
        (∃ h ∈ e.header.programs, h.IsLoad) ∧
          ∀ h ∈ e.header.programs, h.IsLoad → h.IsSound e.data) ∧
      ∀ m, e.image = .ok m →
        m.entry.toNat = e.header.entry ∧
        ∀ a : Word,
          (∀ b, m.byte? a = some b ↔
            ∃ h, ProgramHeader.LastAt e.header.programs a.toNat h ∧ h.Gives e.data a.toNat b) ∧
          (m.byte? a = none ↔ ∀ h ∈ e.header.programs, h.IsLoad → ¬ h.Covers a.toNat)) := by
  refine ⟨fun data hread => ?_, fun hnarrow => ⟨⟨?_, ?_⟩, fun m hmade => ?_⟩⟩
  · obtain ⟨hdata, hheader, -⟩ := of_read_eq_ok hread
    exact ⟨hdata, hheader, isNarrow_of_read hread⟩
  · rintro ⟨m, hmade⟩
    obtain ⟨hsome, hsound, -⟩ := image_eq_ok_iff.mp hmade
    exact ⟨hsome, hsound⟩
  · rintro ⟨hsome, hsound⟩
    exact ⟨_, image_eq_ok_iff.mpr ⟨hsome, hsound, rfl⟩⟩
  · obtain ⟨-, hsound, rfl⟩ := image_eq_ok_iff.mp hmade
    have hentered : e.entry.toNat = e.header.entry :=
      (BitVec.toNat_ofNat e.header.entry 32).trans (Nat.mod_eq_of_lt hnarrow.entry)
    refine ⟨hentered, fun a => ⟨fun b => byte?_eq_some_iff_lastAt hsound hnarrow, ?_⟩⟩
    rw [Image.byte?_eq_none_iff]
    simp only [List.forall_mem_map, List.mem_filter, ProgramHeader.isLoadable_iff, and_imp]
    exact forall₃_congr fun h hmem hload =>
      not_congr (contains_segment_partOf (hsound h hmem hload) (hnarrow.programs h hmem))

/-- A file with two headers to be loaded. The first gives four bytes and four zeros, and the second
covers its third byte and the two behind that, although it asks for one byte of memory only. -/
def overlappingFile : ByteArray :=
  bytesOfWords
    [0x464C457F, 0x00010101, 0, 0, 0x00A40002, 1, 0x1000, 52, 0, 0x68, 0x00200034, 0x00280002, 0,
      1, 116, 0x1000, 0x1000, 4, 8, 5, 4,
      1, 117, 0x1002, 0x1002, 3, 1, 4, 4,
      0x04030201]

/-- Its headers. -/
def overlappingHeader : ElfHeader where
  format := ⟨false, true⟩
  machine := 164
  entry := 0x1000
  flags := 0x68
  programs := [⟨1, 5, 116, 0x1000, 4, 8⟩, ⟨1, 4, 117, 0x1002, 3, 1⟩]

theorem image_holds_headers_overlappingFile :
    ∃ m, Executable.image ⟨overlappingFile, overlappingHeader⟩ = .ok m ∧
      m.entry.toNat = 0x1000 ∧ m.byte? 0x1004 = some 4 ∧ m.byte? 0x1005 = some 0 ∧
      m.byte? 0x1008 = none := by
  have hfound : ElfHeader.read? overlappingFile = some overlappingHeader := by decide +kernel
  have hread : Executable.read overlappingFile = .ok ⟨overlappingFile, overlappingHeader⟩ := by
    simp [Executable.read, hfound, overlappingHeader, guestMachine]
  obtain ⟨hfile, hholds⟩ := image_holds_headers ⟨overlappingFile, overlappingHeader⟩
  obtain ⟨-, -, hnarrow⟩ := hfile overlappingFile hread
  obtain ⟨hsuccess, himage⟩ := hholds hnarrow
  obtain ⟨m, hmade⟩ := hsuccess.mpr
    ⟨⟨_, List.mem_cons_self, by decide⟩, by unfold overlappingHeader; decide +kernel⟩
  obtain ⟨hentry, hbytes⟩ := himage m hmade
  refine ⟨m, hmade, hentry, ?_, ?_, ?_⟩
  · exact ((hbytes 0x1004).1 4).mpr ⟨⟨1, 4, 117, 0x1002, 3, 1⟩, ⟨by decide, by decide,
      [⟨1, 5, 116, 0x1000, 4, 8⟩], [], rfl, by simp⟩, by decide +kernel⟩
  · exact ((hbytes 0x1005).1 0).mpr ⟨⟨1, 5, 116, 0x1000, 4, 8⟩, ⟨by decide, by decide,
      [], [⟨1, 4, 117, 0x1002, 3, 1⟩], rfl, by decide⟩, by decide +kernel⟩
  · exact (hbytes 0x1008).2.mpr (by decide)

end Executable

end PacketLift
