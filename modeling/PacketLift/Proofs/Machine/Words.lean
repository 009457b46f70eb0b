import PacketLift.Proofs.Machine.Values

/-!
# The words behind the values

A run keeps the values of globals in the words of the CPU's state. As long as no two of them share
a word, running an operation changes the values of a machine exactly as `Values.eval` says, and
leaves all other words alone. So what operations do to a CPU's state is known from how they act on
the guest.

## Main definitions

* `Layout.word?`, `Layout.Separate`: the word of a cell, and layouts in which no two share one
* `Cpu.guest`, `Machine.values`: a CPU's state and a machine as values
* `Cpu.SameElsewhere`: two states that differ in words of the guest at most
* `WritesBelow n ops`: operations that write to no temporary from `n` on
* `Machine.Fits`: a machine that has a word for everything
* `Machine.Tracks`: a machine that keeps up with values

## Main results

* `Layout.separate_packed`
* `Cpu.SameElsewhere.words_of_get`, `Cpu.SameElsewhere.eq_of_guest`: words known from values
* `Machine.run_append`, `Machine.run_append_of_mem`: runs in parts
* `Machine.Tracks.step`, `Machine.Tracks.run`: operations on a machine and on its values
* `Machine.Fits.run_of_acts`: operations that act on the guest, on a machine
* `Listing.run_of_acts`: a whole listing on a CPU's state
* `Listing.run_eq_of_acts`: listings that begin alike and go on in ways that act alike
-/

namespace PacketLift

/-! ## Layouts -/

namespace Layout

/-- The byte offset of the word that a cell stands for. -/
def offset? (layout : Layout) : Cell → Option Nat
  | .live i => some (layout.live (.ofSlot i))
  | .staged i => some (layout.staged (.ofSlot i))
  | .pcWritten => some layout.pcWritten
  | .pcTrace => some layout.pcTrace
  | .scratch _ => none

/-- The number of the word that a cell stands for. -/
def word? (layout : Layout) (c : Cell) : Option Nat := (layout.offset? c).map (· / 4)

/-- **A layout that keeps the words of the guest apart**: all of them lie inside, and no two cells
share one. -/
structure Separate (layout : Layout) : Prop where
  inside {c : Cell} {i : Nat} : layout.word? c = some i → i < layout.size / 4
  distinct {c c' : Cell} {i : Nat} : layout.word? c = some i → layout.word? c' = some i → c = c'

/-- The words of the packed layout: live registers, staging words behind the system registers, and
the two words of the lifted code. -/
theorem word?_packed (c : Cell) : packed.word? c =
    match c with
    | .live i => some i.val
    | .staged i => some (128 + i.val)
    | .pcWritten => some 192
    | .pcTrace => some 193
    | .scratch _ => none := by
  cases c with
  | live i =>
    revert i
    decide
  | staged i =>
    revert i
    decide
  | pcWritten => rfl
  | pcTrace => rfl
  | scratch t => rfl

/-- **The packed layout keeps the words of the guest apart.** -/
theorem separate_packed : packed.Separate where
  inside {c i} h := by
    have hsize : packed.size / 4 = 194 := rfl
    rw [word?_packed] at h
    cases c <;> simp only [Option.some.injEq, reduceCtorEq] at h <;> omega
  distinct {c c' i} h h' := by
    rw [word?_packed] at h h'
    cases c <;> cases c' <;>
      simp only [Option.some.injEq, reduceCtorEq, Cell.live.injEq, Cell.staged.injEq] at h h' ⊢ <;>
      omega

theorem of_eq_scratch {layout : Layout} {t : Nat} (h : layout.offset? (.of t) = none) :
    Cell.of t = .scratch t := by
  unfold Cell.of at h ⊢
  split_ifs at h ⊢ <;> first | rfl | cases h

/-- Temporaries that begin with the globals of a layout, and go on with locals. -/
structure Binds (layout : Layout) (temps : Array Temp) : Prop where
  global {t o : Nat} : layout.offset? (.of t) = some o → ∃ name, temps[t]? = some (.global name o)
  scratch {t : Nat} : layout.offset? (.of t) = none → ∀ temp ∈ temps[t]?, temp = .scratch

theorem length_guestTemps (layout : Layout) : (guestTemps layout).length = 130 := by
  simp [guestTemps, Register.all]

/-- The globals of lifted code are bound to their layout. -/
theorem binds_toArray_guestTemps (layout : Layout) : layout.Binds (guestTemps layout).toArray where
  global {t o} h := by
    unfold Cell.of at h
    split_ifs at h with hlive hstaged hwritten htrace
    · cases h
      simp [guestTemps, Register.all, List.getElem?_append, hlive]
    · cases h
      have hlt : t - 64 < 64 := by omega
      simp [guestTemps, Register.all, List.getElem?_append, hlive, hlt]
    · cases h
      simp [guestTemps, Register.all, hwritten]
    · cases h
      simp [guestTemps, Register.all, htrace]
    · cases h
  scratch {t} h temp htemp := by
    unfold Cell.of at h
    split_ifs at h with hlive hstaged hwritten htrace <;> try cases h
    have hle : (guestTemps layout).length ≤ t := by
      rw [length_guestTemps]
      omega
    rw [List.getElem?_toArray, List.getElem?_eq_none hle] at htemp
    cases htemp

namespace Binds

variable {layout : Layout} {temps : Array Temp}

/-- All globals are there. -/
theorem le_size (h : layout.Binds temps) : 130 ≤ temps.size := by
  obtain ⟨name, htrace⟩ := h.global (t := 129) (o := layout.pcTrace) rfl
  exact (Array.getElem?_eq_some_iff.mp htrace).1

/-- Locals can be declared behind the globals. -/
theorem append (h : layout.Binds temps) {ts : List Temp} (hts : ∀ t ∈ ts, t = .scratch) :
    layout.Binds (temps ++ ts.toArray) where
  global {t o} ho := by
    obtain ⟨name, htemp⟩ := h.global ho
    have hlt := (Array.getElem?_eq_some_iff.mp htemp).1
    exact ⟨name, (Array.getElem?_append_left hlt).trans htemp⟩
  scratch {t} ho temp htemp := by
    rw [Array.getElem?_append] at htemp
    split_ifs at htemp with hlt
    · exact h.scratch ho temp htemp
    · rw [List.getElem?_toArray] at htemp
      exact hts temp (List.mem_of_getElem? htemp)

end Binds

/-- **The globals of lifted code, and locals behind them**, are bound to a layout. -/
theorem binds_guestTemps (layout : Layout) {ts : List Temp} (hts : ∀ t ∈ ts, t = .scratch) :
    layout.Binds ((guestTemps layout).toArray ++ ts.toArray) :=
  layout.binds_toArray_guestTemps.append hts

end Layout

/-! ## States as values -/

/-- The guest in a CPU's state, when the trap handler was called with the given numbers. -/
def Cpu.guest (cpu : Cpu) (traps : List Word) : Guest where
  live i := cpu.register (.ofSlot i)
  staged i := cpu.staged (.ofSlot i)
  pcWritten := cpu.pcWritten
  pcTrace := cpu.pcTrace
  traps := traps

/-- The values in a machine. -/
def Machine.values (m : Machine) : Values :=
  ⟨m.cpu.guest m.outcome.traps, fun t => m.locals.getD t 0⟩

/-- A CPU's state has the words of a layout, and no others. -/
structure Cpu.Fits (cpu : Cpu) (layout : Layout) : Prop where
  size : cpu.words.size = layout.size / 4
  layout : cpu.layout = layout

/-- **Two states that differ in words of the guest at most.** -/
structure Cpu.SameElsewhere (cpu cpu' : Cpu) : Prop where
  layout : cpu'.layout = cpu.layout
  size : cpu'.words.size = cpu.words.size
  words {i : Nat} : (∀ c, cpu.layout.word? c ≠ some i) → cpu'.words[i]? = cpu.words[i]?

theorem Machine.load_eq_get (m : Machine) {c : Cell} {o : Nat}
    (h : m.cpu.layout.offset? c = some o) : m.cpu.load o = m.values.get c := by
  cases c <;> cases h <;> rfl

/-- The register of a register's slot has its number modulo 32. -/
theorem Register.ofSlot_slot (r : Register) : ofSlot r.slot =
    match r with
    | general n => general (BitVec.ofNat 8 (n.toNat % 32))
    | control n => control (BitVec.ofNat 8 (n.toNat % 32)) := by
  cases r with
  | general n =>
    have hlt : n.toNat % 32 < 32 := Nat.mod_lt _ (by decide)
    simp [slot, ofSlot, hlt]
  | control n =>
    have hle : ¬32 + n.toNat % 32 < 32 := by omega
    simp [slot, ofSlot, hle]

theorem Layout.offset_ofSlot (layout : Layout) (r : Register) :
    layout.live (.ofSlot r.slot) = layout.live r ∧
      layout.staged (.ofSlot r.slot) = layout.staged r := by
  have hbyte (n : Byte) : (BitVec.ofNat 8 (n.toNat % 32)).toNat % 32 = n.toNat % 32 := by
    rw [BitVec.toNat_ofNat]
    omega
  rw [Register.ofSlot_slot]
  cases r <;> simp only [live, staged, hbyte, and_self]

namespace Cpu

variable {cpu cpu' cpu'' : Cpu}

theorem guest_live (cpu : Cpu) (traps : List Word) (r : Register) :
    (cpu.guest traps).live r.slot = cpu.register r :=
  congrArg cpu.load (cpu.layout.offset_ofSlot r).1

theorem guest_staged (cpu : Cpu) (traps : List Word) (r : Register) :
    (cpu.guest traps).staged r.slot = cpu.staged r :=
  congrArg cpu.load (cpu.layout.offset_ofSlot r).2

namespace SameElsewhere

theorem refl (cpu : Cpu) : cpu.SameElsewhere cpu := ⟨rfl, rfl, fun _ => rfl⟩

theorem trans (h : cpu.SameElsewhere cpu') (h' : cpu'.SameElsewhere cpu'') :
    cpu.SameElsewhere cpu'' where
  layout := h'.layout.trans h.layout
  size := h'.size.trans h.size
  words hi := (h'.words (by rwa [h.layout])).trans (h.words hi)

theorem symm (h : cpu.SameElsewhere cpu') : cpu'.SameElsewhere cpu where
  layout := h.layout.symm
  size := h.size.symm
  words hi := (h.words (by rwa [← h.layout])).symm

/-- Storing to a word of the guest. -/
theorem store {c : Cell} {o : Nat} (h : cpu.layout.offset? c = some o) (x : Word) :
    cpu.SameElsewhere (cpu.store o x) where
  layout := rfl
  size := by simp [Cpu.store]
  words {i} hi := by
    have hne : o / 4 ≠ i := fun heq => hi c (by rw [Layout.word?, h, Option.map_some, heq])
    simp [Cpu.store, Array.getElem?_setIfInBounds_ne hne]

end SameElsewhere

theorem Fits.of_sameElsewhere {layout : Layout} (h : cpu.Fits layout)
    (h' : cpu.SameElsewhere cpu') : cpu'.Fits layout :=
  ⟨h'.size.trans h.size, h'.layout.trans h.layout⟩

/-- **A word stays** if it belongs to no cell of the guest, or to one whose value stays. -/
theorem SameElsewhere.words_of_get {m m' : Machine} (h : m.cpu.SameElsewhere m'.cpu) {i : Nat}
    (hget : ∀ c, m.cpu.layout.word? c = some i → m'.values.get c = m.values.get c) :
    m'.cpu.words[i]? = m.cpu.words[i]? := by
  by_cases hi : ∃ c, m.cpu.layout.word? c = some i
  · obtain ⟨c, hc⟩ := hi
    obtain ⟨o, ho, rfl⟩ := Option.map_eq_some_iff.mp hc
    have hload : m'.cpu.load o = m.cpu.load o := by
      rw [m'.load_eq_get (h.layout.symm ▸ ho), m.load_eq_get ho, hget c hc]
    unfold load at hload
    by_cases hlt : o / 4 < m.cpu.words.size
    · have hlt' : o / 4 < m'.cpu.words.size := h.size ▸ hlt
      rw [Array.getD_eq_getD_getElem?, Array.getD_eq_getD_getElem?, Array.getElem?_eq_getElem hlt,
        Array.getElem?_eq_getElem hlt'] at hload
      rw [Array.getElem?_eq_getElem hlt, Array.getElem?_eq_getElem hlt']
      exact congrArg some hload
    · have hlt' : ¬o / 4 < m'.cpu.words.size := h.size ▸ hlt
      rw [Array.getElem?_eq_none (Nat.le_of_not_lt hlt),
        Array.getElem?_eq_none (Nat.le_of_not_lt hlt')]
  · exact h.words fun c hc => hi ⟨c, hc⟩

/-- **A state is known from its guest** and its other words. -/
theorem SameElsewhere.eq_of_guest {traps : List Word} (h : cpu.SameElsewhere cpu')
    (hguest : cpu.guest traps = cpu'.guest traps) : cpu = cpu' := by
  let m : Machine := ⟨cpu, #[], { traps }⟩
  let m' : Machine := ⟨cpu', #[], { traps }⟩
  have hvalues : m'.values = m.values := by
    simp only [Machine.values, m, m', hguest]
  have hsame : m.cpu.SameElsewhere m'.cpu := h
  have hwords : cpu'.words = cpu.words :=
    Array.ext_getElem? fun i => hsame.words_of_get fun c _ => by rw [hvalues]
  cases cpu
  cases cpu'
  simp only [Cpu.mk.injEq]
  exact ⟨h.layout.symm, hwords.symm⟩

end Cpu

/-! ## Running -/

/-- Whether an operation calls the trap handler. -/
def MicroOp.isCall : MicroOp → Bool
  | .callTrap _ => true
  | _ => false

/-- Operations that write to no temporary from `n` on. -/
def WritesBelow (n : Nat) (ops : List MicroOp) : Prop :=
  ∀ op ∈ ops, ∀ t ∈ op.output?, t < n

namespace WritesBelow

variable {n n' : Nat} {ops ops' : List MicroOp}

theorem mono (h : WritesBelow n ops) (hn : n ≤ n') : WritesBelow n' ops :=
  fun op hop t ht => Nat.lt_of_lt_of_le (h op hop t ht) hn

theorem append (h : WritesBelow n ops) (h' : WritesBelow n ops') : WritesBelow n (ops ++ ops') :=
  List.forall_mem_append.mpr ⟨h, h'⟩

/-- The words of the guest are no locals. -/
theorem live_lt (r : Register) (hn : 130 ≤ n) : Global.live r < n :=
  Nat.lt_of_lt_of_le r.slot.isLt (Nat.le_trans (by decide) hn)

theorem staged_lt (r : Register) (hn : 130 ≤ n) : Global.staged r < n :=
  Nat.lt_of_lt_of_le (Nat.add_lt_add_left r.slot.isLt 64) (Nat.le_trans (by decide) hn)

theorem pc_lt (hn : 130 ≤ n) : Global.pc < n := live_lt .pc hn

theorem pcWritten_lt (hn : 130 ≤ n) : Global.pcWritten < n := Nat.lt_of_lt_of_le (by decide) hn

theorem pcTrace_lt (hn : 130 ≤ n) : Global.pcTrace < n := Nat.lt_of_lt_of_le (by decide) hn

end WritesBelow

/-! ### Runs in parts -/

namespace Machine

variable {m : Machine} {temps : Array Temp} {front rest : List MicroOp}

theorem run_cons {op : MicroOp} (h : op ≠ .exitBlock) :
    m.run temps (op :: rest) = (m.step temps op).run temps rest := by
  cases op <;> first | rfl | exact absurd rfl h

/-- A run goes on behind operations that do not leave the block. -/
theorem run_append (h : ∀ op ∈ front, op ≠ .exitBlock) :
    m.run temps (front ++ rest) = (m.run temps front).run temps rest := by
  induction front generalizing m with
  | nil => rfl
  | cons op front ih =>
    have hop := h op List.mem_cons_self
    rw [List.cons_append, run_cons hop, run_cons hop]
    exact ih fun op' hop' => h op' (List.mem_cons_of_mem _ hop')

/-- A run ends where the block is left, whatever stands behind. -/
theorem run_append_of_mem (h : .exitBlock ∈ front) :
    m.run temps (front ++ rest) = m.run temps front := by
  induction front generalizing m with
  | nil => cases h
  | cons op front ih =>
    by_cases hop : op = .exitBlock
    · subst hop
      rfl
    · rw [List.cons_append, run_cons hop, run_cons hop]
      exact ih ((List.mem_cons.mp h).resolve_left (Ne.symm hop))

end Machine

/-- **A machine that has a word for everything**: for each word of the layout, and for each
temporary. -/
structure Machine.Fits (m : Machine) (layout : Layout) (temps : Array Temp) : Prop where
  cpu : m.cpu.Fits layout
  locals : m.locals.size = temps.size

namespace Machine.Fits

variable {m : Machine} {layout : Layout} {temps : Array Temp}

theorem start {cpu : Cpu} (hcpu : cpu.Fits layout) (temps : Array Temp) :
    (Machine.start temps cpu).Fits layout temps :=
  ⟨hcpu, Array.size_replicate⟩

theorem write (h : m.Fits layout temps) (t : TempId) (x : Word) :
    (m.write temps t x).Fits layout temps := by
  unfold Machine.write
  split
  · exact ⟨⟨by simpa [Cpu.store] using h.cpu.size, h.cpu.layout⟩, h.locals⟩
  · exact ⟨h.cpu, by simpa using h.locals⟩

theorem step (h : m.Fits layout temps) (op : MicroOp) : (m.step temps op).Fits layout temps := by
  have heffect : (m.effect temps op).Fits layout temps := by
    cases op with
    | packetStart pc => exact h
    | callTrap arguments => exact ⟨h.cpu, h.locals⟩
    | exitBlock => exact ⟨h.cpu, h.locals⟩
    | _ => exact h.write _ _
  exact ⟨heffect.cpu, heffect.locals⟩

/-- Whatever runs, no word is lost. -/
theorem run (h : m.Fits layout temps) (ops : List MicroOp) :
    (m.run temps ops).Fits layout temps := by
  induction ops generalizing m with
  | nil => exact h
  | cons op ops ih =>
    by_cases hop : op = .exitBlock
    · subst hop
      exact h.step .exitBlock
    · rw [Machine.run_cons hop]
      exact ih (h.step op)

end Machine.Fits

/-- **A machine that keeps up with values**: it has exactly these values, and its state differs
from the state at the start in words of the guest at most. -/
structure Machine.Tracks (m : Machine) (layout : Layout) (temps : Array Temp) (base : Cpu)
    (v : Values) : Prop where
  values : m.values = v
  fits : m.Fits layout temps
  elsewhere : base.SameElsewhere m.cpu

namespace Machine.Tracks

variable {m : Machine} {layout : Layout} {temps : Array Temp} {base : Cpu} {v : Values}

theorem read_eq (h : m.Tracks layout temps base v) (hbinds : layout.Binds temps) (t : Nat) :
    m.read temps t = v.read t := by
  rw [← h.values, Values.read]
  cases ho : layout.offset? (.of t) with
  | some o =>
    obtain ⟨name, htemp⟩ := hbinds.global ho
    rw [← h.fits.cpu.layout] at ho
    simp only [Machine.read, htemp]
    exact m.load_eq_get ho
  | none =>
    rw [Layout.of_eq_scratch ho]
    cases htemp : temps[t]? with
    | none => simp only [Machine.read, htemp, Machine.values, Values.get]
    | some temp =>
      obtain rfl := hbinds.scratch ho temp htemp
      simp only [Machine.read, htemp, Machine.values, Values.get]

/-- Storing to the word of a cell changes that cell and no other. -/
theorem values_store (hsep : layout.Separate) (hfits : m.cpu.Fits layout) {c : Cell} {o : Nat}
    (ho : layout.offset? c = some o) (x : Word) :
    { m with cpu := m.cpu.store o x }.values = m.values.set x c := by
  have hinside : o / 4 < m.cpu.words.size := by
    rw [hfits.size]
    exact hsep.inside (c := c) (by rw [Layout.word?, ho, Option.map_some])
  have hload : ∀ c' o', layout.offset? c' = some o' →
      (m.cpu.store o x).load o' = if c' = c then x else m.cpu.load o' := by
    intro c' o' ho'
    unfold Cpu.load Cpu.store
    split_ifs with hc
    · obtain rfl : o' = o := by
        rw [hc, ho] at ho'
        exact (Option.some.inj ho').symm
      simp [hinside]
    · have hne : o / 4 ≠ o' / 4 := by
        intro heq
        refine hc (hsep.distinct (i := o / 4) ?_ ?_)
        · rw [Layout.word?, ho', Option.map_some, heq]
        · rw [Layout.word?, ho, Option.map_some]
      simp [Array.getD_eq_getD_getElem?, Array.getElem?_setIfInBounds_ne hne]
  apply Values.ext_get
  · intro c'
    rw [Values.get_set]
    cases ho' : layout.offset? c' with
    | some o' =>
      have hm := hload c' o' ho'
      rw [← hfits.layout] at ho'
      rw [m.load_eq_get ho'] at hm
      rw [← hm]
      exact (Machine.load_eq_get { m with cpu := m.cpu.store o x } ho').symm
    | none =>
      have hne : c' ≠ c := by
        rintro rfl
        rw [ho] at ho'
        cases ho'
      rw [if_neg hne]
      cases c' with
      | scratch t => rfl
      | _ => cases ho'
  · cases c <;> rfl

/-- **Writing a temporary.** -/
theorem write (h : m.Tracks layout temps base v) (hsep : layout.Separate)
    (hbinds : layout.Binds temps) {t : Nat} (ht : t < temps.size) (x : Word) :
    (m.write temps t x).Tracks layout temps base (v.write t x) := by
  cases ho : layout.offset? (.of t) with
  | some o =>
    obtain ⟨name, htemp⟩ := hbinds.global ho
    have hwrite : m.write temps t x = { m with cpu := m.cpu.store o x } := by
      simp only [Machine.write, htemp]
    have hstore : m.cpu.SameElsewhere (m.cpu.store o x) :=
      .store (by rw [h.fits.cpu.layout]; exact ho) x
    refine ⟨?_, h.fits.write t x, ?_⟩
    · rw [hwrite, ← h.values]
      exact values_store hsep h.fits.cpu ho x
    · rw [hwrite]
      exact h.elsewhere.trans hstore
  | none =>
    have hwrite : m.write temps t x = { m with locals := m.locals.setIfInBounds t x } := by
      cases htemp : temps[t]? with
      | none => simp only [Machine.write, htemp]
      | some temp =>
        obtain rfl := hbinds.scratch ho temp htemp
        simp only [Machine.write, htemp]
    refine ⟨?_, h.fits.write t x, by rw [hwrite]; exact h.elsewhere⟩
    have hlocals : (fun i => (m.locals.setIfInBounds t x).getD i 0) =
        Function.update (fun i => m.locals.getD i 0) t x := by
      funext i
      have hlt : t < m.locals.size := h.fits.locals ▸ ht
      by_cases hi : i = t
      · subst hi
        simp [hlt]
      · simp [Array.getD_eq_getD_getElem?, Array.getElem?_setIfInBounds_ne (Ne.symm hi), hi]
    rw [hwrite, ← h.values, Values.write, Layout.of_eq_scratch ho]
    simp only [Machine.values, Values.set, hlocals]

/-- **One operation**, other than the exit. -/
theorem step (h : m.Tracks layout temps base v) (hsep : layout.Separate)
    (hbinds : layout.Binds temps) {op : MicroOp} (hop : ∀ t ∈ op.output?, t < temps.size) :
    (m.step temps op).Tracks layout temps base (v.eval op) := by
  have heffect : (m.effect temps op).values = v.eval op ∧
      base.SameElsewhere (m.effect temps op).cpu := by
    cases op with
    | packetStart pc => exact ⟨h.values, h.elsewhere⟩
    | callTrap arguments =>
      have hargument : (arguments.head?.map (m.read temps)).getD 0 =
          (arguments.head?.map v.read).getD 0 := by
        cases arguments with
        | nil => rfl
        | cons t ts => exact h.read_eq hbinds t
      refine ⟨?_, h.elsewhere⟩
      simp only [Machine.effect, Machine.trap, Values.eval, Values.trap, hargument, ← h.values]
      rfl
    | exitBlock => exact ⟨h.values, h.elsewhere⟩
    | _ =>
      have hwrite := h.write hsep hbinds (hop _ rfl)
      simp only [Machine.effect, h.read_eq hbinds, Values.eval]
      exact ⟨(hwrite _).values, (hwrite _).elsewhere⟩
  exact ⟨heffect.1, h.fits.step op, heffect.2⟩

/-- **Operations in order**, none of them the exit. -/
theorem run {ops : List MicroOp} (h : m.Tracks layout temps base v) (hsep : layout.Separate)
    (hbinds : layout.Binds temps) (hinner : ∀ op ∈ ops, op ≠ .exitBlock)
    (hbelow : WritesBelow temps.size ops) :
    (m.run temps ops).Tracks layout temps base (v.evalAll ops) := by
  -- on the operations: what is tracked is an invariant of each step, and nothing stops the run
  induction ops generalizing m v with
  | nil => exact h
  | cons op ops ih =>
    rw [Machine.run_cons (hinner op List.mem_cons_self)]
    exact ih (h.step hsep hbinds (hbelow op List.mem_cons_self))
      (fun op' hop' => hinner op' (List.mem_cons_of_mem _ hop'))
      (fun op' hop' => hbelow op' (List.mem_cons_of_mem _ hop'))

end Machine.Tracks

/-- **Operations that act on the guest, on a machine**: its guest becomes what they make of it, and
all other words stay. -/
theorem Machine.Fits.run_of_acts {m : Machine} {layout : Layout} {temps : Array Temp}
    {ops : List MicroOp} {f : Guest → Guest} (h : m.Fits layout temps) (hsep : layout.Separate)
    (hbinds : layout.Binds temps) (hinner : ∀ op ∈ ops, op ≠ .exitBlock)
    (hbelow : WritesBelow temps.size ops) (hacts : Acts ops f) :
    (m.run temps ops).cpu.guest (m.run temps ops).outcome.traps = f (m.cpu.guest m.outcome.traps) ∧
      m.cpu.SameElsewhere (m.run temps ops).cpu := by
  have hself : m.Tracks layout temps m.cpu m.values := ⟨rfl, h, .refl _⟩
  have htracks := hself.run hsep hbinds hinner hbelow
  exact ⟨(congrArg Values.guest htracks.values).trans (hacts m.values), htracks.elsewhere⟩

/-- **A whole listing on a CPU's state**, when its operations act on the guest: the block is left,
the guest becomes what they make of it, and all other words stay. -/
theorem Listing.run_of_acts {l : Listing} {layout : Layout} {ops : List MicroOp}
    {f : Guest → Guest} (hsep : layout.Separate) (hbinds : layout.Binds l.temps)
    (hops : l.ops = ops ++ [.exitBlock]) (hinner : ∀ op ∈ ops, op ≠ .exitBlock)
    (hbelow : WritesBelow l.temps.size ops) (hacts : Acts ops f) {cpu : Cpu}
    (hcpu : cpu.Fits layout) :
    (l.run cpu).1.exited = true ∧ (l.run cpu).2.guest (l.run cpu).1.traps = f (cpu.guest []) ∧
      cpu.SameElsewhere (l.run cpu).2 := by
  have hrun : (Machine.start l.temps cpu).run l.temps l.ops =
      ((Machine.start l.temps cpu).run l.temps ops).step l.temps .exitBlock := by
    rw [hops, Machine.run_append hinner]
    rfl
  simp only [Listing.run, hrun]
  exact ⟨rfl, (Machine.Fits.start hcpu l.temps).run_of_acts hsep hbinds hinner hbelow hacts⟩

/-- **Listings that begin alike and go on in ways that act alike** leave every state the same, with
the same calls of the trap handler. -/
theorem Listing.run_eq_of_acts {l l' : Listing} {layout : Layout} {done ops ops' : List MicroOp}
    {f : Guest → Guest} (hsep : layout.Separate) (hbinds : layout.Binds l.temps)
    (htemps : l'.temps = l.temps) (hops : l.ops = done ++ ops) (hops' : l'.ops = done ++ ops')
    (hinner : ∀ op ∈ ops ++ ops', op ≠ .exitBlock) (hbelow : WritesBelow l.temps.size (ops ++ ops'))
    (hacts : Acts ops f) (hacts' : Acts ops' f) {cpu : Cpu} (hcpu : cpu.Fits layout) :
    (l.run cpu).2 = (l'.run cpu).2 ∧ (l.run cpu).1.traps = (l'.run cpu).1.traps := by
  simp only [Listing.run, htemps, hops, hops']
  by_cases hexit : .exitBlock ∈ done
  · rw [Machine.run_append_of_mem hexit, Machine.run_append_of_mem hexit]
    exact ⟨rfl, rfl⟩
  · have hdone : ∀ op ∈ done, op ≠ .exitBlock := fun op hop heq => hexit (heq ▸ hop)
    rw [Machine.run_append hdone, Machine.run_append hdone]
    have hfits := (Machine.Fits.start hcpu l.temps).run done
    obtain ⟨hguest, helsewhere⟩ := hfits.run_of_acts hsep hbinds
      (fun op hop => hinner op (List.mem_append_left _ hop))
      (fun op hop => hbelow op (List.mem_append_left _ hop)) hacts
    obtain ⟨hguest', helsewhere'⟩ := hfits.run_of_acts hsep hbinds
      (fun op hop => hinner op (List.mem_append_right _ hop))
      (fun op hop => hbelow op (List.mem_append_right _ hop)) hacts'
    have hsame := hguest.trans hguest'.symm
    have htraps := congrArg Guest.traps hsame
    simp only [Cpu.guest] at htraps
    rw [htraps] at hsame
    exact ⟨(helsewhere.symm.trans helsewhere').eq_of_guest hsame, htraps⟩

end PacketLift
