import PacketLift.Proofs.Instruction.Effect
import PacketLift.Proofs.Machine.Temporaries

/-!
# Footprints tell what operations do

A packet is put together from footprints alone: they decide what is primed, in which order the
instructions run and what is committed. So the footprint of an instruction has to be right about
its operations in both directions. It names exactly the staging words that they write, and the words
that are left out of it do not matter to the values that are staged. The program counter is the
exception. It is written in place, so a branch names it without writing its staging word.

## Main definitions

* `MicroOp.reads`, `assigned`: the cells that operations read and write
* `Footprint.Names`: a footprint names what operations write and read
* `Footprint.Determines`: the values that operations stage depend on nothing else

## Main results

* `Instruction.names_lowered`, `Instruction.determines_lowered`
* `Instruction.footprint_describes_execute`: the footprint that is reported, and what was appended
-/

namespace PacketLift

/-! ## What operations mention -/

@[simp] theorem Cell.of_pc : Cell.of Global.pc = .live Register.pc.slot := of_live .pc

@[simp] theorem Cell.of_pcWritten : Cell.of Global.pcWritten = .pcWritten := rfl

/-- The cells that an operation reads. -/
def MicroOp.reads (op : MicroOp) : List Cell := op.inputs.map Cell.of

/-- **The cells that operations write**, in order. -/
def assigned (ops : List MicroOp) : List Cell := (ops.filterMap MicroOp.output?).map Cell.of

/-- **A footprint names what operations write and read.** They write the staging words of the
registers that it has as written, the program counter apart, and no live word but the program
counter's. That one and the flag of a taken branch are written if the program counter is among the
written registers. The staging words that are read are in the footprint, and a local is read only
behind an operation that writes it. -/
structure Footprint.Names (f : Footprint) (ops : List MicroOp) : Prop where
  staged (r : Register) : .staged r.slot ∈ assigned ops ↔
    f.writes.contains r = true ∧ r.slot ≠ Register.pc.slot
  live (r : Register) : .live r.slot ∈ assigned ops → r.slot = Register.pc.slot
  pc : .live Register.pc.slot ∈ assigned ops ↔ f.writes.contains .pc = true
  pcWritten : .pcWritten ∈ assigned ops ↔ f.writes.contains .pc = true
  reads (r : Register) : .staged r.slot ∈ ops.flatMap MicroOp.reads →
    f.read.contains r = true ∨ f.conditional.contains r = true
  locals {front back : List MicroOp} {op : MicroOp} {t : Nat} : ops = front ++ op :: back →
    .scratch t ∈ op.reads → .scratch t ∈ assigned front

/-- Two states with the same live registers, the program counter apart. -/
def Cpu.SameLive (cpu cpu' : Cpu) : Prop :=
  ∀ r : Register, r.slot ≠ Register.pc.slot → cpu.register r = cpu'.register r

/-- **What is staged depends on nothing but what a footprint has.** On any two machines with the
same live registers, a register that is always written is staged with the same value, whatever was
staged before, and one that is written under a predicate too if its own staging word and those that
are read agree. If the program counter is always written, then a branch is always taken, and to the
same address. -/
structure Footprint.Determines (f : Footprint) (layout : Layout) (temps : Array Temp)
    (ops : List MicroOp) : Prop where
  written {m m' : Machine} : m.Fits layout temps → m'.Fits layout temps →
    m.cpu.SameLive m'.cpu → ∀ r : Register, f.written.contains r = true →
    r.slot ≠ Register.pc.slot → (m.run temps ops).cpu.staged r = (m'.run temps ops).cpu.staged r
  conditional {m m' : Machine} : m.Fits layout temps → m'.Fits layout temps →
    m.cpu.SameLive m'.cpu → ∀ r : Register, f.conditional.contains r = true →
    (∀ q : Register, f.read.contains q = true ∨ q.slot = r.slot →
      m.cpu.staged q = m'.cpu.staged q) →
    (m.run temps ops).cpu.staged r = (m'.run temps ops).cpu.staged r
  taken {m : Machine} : m.Fits layout temps → f.written.contains .pc = true →
    (m.run temps ops).cpu.pcWritten = 1
  target {m m' : Machine} : m.Fits layout temps → m'.Fits layout temps →
    m.cpu.SameLive m'.cpu → f.written.contains .pc = true →
    (m.run temps ops).cpu.pc = (m'.run temps ops).cpu.pc

/-! ## Locals -/

/-- Locals are read only behind an operation that writes them, when those in `seen` were written
before. -/
def ReadsAssigned (seen : List Cell) : List MicroOp → Prop
  | [] => True
  | op :: ops => (∀ t, .scratch t ∈ op.reads → .scratch t ∈ seen) ∧
      ReadsAssigned (seen ++ assigned [op]) ops

theorem assigned_cons (op : MicroOp) (ops : List MicroOp) :
    assigned (op :: ops) = assigned [op] ++ assigned ops := by
  rw [assigned, ← List.singleton_append, List.filterMap_append, List.map_append]
  rfl

theorem ReadsAssigned.mem_assigned {seen : List Cell} {front back : List MicroOp} {op : MicroOp}
    (h : ReadsAssigned seen (front ++ op :: back)) {t : Nat} (ht : .scratch t ∈ op.reads) :
    .scratch t ∈ seen ++ assigned front := by
  induction front generalizing seen with
  | nil => exact List.mem_append_left _ (h.1 t ht)
  | cons first front ih =>
    have hrest := ih h.2
    rwa [List.append_assoc, ← assigned_cons] at hrest

namespace Instruction

variable (i : Instruction) (site : Site) {n : Nat}

/-! ## What instructions mention -/

/-- The operations of an instruction mention globals and its own locals. -/
theorem mentioned_lowered : ∀ t : Nat, t ∈ mentioned (i.lowered site n) →
    t < 130 ∨ n ≤ t ∧ t < n + i.locals := by
  have hlive (r : Register) : Global.live r < 130 := WritesBelow.live_lt r le_rfl
  have hstaged (r : Register) : Global.staged r < 130 := WritesBelow.staged_lt r le_rfl
  have hpc : Global.pc < 130 := hlive .pc
  have hwritten : Global.pcWritten < 130 := by decide
  cases i with
  | predicatedAdd rd rs rt pu invert dotNew =>
    cases dotNew <;>
      simp [mentioned, lowered, predicateBitOps, MicroOp.output?, MicroOp.inputs, source, locals,
        hlive, hstaged]
  | _ =>
    simp [mentioned, lowered, predicateBitOps, MicroOp.output?, MicroOp.inputs, source, locals,
      hlive, hstaged, hpc, hwritten]

/-- Where the value of a register goes: to its staging word, or for the program counter to the live
word, with the flag of a taken branch. -/
def homes (slot : Fin 64) : List Cell :=
  if slot = Register.pc.slot then [.live slot, .pcWritten] else [.staged slot]

theorem live_mem_homes {q slot : Fin 64} :
    .live q ∈ homes slot ↔ q = slot ∧ slot = Register.pc.slot := by
  unfold homes
  split_ifs with h <;> simp [h]

theorem pcWritten_mem_homes {slot : Fin 64} :
    .pcWritten ∈ homes slot ↔ slot = Register.pc.slot := by
  unfold homes
  split_ifs with h <;> simp [h]

theorem staged_mem_homes {q slot : Fin 64} :
    .staged q ∈ homes slot ↔ q = slot ∧ slot ≠ Register.pc.slot := by
  unfold homes
  split_ifs with h <;> simp [h]

/-- **An instruction writes to the homes of the registers in its footprint**, and to locals. -/
theorem mem_assigned_lowered (hn : 130 ≤ n) {c : Cell} (hc : ∀ t, c ≠ .scratch t) :
    c ∈ assigned (i.lowered site n) ↔
      ∃ slot : Fin 64, i.footprint.writes.hasSlot slot.val = true ∧ c ∈ homes slot := by
  have hlocal (k : Nat) : Cell.of (n + k) = .scratch (n + k) := Cell.of_scratch (by omega)
  cases i with
  | predicatedAdd rd rs rt pu invert dotNew =>
    cases dotNew <;>
      simp [assigned, lowered, predicateBitOps, MicroOp.output?, footprint, Footprint.writes,
        Cell.of_scratch hn, hlocal, Fin.val_inj, hc, homes]
  | loopSetup which rs offset =>
    have hslots := slot_loopRegisters which
    simp_all [assigned, lowered, MicroOp.output?, footprint, Footprint.writes, Fin.val_inj, homes,
      or_and_right, exists_or]
  | call offset =>
    have hlr : Register.lr.slot ≠ Register.pc.slot := by decide
    simp [assigned, lowered, MicroOp.output?, footprint, Footprint.writes, Fin.val_inj, homes,
      or_and_right, exists_or, hlr]
  | _ =>
    simp [assigned, lowered, predicateBitOps, MicroOp.output?, footprint, Footprint.writes,
        Cell.of_scratch hn, hlocal, Fin.val_inj, hc, homes]

theorem staged_mem_reads_lowered (hn : 130 ≤ n) (r : Register)
    (h : .staged r.slot ∈ (i.lowered site n).flatMap MicroOp.reads) :
    i.footprint.read.contains r = true ∨ i.footprint.conditional.contains r = true := by
  have hlocal (k : Nat) : Cell.of (n + k) = .scratch (n + k) := Cell.of_scratch (by omega)
  revert h
  cases i with
  | predicatedAdd rd rs rt pu invert dotNew =>
    cases dotNew <;>
      simp [lowered, predicateBitOps, MicroOp.reads, MicroOp.inputs, source, footprint,
        RegisterSet.contains, Cell.of_scratch hn, hlocal, Fin.val_inj]
  | _ =>
    simp [lowered, predicateBitOps, MicroOp.reads, MicroOp.inputs, source, footprint,
      RegisterSet.contains, Cell.of_scratch hn, hlocal, Fin.val_inj]

theorem readsAssigned_lowered (hn : 130 ≤ n) : ReadsAssigned [] (i.lowered site n) := by
  have hlocal (k : Nat) : Cell.of (n + k) = .scratch (n + k) := Cell.of_scratch (by omega)
  cases i with
  | predicatedAdd rd rs rt pu invert dotNew =>
    cases dotNew <;>
      simp [lowered, predicateBitOps, ReadsAssigned, assigned, MicroOp.output?, MicroOp.reads,
        MicroOp.inputs, source, Cell.of_scratch hn, hlocal]
  | _ =>
    simp [lowered, predicateBitOps, ReadsAssigned, assigned, MicroOp.output?, MicroOp.reads,
      MicroOp.inputs, source, Cell.of_scratch hn, hlocal]

/-- **The footprint of an instruction names what its operations write and read.** -/
theorem names_lowered (hn : 130 ≤ n) : i.footprint.Names (i.lowered site n) where
  staged r := by
    rw [i.mem_assigned_lowered site hn (by simp)]
    simp only [staged_mem_homes]
    constructor
    · rintro ⟨slot, hslot, rfl, hpc⟩
      exact ⟨hslot, hpc⟩
    · rintro ⟨hslot, hpc⟩
      exact ⟨r.slot, hslot, rfl, hpc⟩
  live r hr := by
    obtain ⟨slot, -, hhome⟩ := (i.mem_assigned_lowered site hn (by simp)).mp hr
    obtain ⟨rfl, hpc⟩ := live_mem_homes.mp hhome
    exact hpc
  pc := by
    rw [i.mem_assigned_lowered site hn (by simp)]
    simp only [live_mem_homes]
    constructor
    · rintro ⟨slot, hslot, -, rfl⟩
      exact hslot
    · intro hslot
      exact ⟨Register.pc.slot, hslot, rfl, rfl⟩
  pcWritten := by
    rw [i.mem_assigned_lowered site hn (by simp)]
    simp only [pcWritten_mem_homes]
    constructor
    · rintro ⟨slot, hslot, rfl⟩
      exact hslot
    · intro hslot
      exact ⟨Register.pc.slot, hslot, rfl⟩
  reads := i.staged_mem_reads_lowered site hn
  locals {front back op t} hops ht := by
    have hassigned := i.readsAssigned_lowered site hn
    rw [hops] at hassigned
    exact hassigned.mem_assigned ht

/-! ## What instructions stage -/

variable {layout : Layout} {base : Array Temp} {m : Machine}

/-- **The operations of an instruction act on any machine**, whatever temporaries were declared
behind the globals. -/
theorem guest_run_lowered (hsep : layout.Separate) (hbase : guestTemps layout <+: base.toList)
    (hfits : m.Fits layout (base ++ (List.replicate i.locals Temp.scratch).toArray)) :
    let after := m.run (base ++ (List.replicate i.locals Temp.scratch).toArray)
      (i.lowered site base.size)
    after.cpu.guest after.outcome.traps = i.act site (m.cpu.guest m.outcome.traps) := by
  intro after
  have hbase_le : 130 ≤ base.size := by
    simpa [Layout.length_guestTemps] using hbase.length_le
  have hinner : ∀ op ∈ i.lowered site base.size, op ≠ .exitBlock := by
    rintro op hop rfl
    cases isInner_of_mem_lowered hop
  exact (hfits.run_behind hsep hbase hinner (i.mentioned_lowered site)
    (i.acts_lowered site hbase_le)).1

/-- What is staged for a register, and where a branch goes. -/
theorem words_run_lowered (hsep : layout.Separate) (hbase : guestTemps layout <+: base.toList)
    (hfits : m.Fits layout (base ++ (List.replicate i.locals Temp.scratch).toArray)) :
    let before := (m.cpu.guest []).live
    let after := m.run (base ++ (List.replicate i.locals Temp.scratch).toArray)
      (i.lowered site base.size)
    (∀ r : Register, after.cpu.staged r =
      Result.applyAll (i.results site before (m.cpu.staged .p)) r.slot (m.cpu.staged r)) ∧
    ∀ target, i.target? site before = some target →
      after.cpu.pcWritten = 1 ∧ after.cpu.pc = target := by
  intro before after
  have hguest := i.guest_run_lowered site hsep hbase hfits
  rw [act_eq] at hguest
  constructor
  · intro r
    have hstaged := congrFun (congrArg Guest.staged hguest) r.slot
    simp only [Cpu.guest_staged] at hstaged
    exact hstaged
  · intro target htarget
    have hflag := congrArg Guest.pcWritten hguest
    have hpc := congrFun (congrArg Guest.live hguest) Register.pc.slot
    have htaken : i.target? site (m.cpu.guest m.outcome.traps).live = some target := htarget
    rw [Cpu.guest_live] at hpc
    simp only [htaken, Option.elim_some, Function.update_self] at hflag hpc
    exact ⟨hflag, hpc⟩

variable {i site}

/-- A footprint that always writes something tests no new predicate. -/
theorem isDotNew_of_hasSlot_written {slot : Nat} (h : i.footprint.written.hasSlot slot = true) :
    i.isDotNew = false := by
  cases i with
  | predicatedAdd rd rs rt pu invert dotNew => cases dotNew <;> simp [footprint] at h
  | _ => rfl

/-- New predicates that are tested are in the footprint. -/
theorem contains_p_read_of_isDotNew (h : i.isDotNew = true) :
    i.footprint.read.contains .p = true := by
  cases i with
  | predicatedAdd rd rs rt pu invert dotNew =>
    obtain rfl : dotNew = true := h
    simp [footprint, RegisterSet.contains]
  | _ => cases h

/-- A branch that always writes the program counter is always taken. -/
theorem exists_target?_of_contains_pc (h : i.footprint.written.contains .pc = true)
    (before : RegisterFile) : ∃ target, i.target? site before = some target := by
  have hgeneral (n : Byte) : Register.pc.slot ≠ (Register.general n).slot :=
    (Register.slot_general_ne_pc n).symm
  cases i with
  | jump offset => exact ⟨_, rfl⟩
  | call offset => exact ⟨_, rfl⟩
  | jumpRegister rs => exact ⟨_, rfl⟩
  | predicatedAdd rd rs rt pu invert dotNew =>
    cases dotNew <;> simp [footprint, RegisterSet.contains] at h
  | loopSetup which rs offset =>
    obtain ⟨hstart, hcount⟩ := slot_loopRegisters which
    simp only [footprint, RegisterSet.contains, Footprint.written_withWrite, Footprint.written_none,
      RegisterSet.hasSlot_insert, RegisterSet.hasSlot_empty, Bool.false_or, Bool.or_eq_true,
      decide_eq_true_eq, Fin.val_inj] at h
    rcases h with h | h
    · exact absurd (by simp [h]) hstart
    · exact absurd (by simp [h]) hcount
  | _ => simp [footprint, RegisterSet.contains, Fin.val_inj, hgeneral] at h

variable (i site)

/-- **What an instruction stages depends on nothing but what its footprint has.** -/
theorem determines_lowered (hsep : layout.Separate) (hbase : guestTemps layout <+: base.toList) :
    i.footprint.Determines layout (base ++ (List.replicate i.locals Temp.scratch).toArray)
      (i.lowered site base.size) := by
  have hbefore {cpu cpu' : Cpu} (h : cpu.SameLive cpu') (slot : Fin 64)
      (hslot : slot ≠ Register.pc.slot) : (cpu.guest []).live slot = (cpu'.guest []).live slot :=
    h (.ofSlot slot) (by rwa [Register.slot_ofSlot])
  refine ⟨?_, ?_, ?_, ?_⟩
  · intro m m' hm hm' hlive r hr hpc
    rw [(i.words_run_lowered site hsep hbase hm).1 r, (i.words_run_lowered site hsep hbase hm').1 r,
      results_congr (hbefore hlive),
      results_of_not_isDotNew (isDotNew_of_hasSlot_written hr) (m'.cpu.staged .p)]
    obtain ⟨result, hmem, hslot, hconst⟩ := exists_result_of_hasSlot_written hr hpc
    exact Result.applyAll_congr hmem hslot hconst _ _
  · intro m m' hm hm' hlive r hr hstaged
    have hpredicates : i.results site (m'.cpu.guest []).live (m.cpu.staged .p) =
        i.results site (m'.cpu.guest []).live (m'.cpu.staged .p) := by
      cases hnew : i.isDotNew with
      | true => rw [hstaged .p (.inl (contains_p_read_of_isDotNew hnew))]
      | false => exact results_of_not_isDotNew hnew _
    rw [(i.words_run_lowered site hsep hbase hm).1 r, (i.words_run_lowered site hsep hbase hm').1 r,
      results_congr (hbefore hlive), hpredicates, hstaged r (.inr rfl)]
  · intro m hm hr
    obtain ⟨target, htarget⟩ := exists_target?_of_contains_pc hr _
    exact ((i.words_run_lowered site hsep hbase hm).2 target htarget).1
  · intro m m' hm hm' hlive hr
    obtain ⟨target, htarget⟩ := exists_target?_of_contains_pc hr _
    have htarget' := (target?_congr (hbefore hlive) i site).symm.trans htarget
    rw [((i.words_run_lowered site hsep hbase hm).2 target htarget).2,
      ((i.words_run_lowered site hsep hbase hm').2 target htarget').2]

/-! ## What is reported -/

/-- **The footprint that an instruction reports tells what it appends**, for every instruction at
any place, behind any listing that begins with the globals of a layout. It names exactly what the
operations write, and all that they read of what is staged. If the layout keeps the words of the
guest apart, then what is staged for a register that is always written, other than the program
counter, does not depend on any staging word, and what is staged under a predicate depends on the
register's own word and those that are read alone. -/
theorem footprint_describes_execute (i : Instruction) (site : Site) (l : Listing) (unknowns : Nat)
    (layout : Layout) (hglobals : guestTemps layout <+: l.temps.toList) :
    let done := i.execute site l unknowns
    ∃ ops k, done.listing = l.extend ops (List.replicate k .scratch) ∧ done.footprint.Names ops ∧
      (layout.Separate → done.footprint.Determines layout done.listing.temps ops) := by
  intro done
  have hlisting : done.listing = _ := i.listing_execute site l unknowns
  have hfootprint : done.footprint = _ := i.footprint_execute site l unknowns
  have hcount : 130 ≤ l.tempCount := by
    simpa [Layout.length_guestTemps, Listing.tempCount] using hglobals.length_le
  rw [hfootprint]
  refine ⟨_, _, hlisting, i.names_lowered site hcount, ?_⟩
  intro hsep
  rw [hlisting, Listing.temps_extend]
  exact i.determines_lowered site hsep hglobals

theorem footprint_describes_execute_call :
    guestTemps .packed <+: (Listing.forGuest .packed).temps.toList ∧ Layout.packed.Separate ∧
    let done := (Instruction.call 4).execute (.alone 0 0) (.forGuest .packed) 0
    ∃ ops k, done.listing = (Listing.forGuest .packed).extend ops (List.replicate k .scratch) ∧
      done.footprint.Names ops ∧ done.footprint.Determines .packed done.listing.temps ops := by
  have hglobals : guestTemps .packed <+: (Listing.forGuest .packed).temps.toList :=
    ⟨[], List.append_nil _⟩
  refine ⟨hglobals, Layout.separate_packed, ?_⟩
  obtain ⟨ops, k, hlisting, hnames, hdetermines⟩ :=
    footprint_describes_execute (.call 4) (.alone 0 0) (.forGuest .packed) 0 .packed hglobals
  exact ⟨ops, k, hlisting, hnames, hdetermines Layout.separate_packed⟩

/-- **The program counter is the exception**: a jump always writes it, and what was staged for it
stays. -/
theorem staged_pc_run_jump :
    let done := (Instruction.jump 0).execute (.alone 0 0) (.forGuest .packed) 0
    let cpu := Cpu.zeroed .packed
    let cpu' := cpu.setStaged .pc 7
    done.footprint.written.contains .pc = true ∧
      (∀ slot, cpu.register (.ofSlot slot) = cpu'.register (.ofSlot slot)) ∧
      (done.listing.run cpu).2.staged .pc = 0 ∧ (done.listing.run cpu').2.staged .pc = 7 := by
  decide +kernel

end Instruction

end PacketLift
