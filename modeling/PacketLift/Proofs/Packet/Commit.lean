import PacketLift.Proofs.Packet.Resolution

/-!
# Packets take effect at once

While the instructions of a packet run, the live registers stay as they are, and what is written is
staged. Closing the packet makes all staged values live before the first staging word is cleared,
and it puts the priming in front of the instructions although it is emitted last. So behind the
packet each register that was written has the value that was staged for it last, and nothing else
has changed but the counts of hardware loops. This holds whatever the instructions are, as long as
their operations keep to staging words, to locals and to the words of a branch.

## Main definitions

* `Roster.Pushed`: rosters that records were pushed onto
* `MicroOp.Stages`: operations that keep to staging words, locals and the words of a branch
* `Cpu.prime`: a state with live values in staging words
* `Roster.Commits`: what a closed packet leaves

## Main results

* `Roster.Pushed.hasSlot_writes`: what is written under a predicate is written
* `Guest.live_epilogue`, `Guest.staged_epilogue`: the epilogue, by registers
* `closePacket_commits`: closing a packet makes it take effect at once
-/

namespace PacketLift

/-! ## Rosters and operations -/

/-- **Rosters that records were pushed onto**, one after the other. -/
inductive Roster.Pushed : Roster → Prop where
  | empty : Pushed .empty
  | push {r : Roster} (record : Record) (packetPc : Word) :
      Pushed r → Pushed (r.push record packetPc).2

/-- A register that is written under a predicate counts as written. -/
theorem Roster.Pushed.hasSlot_writes {r : Roster} (h : r.Pushed) {slot : Nat}
    (hslot : r.conditional.hasSlot slot = true) : r.writes.hasSlot slot = true := by
  induction h with
  | empty => simp [Roster.empty] at hslot
  | @push r record packetPc _ ih =>
    rcases Nat.lt_or_ge r.size Roster.capacity with hroom | hfull
    · rw [Roster.push_of_lt record packetPc hroom] at hslot ⊢
      simp only [Roster.add, RegisterSet.hasSlot_union, Bool.or_eq_true] at hslot ⊢
      rcases hslot with hslot | hslot
      · exact .inl (ih hslot)
      · exact .inr (by simp [Footprint.writes, hslot])
    · rw [Roster.push_of_le record packetPc hfull] at hslot ⊢
      exact ih hslot

/-- What is primed is written, so it is committed too. -/
theorem Roster.Pushed.contains_primed {r : Roster} (h : r.Pushed) {q : Register}
    (hq : r.writes.contains q = false) : (r.conditional.erase .pc).contains q = false := by
  cases hcond : r.conditional.hasSlot q.slot.val with
  | false => simp [RegisterSet.contains, hcond]
  | true =>
    rw [RegisterSet.contains, h.hasSlot_writes hcond] at hq
    cases hq

/-- **An operation that keeps to staging**: it does not leave the block, and it writes at most a
local, a staging word, the program counter, the flag of a taken branch or the traced address. -/
structure MicroOp.Stages (temps : Array Temp) (op : MicroOp) : Prop where
  inner : op ≠ .exitBlock
  output {t : TempId} : t ∈ op.output? → temps[t]? = some .scratch ∨
    (∃ r, t = Global.staged r) ∨ t = Global.pc ∨ t = Global.pcWritten ∨ t = Global.pcTrace

namespace MicroOp.Stages

variable {layout : Layout} {temps : Array Temp} {op : MicroOp}

theorem append (h : op.Stages temps) (ts : Array Temp) : op.Stages (temps ++ ts) where
  inner := h.inner
  output {t} ht := by
    refine (h.output ht).imp_left fun hlocal => ?_
    rwa [Array.getElem?_append_left (Array.getElem?_eq_some_iff.mp hlocal).1]

/-- What such an operation writes, by cells: no live word but the program counter. -/
theorem cell (h : op.Stages temps) (hglobals : guestTemps layout <+: temps.toList) {t : TempId}
    (ht : t ∈ op.output?) :
    (130 ≤ t ∧ temps[t]? = some .scratch) ∨ (∃ r, t = Global.staged r) ∨
      t = Global.pc ∨ t = Global.pcWritten ∨ t = Global.pcTrace := by
  refine (h.output ht).imp_left fun hlocal => ⟨?_, hlocal⟩
  by_contra hlt
  obtain ⟨o, ho⟩ := layout.exists_offset (Nat.lt_of_not_le hlt)
  obtain ⟨name, hglobal⟩ := Layout.exists_global hglobals ho
  rw [hlocal] at hglobal
  cases hglobal

end MicroOp.Stages

/-! ### Runs that stage -/

section Stages

variable {layout : Layout} {temps : Array Temp} {ops : List MicroOp} {m : Machine}
  (hglobals : guestTemps layout <+: temps.toList) (hops : ∀ op ∈ ops, op.Stages temps)
include hglobals hops

theorem Machine.words_run_of_stages {i : Nat}
    (hi : ∀ op ∈ ops, ∀ t ∈ op.output?, layout.word? (.of t) ≠ some i) :
    (m.run temps ops).cpu.words[i]? = m.cpu.words[i]? := by
  refine words_run_of_outputs hglobals (fun op hop t ht => ?_) hi
  rcases (hops op hop).cell hglobals ht with ⟨-, hlocal⟩ | ⟨r, rfl⟩ | rfl | rfl | rfl
  · exact .inl hlocal
  · exact .inr (WritesBelow.staged_lt r le_rfl)
  · exact .inr (WritesBelow.pc_lt le_rfl)
  · exact .inr (WritesBelow.pcWritten_lt le_rfl)
  · exact .inr (WritesBelow.pcTrace_lt le_rfl)

/-- The words that lifted code does not know stay. -/
theorem Machine.Fits.sameElsewhere_of_stages (hm : m.Fits layout temps) :
    m.cpu.SameElsewhere (m.run temps ops).cpu where
  layout := (hm.run ops).cpu.layout.trans hm.cpu.layout.symm
  size := (hm.run ops).cpu.size.trans hm.cpu.size.symm
  words hi := words_run_of_stages hglobals hops fun _ _ _ _ => hm.cpu.layout ▸ hi _

/-- A word of the guest stays if no operation writes its cell. -/
theorem Machine.load_run_of_stages (hsep : layout.Separate) {c : Cell} {o : Nat}
    (ho : layout.offset? c = some o) (hc : ∀ op ∈ ops, ∀ t ∈ op.output?, Cell.of t ≠ c) :
    (m.run temps ops).cpu.load o = m.cpu.load o := by
  have hword : layout.word? c = some (o / 4) := by rw [Layout.word?, ho, Option.map_some]
  have hwords : (m.run temps ops).cpu.words[o / 4]? = m.cpu.words[o / 4]? :=
    words_run_of_stages hglobals hops fun op hop t ht heq =>
      hc op hop t ht (hsep.distinct heq hword)
  rw [Cpu.load, Cpu.load, Array.getD_eq_getD_getElem?, Array.getD_eq_getD_getElem?, hwords]

/-- **Live registers stay** while a packet's operations run, the program counter apart. -/
theorem Machine.Fits.register_run_of_stages (hm : m.Fits layout temps) (hsep : layout.Separate)
    {r : Register} (hr : r.slot ≠ Register.pc.slot) :
    (m.run temps ops).cpu.register r = m.cpu.register r := by
  rw [Cpu.register, Cpu.register, (hm.run ops).cpu.layout, hm.cpu.layout]
  refine load_run_of_stages hglobals hops hsep (layout.offset?_live r) fun op hop t ht => ?_
  rw [Cell.of_live]
  rcases (hops op hop).cell hglobals ht with ⟨hle, -⟩ | ⟨q, rfl⟩ | rfl | rfl | rfl
  · rw [Cell.of_scratch hle]
    exact Cell.noConfusion
  · rw [Cell.of_staged]
    exact Cell.noConfusion
  · intro heq
    exact hr (Cell.live.inj ((Cell.of_live .pc).symm.trans heq)).symm
  · exact Cell.noConfusion
  · exact Cell.noConfusion

/-- A staging word stays if no operation writes it. -/
theorem Machine.Fits.staged_run_of_stages (hm : m.Fits layout temps) (hsep : layout.Separate)
    {r : Register} (hr : ∀ op ∈ ops, op.output? ≠ some (Global.staged r)) :
    (m.run temps ops).cpu.staged r = m.cpu.staged r := by
  rw [Cpu.staged, Cpu.staged, (hm.run ops).cpu.layout, hm.cpu.layout]
  refine load_run_of_stages hglobals hops hsep (layout.offset?_staged r) fun op hop t ht => ?_
  rw [Cell.of_staged]
  rcases (hops op hop).cell hglobals ht with ⟨hle, -⟩ | ⟨q, rfl⟩ | rfl | rfl | rfl
  · rw [Cell.of_scratch hle]
    exact Cell.noConfusion
  · intro heq
    rw [Cell.of_staged] at heq
    refine hr op hop (ht.trans (congrArg some ?_))
    rw [Global.staged, Global.staged, Cell.staged.inj heq]
  · exact fun heq => Cell.noConfusion ((Cell.of_live .pc).symm.trans heq)
  · exact Cell.noConfusion
  · exact Cell.noConfusion

end Stages

/-- The state with the live values of some registers in their staging words. -/
def Cpu.prime (cpu : Cpu) (primed : RegisterSet) : Cpu :=
  primed.toList.foldl (fun cpu r => cpu.setStaged r (cpu.register r)) cpu

/-! ## The counts of loops -/

/-- What is taken off a register when the loops end, by the counts: one if it is the count of the
loop that jumps back. -/
def countdown (loopEnd : Option LoopEnd) (lc0 lc1 : Word) (slot : Fin 64) : Word :=
  if slot = Register.lc0.slot ∧ (∃ kind ∈ loopEnd, kind.again0 lc0) then 1
  else if slot = Register.lc1.slot ∧ (∃ kind ∈ loopEnd, kind.again1 lc0 lc1) then 1
  else 0

namespace Guest

variable (g : Guest) {slot : Fin 64}

/-- The end of loops counts down the loop that jumps back, and changes no other register but the
program counter. -/
theorem live_endLoops (kind : LoopEnd) (hslot : slot ≠ Register.pc.slot) :
    (g.endLoops kind).live slot = g.live slot -
      countdown (some kind) (g.live Register.lc0.slot) (g.live Register.lc1.slot) slot := by
  have hlc : Register.lc1.slot ≠ Register.lc0.slot := by decide
  have hagain := kind.again?_eq g.live
  rw [endLoops_eq, hagain]
  by_cases h0 : kind.again0 (g.live Register.lc0.slot)
  · have h1 : ¬kind.again1 (g.live Register.lc0.slot) (g.live Register.lc1.slot) :=
      fun h => h.2.2 h0
    by_cases hcount : slot = Register.lc0.slot
    · simp [countdown, jumpBack, h0, hcount]
    · simp [countdown, jumpBack, h0, h1, hcount, hslot]
  · by_cases h1 : kind.again1 (g.live Register.lc0.slot) (g.live Register.lc1.slot)
    · by_cases hcount : slot = Register.lc1.slot
      · simp [countdown, jumpBack, h0, h1, hcount, hlc]
      · simp [countdown, jumpBack, h0, h1, hcount, hslot]
    · simp [countdown, h0, h1]

variable (committed : RegisterSet) (loopEnd : Option LoopEnd) (changesPc : Bool) (after : Word)

/-- **The registers behind the epilogue**: what the commit leaves, counted down. -/
theorem live_epilogue (hslot : slot ≠ Register.pc.slot) :
    (g.epilogue committed loopEnd changesPc after).live slot = (g.commit committed).live slot -
      countdown loopEnd ((g.commit committed).live Register.lc0.slot)
        ((g.commit committed).live Register.lc1.slot) slot := by
  have hresolve : ∀ g' : Guest,
      (if changesPc then g'.resolvePc after else g').live slot = g'.live slot := by
    intro g'
    cases changesPc with
    | false => rfl
    | true => exact Function.update_of_ne hslot _ _
  rw [epilogue, hresolve]
  cases loopEnd with
  | none => simp [countdown]
  | some kind => exact live_endLoops _ kind hslot

/-- The staging words behind the epilogue are those behind the commit. -/
theorem staged_epilogue : (g.epilogue committed loopEnd changesPc after).staged =
    (g.commit committed).staged := by
  have hloops : (loopEnd.elim (g.commit committed) (g.commit committed).endLoops).staged =
      (g.commit committed).staged := by
    cases loopEnd with
    | none => rfl
    | some kind =>
      rw [Option.elim_some, endLoops_eq]
      cases kind.again? (g.commit committed).live <;> rfl
  cases changesPc <;> exact hloops

end Guest

/-! ## Closing -/

/-- The value of a register that a packet makes live: what was staged for it, if the packet writes
it. -/
def Roster.committed (roster : Roster) (before staged : Cpu) (r : Register) : Word :=
  if roster.writes.contains r then staged.staged r else before.register r

/-- **What a closed packet leaves**, when `before` is the state at its anchor, `staged` the state in
which its records' operations `ops` leave off and `after` the state behind it. The program counter
is left out. -/
structure Roster.Commits (roster : Roster) (loopEnd : Option LoopEnd) (ops : List MicroOp)
    (before staged after : Cpu) : Prop where
  /-- Registers that were written have their staged value and the others the value before; only the
  count of a loop that jumps back is one less. -/
  live {r : Register} : r.slot ≠ Register.pc.slot →
    after.register r = roster.committed before staged r -
      countdown loopEnd (roster.committed before staged .lc0)
        (roster.committed before staged .lc1) r.slot
  cleared {r : Register} : roster.writes.contains r = true → r.slot ≠ Register.pc.slot →
    after.staged r = 0
  /-- A staging word that belongs to no register of the packet, and that no operation writes,
  stays. -/
  spared {r : Register} : roster.writes.contains r = false →
    (∀ op ∈ ops, op.output? ≠ some (Global.staged r)) → after.staged r = before.staged r
  /-- So do the words that lifted code does not know. -/
  elsewhere : before.SameElsewhere after

/-- **Priming on a state**: its operations copy live values to staging words. -/
theorem exists_run_primeOps {layout : Layout} {temps : Array Temp}
    (hglobals : guestTemps layout <+: temps.toList) {m : Machine} (hm : m.cpu.layout = layout)
    (primed : RegisterSet) :
    ∃ o, m.run temps (primeOps primed) = { m with cpu := m.cpu.prime primed, outcome := o } := by
  unfold primeOps Cpu.prime
  generalize primed.toList = rs
  induction rs generalizing m with
  | nil => exact ⟨m.outcome, rfl⟩
  | cons r rs ih =>
    obtain ⟨name, hlive⟩ := Layout.exists_global hglobals (layout.offset?_live r)
    obtain ⟨name', hstaged⟩ := Layout.exists_global hglobals (layout.offset?_staged r)
    have hstep : ∃ o, m.step temps (.copy (Global.staged r) (Global.live r)) =
        { m with cpu := m.cpu.setStaged r (m.cpu.register r), outcome := o } := by
      simp only [Machine.step, Machine.effect, Machine.write, Machine.read, hlive, hstaged, ← hm]
      exact ⟨_, rfl⟩
    obtain ⟨o, hstep⟩ := hstep
    rw [List.map_cons, Machine.run_cons (by simp), hstep]
    exact ih hm

theorem stages_of_mem_primeOps (temps : Array Temp) {primed : RegisterSet} {op : MicroOp}
    (hop : op ∈ primeOps primed) : op.Stages temps := by
  obtain ⟨r, -, rfl⟩ := List.mem_map.mp hop
  refine ⟨by simp, fun ht => .inr (.inl ⟨r, ?_⟩)⟩
  exact (Option.some.inj ht).symm

/-- The priming first, and then other operations. -/
theorem cpu_run_primeOps_append {layout : Layout} {temps : Array Temp}
    (hglobals : guestTemps layout <+: temps.toList) {m : Machine} (hm : m.cpu.layout = layout)
    (primed : RegisterSet) (ops : List MicroOp) :
    (m.run temps (primeOps primed ++ ops)).cpu =
      ({ m with cpu := m.cpu.prime primed }.run temps ops).cpu := by
  obtain ⟨o, hprime⟩ := exists_run_primeOps hglobals hm primed
  obtain ⟨o', hrest⟩ :=
    Machine.exists_run_of_outcome temps { m with cpu := m.cpu.prime primed } o ops
  have hsplit : m.run temps (primeOps primed ++ ops) =
      (m.run temps (primeOps primed)).run temps ops :=
    Machine.run_append fun op hop => (stages_of_mem_primeOps temps hop).inner
  rw [hsplit, hprime]
  exact (congrArg Machine.cpu hrest :)

/-- Priming writes the staging words of the registers that are primed. -/
theorem output_ne_of_mem_primeOps {primed : RegisterSet} {op : MicroOp} (hop : op ∈ primeOps primed)
    {r : Register} (hr : primed.contains r = false) : op.output? ≠ some (Global.staged r) := by
  obtain ⟨q, hq, rfl⟩ := List.mem_map.mp hop
  intro heq
  have hslot : q.slot = r.slot := Fin.ext (Nat.add_left_cancel (Option.some.inj heq))
  have hany : primed.toList.any (·.slot == r.slot) = true :=
    List.any_eq_true.mpr ⟨q, hq, by simp [hslot]⟩
  rw [RegisterSet.any_slot_toList] at hany
  rw [RegisterSet.contains, hany] at hr
  cases hr

/-- The operations of the records in any order are operations of the records. -/
theorem exists_of_mem_ordered {ranges : List (List Entry)} {order : List Nat} {op : MicroOp}
    (hop : op ∈ (order.flatMap (ranges.getD · [])).map Entry.op) :
    ∃ e ∈ ranges.flatten, e.op = op := by
  obtain ⟨e, he, rfl⟩ := List.mem_map.mp hop
  obtain ⟨i, -, hi⟩ := List.mem_flatMap.mp he
  obtain ⟨range, hrange, hmem⟩ := Listing.exists_mem_of_mem_getD hi
  exact ⟨e, List.mem_flatten.mpr ⟨range, hrange, hmem⟩, rfl⟩

/-- **From the guest behind the records to the state behind the packet**, when the records have
changed no live register. -/
theorem Roster.Commits.of_guest {roster : Roster} {loopEnd : Option LoopEnd} {changesPc : Bool}
    {next : Word} {ops : List MicroOp} {before staged after : Cpu} {traps traps' : List Word}
    (hlive : ∀ {r : Register}, r.slot ≠ Register.pc.slot → staged.register r = before.register r)
    (hstaged : ∀ {r : Register}, roster.writes.contains r = false →
      (∀ op ∈ ops, op.output? ≠ some (Global.staged r)) → staged.staged r = before.staged r)
    (hguest : after.guest traps' =
      (staged.guest traps).epilogue (roster.writes.erase .pc) loopEnd changesPc next)
    (helsewhere : before.SameElsewhere after) :
    roster.Commits loopEnd ops before staged after := by
  have herase : ∀ r : Register, r.slot ≠ Register.pc.slot →
      (roster.writes.erase .pc).hasSlot r.slot.val = roster.writes.contains r := by
    intro r hr
    have hne : r.slot.val ≠ Register.pc.slot.val := fun heq => hr (Fin.ext heq)
    simp [RegisterSet.contains, hne]
  have hcommit : ∀ r : Register, r.slot ≠ Register.pc.slot →
      ((staged.guest traps).commit (roster.writes.erase .pc)).live r.slot =
        roster.committed before staged r := by
    intro r hr
    simp only [Guest.commit, Roster.committed, herase r hr, Cpu.guest_staged, Cpu.guest_live,
      hlive hr]
  have hafter : ∀ r : Register, after.staged r =
      ((staged.guest traps).commit (roster.writes.erase .pc)).staged r.slot := by
    intro r
    rw [← Cpu.guest_staged after traps', hguest, Guest.staged_epilogue]
  refine ⟨?_, ?_, ?_, helsewhere⟩
  · intro r hr
    rw [← Cpu.guest_live after traps', hguest, Guest.live_epilogue _ _ _ _ _ hr, hcommit r hr,
      hcommit .lc0 (by decide), hcommit .lc1 (by decide)]
  · intro r hwrites hr
    rw [hafter, Guest.commit]
    exact if_pos ((herase r hr).trans hwrites)
  · intro r hwrites hops
    have hslot : roster.writes.hasSlot r.slot.val = false := hwrites
    rw [hafter, ← hstaged hwrites hops]
    simp only [Guest.commit, RegisterSet.hasSlot_erase, hslot, Bool.false_and, Bool.false_eq_true,
      if_false, Cpu.guest_staged]

/-- **Closing a packet makes it take effect at once**, whatever its instructions are. The records of
a roster have their operations right behind the anchor, in the order in which they were pushed, and
all of these keep to staging. If the packet closes, then from any state at the anchor the listing
runs on to a state in which each register of the packet has the value that its records' operations
stage for it, when they run in the order that was found on a state with the conditional registers
primed. -/
theorem closePacket_commits {layout : Layout} (hsep : layout.Separate) {l : Listing}
    (hglobals : guestTemps layout <+: l.temps.toList) {front : List Entry}
    {ranges : List (List Entry)} (hl : l.Represents (front ++ ranges.flatten)) {roster : Roster}
    (hroster : roster.Pushed) (hrec : List.Forall₂ Record.Holds roster.records ranges)
    (hstages : ∀ e ∈ ranges.flatten, e.op.Stages l.temps) {site : PacketSite}
    (hanchor : site.anchor = (front.map Entry.id).getLastD 0) {closing : Closing} {l' : Listing}
    (hclose : closePacket roster site l = .ok (closing, l')) :
    let ops := (closing.order.flatMap (ranges.getD · [])).map Entry.op
    ∃ behind, l'.ops = front.map Entry.op ++ behind ∧
      ∀ m : Machine, m.Fits layout l'.temps →
        let primed := { m with cpu := m.cpu.prime (roster.conditional.erase .pc) }
        roster.Commits site.loopEnd ops m.cpu (primed.run l'.temps ops).cpu
          (m.run l'.temps behind).cpu := by
  intro ops
  obtain ⟨order, horder⟩ := exists_schedule_of_closePacket hclose
  obtain ⟨prime, epilogue, l'', hclose', hrep, hprime, hepilogue, htemps⟩ :=
    closePacket_represents hl hrec hanchor horder
  rw [hclose] at hclose'
  cases hclose'
  let primeOperations := primeOps (roster.conditional.erase .pc)
  refine ⟨primeOperations ++ ops ++ epilogue.map Entry.op, ?_, ?_⟩
  · rw [hrep.ops_eq]
    simp [ops, primeOperations, Roster.closing, ← hprime]
  intro m hm primed
  have hglobals' : guestTemps layout <+: l'.temps.toList := by
    rw [htemps, Array.toList_append]
    exact hglobals.trans (List.prefix_append _ _)
  have hfirst : ∀ op ∈ primeOperations ++ ops, op.Stages l'.temps := by
    refine List.forall_mem_append.mpr ⟨fun _ => stages_of_mem_primeOps _, fun op hop => ?_⟩
    obtain ⟨e, he, rfl⟩ := exists_of_mem_ordered hop
    rw [htemps]
    exact (hstages e he).append _
  let m' := m.run l'.temps (primeOperations ++ ops)
  have hcpu : m'.cpu = (primed.run l'.temps ops).cpu :=
    cpu_run_primeOps_append hglobals' hm.cpu.layout _ ops
  have hsplit : m.run l'.temps (primeOperations ++ ops ++ epilogue.map Entry.op) =
      m'.run l'.temps (epilogue.map Entry.op) :=
    Machine.run_append fun op hop => (hfirst op hop).inner
  have hm' : m'.Fits layout l'.temps := hm.run _
  rw [htemps] at hm'
  obtain ⟨hguest, hsame⟩ :=
    hm'.run_epilogueOps hsep hglobals (roster.writes.erase .pc) site.lastPc
  rw [← htemps, show l.temps.size = l.tempCount from rfl, ← hepilogue] at hguest hsame
  rw [hsplit, ← hcpu]
  refine .of_guest (fun hr => hm.register_run_of_stages hglobals' hfirst hsep hr)
    (fun {r} hwrites hnone => ?_) hguest
    ((hm.sameElsewhere_of_stages hglobals' hfirst).trans hsame)
  refine hm.staged_run_of_stages hglobals' hfirst hsep ?_
  have hprimed := hroster.contains_primed hwrites
  exact List.forall_mem_append.mpr ⟨fun op hop => output_ne_of_mem_primeOps hop hprimed, hnone⟩

/-- A register that is always written, and the count of loop 0 under a predicate. -/
def countedRoster : Roster :=
  (Roster.empty.add ⟨0, Footprint.none.withWrite (.general 1), some ⟨1, 1⟩⟩).add
    ⟨4, Footprint.none.withConditional .lc0, some ⟨2, 2⟩⟩

/-- A packet that stages 7 for a register and 3 for the count of the loop that it ends: the count is
made live and then counted down. -/
theorem closePacket_commits_counted :
    let ops : List MicroOp := [.set (Global.staged (.general 1)) 7, .set (Global.staged .lc0) 3]
    ∃ closing l', closePacket countedRoster ⟨0, 4, 0, some .loop0⟩
        ((Listing.forGuest .packed).extend ops []) = .ok (closing, l') ∧ closing.order = [0, 1] ∧
      (l'.run (.zeroed .packed)).2.register (.general 1) = 7 ∧
      (l'.run (.zeroed .packed)).2.register .lc0 = 2 ∧
      ∃ behind, l'.ops = behind ∧ ∀ m : Machine, m.Fits .packed l'.temps → ∃ staged,
        countedRoster.Commits (some .loop0) ops m.cpu staged (m.run l'.temps behind).cpu := by
  intro ops
  let l := (Listing.forGuest .packed).extend ops []
  let ranges : List (List Entry) :=
    [[⟨1, .set (Global.staged (.general 1)) 7⟩], [⟨2, .set (Global.staged .lc0) 3⟩]]
  have hvalues : (closePacket countedRoster ⟨0, 4, 0, some .loop0⟩ l).toOption.map (fun c =>
      (c.1.order, (c.2.run (.zeroed .packed)).2.register (.general 1),
        (c.2.run (.zeroed .packed)).2.register .lc0)) = some ([0, 1], 7, 2) := by
    decide +kernel
  obtain ⟨⟨closing, l'⟩, hclose, hvalues⟩ := Option.map_eq_some_iff.mp hvalues
  obtain ⟨horder, hregister, hcount⟩ : closing.order = [0, 1] ∧
      (l'.run (.zeroed .packed)).2.register (.general 1) = 7 ∧
      (l'.run (.zeroed .packed)).2.register .lc0 = 2 := by
    simpa using hvalues
  have hclosed : closePacket countedRoster ⟨0, 4, 0, some .loop0⟩ l = .ok (closing, l') := by
    cases hresult : closePacket countedRoster ⟨0, 4, 0, some .loop0⟩ l with
    | error fault =>
      rw [hresult] at hclose
      cases hclose
    | ok result =>
      rw [hresult] at hclose
      exact congrArg Except.ok (Option.some.inj hclose)
  have hroster : countedRoster.Pushed := .push _ 0 (.push _ 0 .empty)
  have hrec : List.Forall₂ Record.Holds countedRoster.records ranges :=
    .cons ⟨rfl, rfl⟩ (.cons ⟨rfl, rfl⟩ .nil)
  have hl : l.Represents ([] ++ ranges.flatten) := (represents_forGuest .packed).extend ops []
  have hstages : ∀ e ∈ ranges.flatten, e.op.Stages l.temps := by
    have hset : ∀ r x, (MicroOp.set (Global.staged r) x).Stages l.temps := fun r x =>
      ⟨by simp, fun ht => .inr (.inl ⟨r, (Option.some.inj ht).symm⟩)⟩
    simp [ranges, hset]
  have hglobals : guestTemps .packed <+: l.temps.toList := by
    rw [Listing.temps_extend]
    exact ⟨[], by simp [Listing.forGuest]⟩
  obtain ⟨behind, hbehind, hcommits⟩ := closePacket_commits Layout.separate_packed hglobals hl
    hroster hrec hstages rfl hclosed
  rw [horder] at hcommits
  exact ⟨closing, l', hclosed, horder, hregister, hcount, behind, hbehind,
    fun m hm => ⟨_, hcommits m hm⟩⟩

end PacketLift
