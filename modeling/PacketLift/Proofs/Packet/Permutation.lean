import Mathlib.Algebra.GroupWithZero.Nat
import PacketLift.Proofs.Block.Layout
import PacketLift.Proofs.Instruction.Commutation
import PacketLift.Proofs.Packet.Effect

/-!
# The order of a packet's instructions

The instructions of a packet can be given in any order. Each of them is executed behind the ones
before it and entered into the roster, and closing the packet moves their operations, so another
order gives another listing, with other locals, other ranges and other moves. But the listings act
on the guest alike: priming and commit depend on the registers that are written, the instructions
run in an arranged order, and in that order compatible instructions commute.

## Main definitions

* `Task`, `Issue`: an instruction with its extender, and where it was read
* `issueAll`, `issuePacket`: a packet of given instructions, executed, entered and closed
* `tasksAct`: what a packet of given instructions does to the guest

## Main results

* `exists_issueAll`: what issuing instructions leaves
* `exists_acts_of_issuePacket`: the operations of a packet of given instructions
* `issuePacket_run_eq_of_perm`: the order of the instructions does not show in a run
-/

namespace PacketLift

/-- An instruction, with what an extender in front of it supplies. -/
structure Task where
  instruction : Instruction
  extender : Option Word
  deriving DecidableEq, Repr

/-- An instruction with its extender, and the bits and the address at which it was read. -/
structure Issue extends Task where
  word : Word
  pc : Word
  deriving DecidableEq, Repr

/-- Execute instructions one after the other and enter them into the roster. -/
def issueAll (b : Build) : List Issue → Lift Nat Build
  | [] => return b
  | x :: rest => do
    let b ← liftInstruction scalarCore x.instruction x.word x.pc x.extender false b
    issueAll b rest

/-- **A packet of given instructions**, behind a listing: they are executed in order, entered into
an empty roster, and the packet is closed. -/
def issuePacket (site : PacketSite) (nextPc : Word) (l : Listing) (xs : List Issue) :
    Lift Nat Listing := do
  let draft := ({} : Draft).begin site.packetPc nextPc site.anchor
  let b ← issueAll { listing := l, draft } xs
  let (_, listing) ← closePacket b.draft.roster site b.listing
  return listing

/-! ## Acting on the guest -/

/-- The part of a site that the scalar core looks at. -/
def Task.site (packetPc nextPc : Word) (t : Task) : Site :=
  { word := 0, pc := 0, packetPc, nextPc, extender := t.extender }

/-- What an instruction emits depends on its extender and its packet alone, not on its own bits and
address. -/
theorem Instruction.lowered_eq_task (i : Instruction) (site : Site) (n : TempId) :
    i.lowered site n = i.lowered (Task.site site.packetPc site.nextPc ⟨i, site.extender⟩) n := by
  cases i <;> rfl

/-- The registers in given sets of the footprints of tasks. -/
abbrev taskRegisters (ts : List Task) (set : Footprint → RegisterSet) : RegisterSet :=
  registersOf Task.instruction ts set

/-- Whether a packet of tasks may change the program counter. -/
def tasksChangePc (loopEnd : Option LoopEnd) (ts : List Task) : Bool :=
  (taskRegisters ts Footprint.writes).contains .pc || loopEnd.isSome

/-- **What a packet of given instructions does to the guest.** -/
def tasksAct (site : PacketSite) (nextPc : Word) (ts : List Task) (g : Guest) : Guest :=
  ((arrange Task.instruction ts).foldl
      (fun g t => t.instruction.act (t.site site.packetPc nextPc) g)
      (g.prime ((taskRegisters ts Footprint.conditional).erase .pc))).epilogue
    ((taskRegisters ts Footprint.writes).erase .pc) site.loopEnd (tasksChangePc site.loopEnd ts)
    (site.lastPc + 4)

/-- How many locals a packet of given instructions takes. -/
def tasksLocals (loopEnd : Option LoopEnd) (ts : List Task) : Nat :=
  (ts.map (·.instruction.locals)).sum + epilogueLocals loopEnd (tasksChangePc loopEnd ts)

section Perm

variable {ts us : List Task} (hperm : ts.Perm us)

include hperm

theorem tasksChangePc_eq_of_perm (loopEnd : Option LoopEnd) :
    tasksChangePc loopEnd ts = tasksChangePc loopEnd us := by
  rw [tasksChangePc, taskRegisters, registersOf_eq_of_perm hperm]
  rfl

theorem tasksLocals_eq_of_perm (loopEnd : Option LoopEnd) :
    tasksLocals loopEnd ts = tasksLocals loopEnd us := by
  rw [tasksLocals, tasksLocals, tasksChangePc_eq_of_perm hperm, (hperm.map _).sum_nat]

/-- **What a packet does to the guest does not depend on the order of its instructions.** -/
theorem tasksAct_eq_of_perm (site : PacketSite) (nextPc : Word)
    (hcompat : ts.Pairwise fun t u => t.instruction.Compatible u.instruction) (g : Guest) :
    tasksAct site nextPc ts g = tasksAct site nextPc us g := by
  have hrun := foldl_act_arrange_eq_of_perm (Task.site site.packetPc nextPc) hperm hcompat
  simp only [tasksAct, taskRegisters, registersOf_eq_of_perm hperm, tasksChangePc_eq_of_perm hperm,
    hrun]

end Perm

/-! ## Issuing -/

/-- **Instructions have been issued**: the progress `q` has a range for each of them behind what `p`
had, and its roster has their registers. -/
structure Issued (packetPc nextPc : Word) (p : Progress) (ts : List Task) (q : Progress)
    (ranges : List (List Entry)) : Prop where
  ranges : List.Forall₂ (fun t range => ∃ n, 130 ≤ n ∧
    n + t.instruction.locals ≤ q.listing.tempCount ∧
    range.map Entry.op = t.instruction.lowered (t.site packetPc nextPc) n) ts ranges
  temps : q.listing.temps = p.listing.temps
    ++ (List.replicate (ts.map (·.instruction.locals)).sum Temp.scratch).toArray
  footprints : q.roster.records.map Record.footprint =
    p.roster.records.map Record.footprint ++ ts.map (·.instruction.footprint)
  writes : q.roster.writes =
    unionOver Footprint.writes p.roster.writes (ts.map (·.instruction.footprint))
  conditional : q.roster.conditional =
    unionOver Footprint.conditional p.roster.conditional (ts.map (·.instruction.footprint))

namespace Issued

variable {packetPc nextPc : Word} {p q : Progress} {ts : List Task} {ranges : List (List Entry)}

theorem nil (packetPc nextPc : Word) (p : Progress) : Issued packetPc nextPc p [] p [] :=
  ⟨.nil, by simp, by simp, rfl, rfl⟩

/-- One instruction in front of those that have been issued. -/
theorem cons {i : Instruction} (site : Site) {s : Nat} (htemps : 130 ≤ p.listing.tempCount)
    (h : Issued site.packetPc site.nextPc (p.lift scalarCore i site false s) ts q ranges) :
    Issued site.packetPc site.nextPc p (⟨i, site.extender⟩ :: ts) q
      (Listing.numbered p.listing.nodes.size (i.lowered site p.listing.tempCount) :: ranges) := by
  have hlisting : (p.lift scalarCore i site false s).listing = _ :=
    i.listing_execute site p.listing s
  have hfoot : (i.execute site p.listing s).footprint = i.footprint := i.footprint_execute site _ s
  have hroster : (p.lift scalarCore i site false s).roster = p.roster.add
      ⟨site.pc, (i.execute site p.listing s).footprint,
        (i.execute site p.listing s).listing.spanSince p.listing.lastId⟩ := rfl
  rw [hfoot] at hroster
  let locals := i.locals + (ts.map (·.instruction.locals)).sum
  have hwords : q.listing.temps =
      p.listing.temps ++ (List.replicate locals Temp.scratch).toArray := by
    rw [h.temps, hlisting, Listing.temps_extend, Array.append_assoc, List.replicate_add]
    simp
  refine ⟨.cons ⟨p.listing.tempCount, htemps, ?_, ?_⟩ h.ranges, hwords, ?_, ?_, ?_⟩
  · rw [Listing.tempCount, Listing.tempCount, hwords]
    simp [locals]
  · rw [Listing.map_op_numbered]
    exact i.lowered_eq_task site _
  · rw [h.footprints, hroster]
    simp [Roster.add]
  · rw [h.writes, hroster]
    rfl
  · rw [h.conditional, hroster]
    rfl

end Issued

/-- **Issuing instructions succeeds** if the roster has room. -/
theorem exists_issueAll (xs : List Issue) {b : Build} {front : List Entry}
    {ranges : List (List Entry)} (hroom : b.draft.roster.size + xs.length ≤ Roster.capacity)
    (htemps : 130 ≤ b.listing.tempCount) (hcovers : b.progress.Covers front ranges)
    (s : Session Nat) :
    ∃ b' s' new, (issueAll b xs).Gives s b' s' ∧ b'.progress.Covers front (ranges ++ new) ∧
      Issued b.draft.packetPc b.draft.nextPc b.progress (xs.map Issue.toTask) b'.progress new := by
  -- on the instructions: each one adds its range, and the next begins behind it
  induction xs generalizing b ranges s with
  | nil => exact ⟨b, s, [], Lift.gives_pure.mpr ⟨rfl, rfl⟩, by simpa using hcovers, .nil _ _ _⟩
  | cons x xs ih =>
    rw [List.length_cons] at hroom
    let site : Site :=
      { word := x.word, pc := x.pc, packetPc := b.draft.packetPc, nextPc := b.draft.nextPc
        extender := x.extender, predicatesWritten := b.draft.roster.predicatesWritten }
    let p := b.progress.lift scalarCore x.instruction site false s.state
    obtain ⟨t, hlift⟩ : ∃ t, (liftInstruction scalarCore x.instruction x.word x.pc x.extender false
        b).Gives s (b.withProgress p) t :=
      exists_gives_liftInstruction.mpr ⟨by omega, rfl⟩
    have hlisting : p.listing = _ := x.instruction.listing_execute site b.listing s.state
    have hsize : (b.withProgress p).draft.roster.size = b.draft.roster.size + 1 :=
      Roster.size_add _ _
    have hcount : (b.withProgress p).listing.tempCount =
        b.listing.tempCount + x.instruction.locals := by
      rw [show (b.withProgress p).listing = p.listing from rfl, hlisting]
      simp
    obtain ⟨b', s', new, hrest, hend, hissued⟩ := ih (b := b.withProgress p) (by omega) (by omega)
      (hcovers.lift_of_extend hlisting) t
    refine ⟨b', s', _ :: new, Lift.gives_bind.mpr ⟨_, t, hlift, hrest⟩, ?_,
      .cons site htemps hissued⟩
    rwa [List.append_assoc] at hend

/-! ## Ranges in order -/

/-- The range at a place belongs to the task there, and a place without a task has none. -/
theorem getD_of_forall₂ {α β : Type} {R : α → List β → Prop} {xs : List α} {ranges : List (List β)}
    (h : List.Forall₂ R xs ranges) (i : Nat) :
    (xs[i]? = none ∧ ranges.getD i [] = []) ∨
      ∃ x, xs[i]? = some x ∧ R x (ranges.getD i []) := by
  induction h generalizing i with
  | nil => exact .inl ⟨rfl, rfl⟩
  | cons hx _ ih =>
    cases i with
    | zero => exact .inr ⟨_, rfl, hx⟩
    | succ i => simpa using ih i

namespace Issued

variable {packetPc nextPc : Word} {p q : Progress} {ts : List Task} {ranges : List (List Entry)}

/-- The ranges in any order act as the instructions in that order. -/
theorem acts_ordered (h : Issued packetPc nextPc p ts q ranges) (order : List Nat) :
    Acts ((order.flatMap (ranges.getD · [])).map Entry.op) fun g =>
      (order.filterMap (ts[·]?)).foldl
        (fun g t => t.instruction.act (t.site packetPc nextPc) g) g := by
  rw [List.map_flatMap]
  refine Acts.filterMap fun i _ => ?_
  rcases getD_of_forall₂ h.ranges i with ⟨hnone, hrange⟩ | ⟨t, ht, n, hn, -, hrange⟩
  · rw [hnone, hrange]
    exact Acts.nil
  · rw [ht, hrange]
    exact Instruction.acts_lowered _ _ hn

theorem exists_of_mem_ordered (h : Issued packetPc nextPc p ts q ranges) {order : List Nat}
    {op : MicroOp} (hop : op ∈ (order.flatMap (ranges.getD · [])).map Entry.op) :
    ∃ (t : Task) (n : TempId), 130 ≤ n ∧ n + t.instruction.locals ≤ q.listing.tempCount ∧
      op ∈ t.instruction.lowered (Task.site packetPc nextPc t) n := by
  rw [List.map_flatMap] at hop
  obtain ⟨i, -, hop⟩ := List.mem_flatMap.mp hop
  rcases getD_of_forall₂ h.ranges i with ⟨-, hrange⟩ | ⟨t, -, n, hn, hle, hrange⟩
  · rw [hrange] at hop
    cases hop
  · rw [hrange] at hop
    exact ⟨t, n, hn, hle, hop⟩

theorem isInner_of_mem_ordered (h : Issued packetPc nextPc p ts q ranges) {order : List Nat}
    {op : MicroOp} (hop : op ∈ (order.flatMap (ranges.getD · [])).map Entry.op) :
    op.isInner = true := by
  obtain ⟨t, n, -, -, hop⟩ := h.exists_of_mem_ordered hop
  exact Instruction.isInner_of_mem_lowered hop

theorem writesBelow_ordered (h : Issued packetPc nextPc p ts q ranges) (order : List Nat) :
    WritesBelow q.listing.tempCount ((order.flatMap (ranges.getD · [])).map Entry.op) := by
  intro op hop
  obtain ⟨t, n, hn, hle, hop⟩ := h.exists_of_mem_ordered hop
  exact (t.instruction.writesBelow_lowered _ hn).mono hle op hop

theorem tempCount_eq (h : Issued packetPc nextPc p ts q ranges) :
    q.listing.tempCount = p.listing.tempCount + (ts.map (·.instruction.locals)).sum := by
  rw [Listing.tempCount, h.temps]
  simp [Listing.tempCount]

end Issued

/-! ## Packets -/

/-- **Closing a packet of issued instructions**: its operations act as the packet. -/
theorem Issued.exists_closePacket {site : PacketSite} {nextPc : Word} {l : Listing} {ts : List Task}
    {q : Progress} {es : List Entry} {ranges : List (List Entry)}
    (h : Issued site.packetPc nextPc ⟨l, .empty⟩ ts q ranges) (hcovers : q.Covers es ranges)
    (htemps : 130 ≤ l.tempCount) (hanchor : site.anchor = (es.map Entry.id).getLastD 0) :
    ∃ closing l' ops, closePacket q.roster site q.listing = .ok (closing, l') ∧
      l'.ops = es.map Entry.op ++ ops ∧
      l'.temps = l.temps ++ (List.replicate (tasksLocals site.loopEnd ts) Temp.scratch).toArray ∧
      Acts ops (tasksAct site nextPc ts) ∧ (∀ op ∈ ops, op ≠ .exitBlock) ∧
      WritesBelow l'.temps.size ops := by
  have hwrites : q.roster.writes = taskRegisters ts Footprint.writes := h.writes
  have hcond : q.roster.conditional = taskRegisters ts Footprint.conditional := h.conditional
  obtain ⟨order, hschedule, harrange⟩ := exists_schedule_arrange Task.instruction ts site.packetPc
  have horder : schedule (q.roster.records.map (·.footprint)) q.roster.writes site.packetPc =
      .ok order := by
    rw [hwrites, ← hschedule]
    exact congrArg (schedule · _ _) h.footprints
  obtain ⟨prime, epilogue, l', hclose, hrep, hprime, hepilogue, hlocals⟩ :=
    closePacket_represents hcovers.listing hcovers.records hanchor horder
  have hchanges : (q.roster.closing site.loopEnd order).changesPc =
      tasksChangePc site.loopEnd ts := by
    rw [Roster.closing, hwrites]
    rfl
  rw [hchanges, hwrites] at hepilogue
  rw [hchanges] at hlocals
  rw [hcond] at hprime
  have hsize : l'.temps.size =
      q.listing.tempCount + epilogueLocals site.loopEnd (tasksChangePc site.loopEnd ts) := by
    rw [hlocals]
    simp [Listing.tempCount]
  have hlarge : 130 ≤ q.listing.tempCount := by
    rw [h.tempCount_eq]
    exact Nat.le_add_right_of_le htemps
  let ordered := (order.flatMap (ranges.getD · [])).map Entry.op
  refine ⟨_, l', prime.map Entry.op ++ ordered ++ epilogue.map Entry.op, hclose, ?_, ?_, ?_, ?_, ?_⟩
  · rw [hrep.ops_eq]
    simp [ordered]
  · rw [hlocals, h.temps, Array.append_assoc, tasksLocals, List.replicate_add]
    simp
  · have hordered := h.acts_ordered order
    rw [harrange] at hordered
    rw [hprime, hepilogue]
    exact ((acts_primeOps _).append hordered).append (acts_epilogueOps _ _ _ _ hlarge)
  · intro op hop heq
    have hinner : op.isInner = true := by
      rw [hprime, hepilogue] at hop
      rcases List.mem_append.mp hop with hop | hop
      · rcases List.mem_append.mp hop with hop | hop
        · exact isInner_of_mem_primeOps hop
        · exact h.isInner_of_mem_ordered hop
      · exact isInner_of_mem_epilogueOps hop
    rw [heq] at hinner
    cases hinner
  · rw [hprime, hepilogue, hsize]
    refine WritesBelow.append (WritesBelow.mono ?_ (Nat.le_add_right _ _))
      (writesBelow_epilogueOps _ _ _ _ hlarge)
    exact (writesBelow_primeOps _ hlarge).append (h.writesBelow_ordered order)

/-- **A packet of given instructions is lifted**, and its operations act as the packet. -/
theorem exists_acts_of_issuePacket {site : PacketSite} {l : Listing} {es : List Entry}
    (hes : l.Represents es) (htemps : 130 ≤ l.tempCount) (hanchor : site.anchor = l.lastId)
    {xs : List Issue} (hroom : xs.length ≤ Roster.capacity) (nextPc : Word) (s : Session Nat) :
    ∃ l' s' ops, (issuePacket site nextPc l xs).Gives s l' s' ∧ l'.ops = es.map Entry.op ++ ops ∧
      l'.temps = l.temps
        ++ (List.replicate (tasksLocals site.loopEnd (xs.map Issue.toTask)) Temp.scratch).toArray ∧
      Acts ops (tasksAct site nextPc (xs.map Issue.toTask)) ∧
      (∀ op ∈ ops, op ≠ .exitBlock) ∧ WritesBelow l'.temps.size ops := by
  let b : Build := { listing := l, draft := ({} : Draft).begin site.packetPc nextPc site.anchor }
  have hcovers : b.progress.Covers es [] := ⟨(List.append_nil es).symm ▸ hes, .nil⟩
  obtain ⟨b', t, ranges, hissue, hend, hissued⟩ :=
    exists_issueAll xs (b := b) ((Nat.zero_add _).le.trans hroom) htemps hcovers s
  obtain ⟨closing, l', ops, hclose, hrest⟩ :=
    Issued.exists_closePacket hissued hend htemps (hanchor.trans hes.lastId_eq)
  refine ⟨l', t, ops, ?_, hrest⟩
  refine Lift.gives_bind.mpr ⟨b', t, hissue, ?_⟩
  exact Lift.gives_bind.mpr ⟨(closing, l'), t, Lift.gives_except.mpr ⟨hclose, rfl⟩,
    Lift.gives_pure.mpr ⟨rfl, rfl⟩⟩

/-- **The order of the instructions does not show in a run.** At most four instructions with their
extenders, no two of which write a register in common other than the predicates, set the same
predicate, or call the trap handler, are executed, entered and closed behind any listing, once in
one order and once in another, from any bits and addresses. Both succeed, and the two listings leave
every state the same, with the same calls of the trap handler, wherever a test of a new predicate
stands. Since the program counter is one of the registers, at most one of the instructions writes
it. -/
theorem issuePacket_run_eq_of_perm {layout : Layout} (hsep : layout.Separate) {l : Listing}
    {es : List Entry} (hes : l.Represents es) (hbinds : layout.Binds l.temps) {site : PacketSite}
    (hanchor : site.anchor = l.lastId) {xs ys : List Issue} (hlength : xs.length ≤ 4)
    (hcompat : xs.Pairwise fun x y => x.instruction.Compatible y.instruction)
    (hperm : (xs.map Issue.toTask).Perm (ys.map Issue.toTask)) (nextPc : Word)
    (s t : Session Nat) :
    ∃ l₁ l₂ s' t', (issuePacket site nextPc l xs).Gives s l₁ s' ∧
      (issuePacket site nextPc l ys).Gives t l₂ t' ∧
      ∀ cpu : Cpu, cpu.Fits layout →
        (l₁.run cpu).2 = (l₂.run cpu).2 ∧ (l₁.run cpu).1.traps = (l₂.run cpu).1.traps := by
  have hlength' : ys.length ≤ Roster.capacity := by
    have hsame := hperm.length_eq
    rw [List.length_map, List.length_map] at hsame
    exact hsame ▸ hlength
  obtain ⟨l₁, s', ops₁, hgives₁, hops₁, htemps₁, hacts₁, hinner₁, hbelow₁⟩ :=
    exists_acts_of_issuePacket hes hbinds.le_size hanchor hlength nextPc s
  obtain ⟨l₂, t', ops₂, hgives₂, hops₂, htemps₂, hacts₂, hinner₂, hbelow₂⟩ :=
    exists_acts_of_issuePacket hes hbinds.le_size hanchor hlength' nextPc t
  have htemps : l₂.temps = l₁.temps := by
    rw [htemps₁, htemps₂, tasksLocals_eq_of_perm hperm]
  have hbinds₁ : layout.Binds l₁.temps := by
    rw [htemps₁]
    exact hbinds.append fun _ => List.eq_of_mem_replicate
  have hacts : Acts ops₂ (tasksAct site nextPc (xs.map Issue.toTask)) :=
    hacts₂.congr fun g =>
      (tasksAct_eq_of_perm hperm site nextPc (List.pairwise_map.mpr hcompat) g).symm
  rw [htemps] at hbelow₂
  refine ⟨l₁, l₂, s', t', hgives₁, hgives₂, fun cpu hcpu => ?_⟩
  exact Listing.run_eq_of_acts hsep hbinds₁ htemps hops₁ hops₂
    (List.forall_mem_append.mpr ⟨hinner₁, hinner₂⟩) (hbelow₁.append hbelow₂) hacts₁ hacts hcpu

/-- `if (p0.new) r1 = add(r2, r3)`, `p0 = cmp.eq(r4, r5)`, `p1 = cmp.eq(r6, r7)` and a call with an
extender: the test stands in front of the comparison. -/
def testFirst : List Issue :=
  [⟨⟨.predicatedAdd 1 2 3 0 false true, none⟩, 0, 0⟩, ⟨⟨.compareEqual 0 4 5, none⟩, 0, 4⟩,
    ⟨⟨.compareEqual 1 6 7, none⟩, 0, 8⟩, ⟨⟨.call 0x10, some 0x40⟩, 0, 16⟩]

/-- The same instructions with the test behind the comparison, and the call in front. -/
def testLast : List Issue :=
  [⟨⟨.call 0x10, some 0x40⟩, 0, 4⟩, ⟨⟨.compareEqual 1 6 7, none⟩, 0, 8⟩,
    ⟨⟨.compareEqual 0 4 5, none⟩, 0, 12⟩, ⟨⟨.predicatedAdd 1 2 3 0 false true, none⟩, 0, 16⟩]

theorem issuePacket_run_eq_of_perm_testFirst :
    ∃ l₁ l₂ s' t', (issuePacket ⟨0, 16, 0, some .loop0⟩ 20 (.forGuest .packed) testFirst).Gives
        ⟨0, #[]⟩ l₁ s' ∧
      (issuePacket ⟨0, 16, 0, some .loop0⟩ 20 (.forGuest .packed) testLast).Gives ⟨0, #[]⟩ l₂ t' ∧
      ∀ cpu : Cpu, cpu.Fits .packed →
        (l₁.run cpu).2 = (l₂.run cpu).2 ∧ (l₁.run cpu).1.traps = (l₂.run cpu).1.traps :=
  issuePacket_run_eq_of_perm Layout.separate_packed (represents_forGuest .packed)
    Layout.packed.binds_toArray_guestTemps rfl (by decide) (by decide) (by decide) 20 _ _

end PacketLift
