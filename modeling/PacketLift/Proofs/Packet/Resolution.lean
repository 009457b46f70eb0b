import PacketLift.Proofs.Block.Layout
import PacketLift.Proofs.Packet.Semantics

/-!
# Where a packet goes on

The end of hardware loops and the choice of the program counter are emitted without branches: flags
are computed as words, and selects, a subtraction and an or write the program counter, the counts
and the flag of a taken branch in place. This module says with branches what these operations do to
a CPU's state.

## Main definitions

* `LoopEnd.again0`, `LoopEnd.again1`: which loop jumps back
* `LoopEnd.Resolves`: what the end of loops and the choice of the program counter do to a state

## Main results

* `LoopEnd.again?_eq`: the loop that jumps back, by the two
* `Machine.Fits.run_epilogueOps`: the epilogue of a packet on a machine
* `endLoops_resolvePc_branches`: the operations that are emitted, on every state
-/

namespace PacketLift

namespace LoopEnd

/-- Loop 0 ends here and jumps back, by its count. -/
def again0 (kind : LoopEnd) (lc0 : Word) : Prop := (kind = .loop0 ∨ kind = .both) ∧ 1 < lc0

/-- Loop 1 ends here and jumps back, by the counts of both loops: loop 0 comes first. -/
def again1 (kind : LoopEnd) (lc0 lc1 : Word) : Prop :=
  (kind = .loop1 ∨ kind = .both) ∧ 1 < lc1 ∧ ¬kind.again0 lc0

instance (kind : LoopEnd) (lc0 : Word) : Decidable (kind.again0 lc0) :=
  inferInstanceAs (Decidable (_ ∧ _))

instance (kind : LoopEnd) (lc0 lc1 : Word) : Decidable (kind.again1 lc0 lc1) :=
  inferInstanceAs (Decidable (_ ∧ _))

theorem again?_eq (kind : LoopEnd) (registers : RegisterFile) :
    kind.again? registers =
      if kind.again0 (registers Register.lc0.slot) then some (.sa0, .lc0)
      else if kind.again1 (registers Register.lc0.slot) (registers Register.lc1.slot) then
        some (.sa1, .lc1)
      else none := by
  cases kind with
  | loop0 => simp [again?, again0, again1]
  | loop1 => simp [again?, again0, again1]
  | both =>
    by_cases hinner : 1#32 < registers Register.lc0.slot <;>
      simp [again?, again0, again1, hinner, -BitVec.not_lt]

/-- **The end of loops and the choice of the program counter**, from one state to another. A loop
that jumps back wins over a branch that was taken, and that over going on behind `lastPc`. -/
structure Resolves (kind : LoopEnd) (lastPc : Word) (before after : Cpu) : Prop where
  pc : after.pc =
    if kind.again0 (before.register .lc0) then before.register .sa0
    else if kind.again1 (before.register .lc0) (before.register .lc1) then before.register .sa1
    else if before.pcWritten = 1 then before.pc
    else lastPc + 4
  lc0 : after.register .lc0 =
    if kind.again0 (before.register .lc0) then before.register .lc0 - 1 else before.register .lc0
  lc1 : after.register .lc1 =
    if kind.again1 (before.register .lc0) (before.register .lc1) then before.register .lc1 - 1
    else before.register .lc1
  pcWritten : after.pcWritten = 0
  layout : after.layout = before.layout
  size : after.words.size = before.words.size
  /-- All words but those of the program counter, the counts and the flag stay. -/
  others {i : Nat} : i ≠ before.layout.live .pc / 4 → i ≠ before.layout.live .lc0 / 4 →
    i ≠ before.layout.live .lc1 / 4 → i ≠ before.layout.pcWritten / 4 →
    after.words[i]? = before.words[i]?

end LoopEnd

/-! ## On the guest -/

namespace Guest

variable {g : Guest} {kind : LoopEnd}

/-- A loop that jumps back goes to its start, whether a branch was taken or not. -/
theorem resolvePc_of_again {start count : Register} (h : kind.again? g.live = some (start, count))
    (hflag : g.pcWritten = 0 ∨ g.pcWritten = 1) (after : Word) :
    (g.endLoops kind).resolvePc after =
      { g with
        live := Function.update (Function.update g.live Register.pc.slot (g.live start.slot))
          count.slot (g.live count.slot - 1)
        pcWritten := 0 } := by
  have hset : BitVec.slt 0 (g.pcWritten ||| 1) = true := by
    rcases hflag with hflag | hflag <;> rw [hflag] <;> decide
  have hendLoops : g.endLoops kind = g.jumpBack start count := by rw [endLoops_eq, h]; rfl
  rw [hendLoops]
  simp only [resolvePc, jumpBack, hset, if_true, Function.update_eq_self]

/-- With no loop to repeat, a branch that was taken decides. -/
theorem resolvePc_of_not_again (h : kind.again? g.live = none)
    (hflag : g.pcWritten = 0 ∨ g.pcWritten = 1) (after : Word) :
    (g.endLoops kind).resolvePc after =
      { g with
        live := Function.update g.live Register.pc.slot
          (if g.pcWritten = 1 then g.live Register.pc.slot else after)
        pcWritten := 0 } := by
  have hendLoops : g.endLoops kind = g := by rw [endLoops_eq, h]; rfl
  have hset : BitVec.slt 0 g.pcWritten = decide (g.pcWritten = 1) := by
    rcases hflag with hflag | hflag <;> rw [hflag] <;> decide
  rw [hendLoops, resolvePc, hset]
  simp only [decide_eq_true_eq]

/-- **The two parts together** change the program counter, a count and the flag. -/
theorem exists_live_resolvePc (g : Guest) (kind : LoopEnd)
    (hflag : g.pcWritten = 0 ∨ g.pcWritten = 1) (after : Word) :
    ∃ live, (g.endLoops kind).resolvePc after = { g with live, pcWritten := 0 } ∧
      (live Register.pc.slot =
        if kind.again0 (g.live Register.lc0.slot) then g.live Register.sa0.slot
        else if kind.again1 (g.live Register.lc0.slot) (g.live Register.lc1.slot) then
          g.live Register.sa1.slot
        else if g.pcWritten = 1 then g.live Register.pc.slot
        else after) ∧
      (live Register.lc0.slot = if kind.again0 (g.live Register.lc0.slot) then
        g.live Register.lc0.slot - 1 else g.live Register.lc0.slot) ∧
      (live Register.lc1.slot =
        if kind.again1 (g.live Register.lc0.slot) (g.live Register.lc1.slot) then
          g.live Register.lc1.slot - 1
        else g.live Register.lc1.slot) ∧
      ∀ slot, slot ≠ Register.pc.slot → slot ≠ Register.lc0.slot → slot ≠ Register.lc1.slot →
        live slot = g.live slot := by
  have hlc0 : Register.lc0.slot ≠ Register.pc.slot := by decide
  have hlc1 : Register.lc1.slot ≠ Register.pc.slot := by decide
  have hlc : Register.lc0.slot ≠ Register.lc1.slot := by decide
  have hagain := kind.again?_eq g.live
  by_cases h0 : kind.again0 (g.live Register.lc0.slot)
  · have h1 : ¬kind.again1 (g.live Register.lc0.slot) (g.live Register.lc1.slot) :=
      fun h => h.2.2 h0
    rw [if_pos h0] at hagain
    refine ⟨_, resolvePc_of_again hagain hflag after, ?_, ?_, ?_, ?_⟩
    · rw [if_pos h0, Function.update_of_ne hlc0.symm, Function.update_self]
    · rw [if_pos h0, Function.update_self]
    · rw [if_neg h1, Function.update_of_ne hlc.symm, Function.update_of_ne hlc1]
    · intro slot hpc hslot _
      rw [Function.update_of_ne hslot, Function.update_of_ne hpc]
  · rw [if_neg h0] at hagain
    by_cases h1 : kind.again1 (g.live Register.lc0.slot) (g.live Register.lc1.slot)
    · rw [if_pos h1] at hagain
      refine ⟨_, resolvePc_of_again hagain hflag after, ?_, ?_, ?_, ?_⟩
      · rw [if_neg h0, if_pos h1, Function.update_of_ne hlc1.symm, Function.update_self]
      · rw [if_neg h0, Function.update_of_ne hlc, Function.update_of_ne hlc0]
      · rw [if_pos h1, Function.update_self]
      · intro slot hpc _ hslot
        rw [Function.update_of_ne hslot, Function.update_of_ne hpc]
    · rw [if_neg h1] at hagain
      refine ⟨_, resolvePc_of_not_again hagain hflag after, ?_, ?_, ?_, ?_⟩
      · rw [if_neg h0, if_neg h1, Function.update_self]
      · rw [if_neg h0, Function.update_of_ne hlc0]
      · rw [if_neg h1, Function.update_of_ne hlc1]
      · intro slot hpc _ _
        rw [Function.update_of_ne hpc]

theorem commit_empty (g : Guest) : g.commit .empty = g := by
  simp [commit]

end Guest

/-! ## On a state -/

/-- **The epilogue of a packet on a machine**, behind any temporaries. -/
theorem Machine.Fits.run_epilogueOps {m : Machine} {layout : Layout} {base : Array Temp}
    {loopEnd : Option LoopEnd} {changesPc : Bool}
    (h : m.Fits layout
      (base ++ (List.replicate (epilogueLocals loopEnd changesPc) Temp.scratch).toArray))
    (hsep : layout.Separate) (hbase : guestTemps layout <+: base.toList) (committed : RegisterSet)
    (lastPc : Word) :
    let after := m.run
      (base ++ (List.replicate (epilogueLocals loopEnd changesPc) Temp.scratch).toArray)
      (epilogueOps base.size committed loopEnd changesPc lastPc)
    after.cpu.guest after.outcome.traps =
        (m.cpu.guest m.outcome.traps).epilogue committed loopEnd changesPc (lastPc + 4) ∧
      m.cpu.SameElsewhere after.cpu := by
  have hn : 130 ≤ base.size := by
    simpa [Layout.length_guestTemps] using hbase.length_le
  have hinner : ∀ op ∈ epilogueOps base.size committed loopEnd changesPc lastPc,
      op ≠ .exitBlock := by
    rintro op hop rfl
    cases isInner_of_mem_epilogueOps hop
  exact h.run_behind hsep hbase hinner (fun t => mentioned_epilogueOps)
    (acts_epilogueOps committed loopEnd changesPc lastPc hn)

/-- What the guest shows of the two parts, in the words of the state. -/
theorem LoopEnd.Resolves.of_guest {m m' : Machine} {kind : LoopEnd} {lastPc : Word}
    (hguest : m'.cpu.guest m'.outcome.traps =
      ((m.cpu.guest m.outcome.traps).endLoops kind).resolvePc (lastPc + 4))
    (hsame : m.cpu.SameElsewhere m'.cpu) (hflag : m.cpu.pcWritten = 0 ∨ m.cpu.pcWritten = 1) :
    kind.Resolves lastPc m.cpu m'.cpu := by
  obtain ⟨live, heq, hpc, hlc0, hlc1, hothers⟩ :=
    Guest.exists_live_resolvePc (m.cpu.guest m.outcome.traps) kind hflag (lastPc + 4)
  rw [heq] at hguest
  simp only [Cpu.guest_live] at hpc hlc0 hlc1
  have hlive : ∀ r : Register, m'.cpu.register r = live r.slot := by
    intro r
    rw [← Cpu.guest_live _ m'.outcome.traps, hguest]
  refine ⟨(hlive .pc).trans hpc, (hlive .lc0).trans hlc0, (hlive .lc1).trans hlc1,
    congrArg Guest.pcWritten hguest, hsame.layout, hsame.size, ?_⟩
  intro i hi hi0 hi1 hiw
  refine hsame.words_of_get fun c hc => ?_
  cases c with
  | live slot =>
    have hne : ∀ r : Register, i ≠ m.cpu.layout.live r / 4 → slot ≠ r.slot := by
      rintro r hr rfl
      rw [← (m.cpu.layout.offset_ofSlot r).1] at hr
      exact hr (Option.some.inj hc).symm
    have hkept := hothers slot (hne .pc hi) (hne .lc0 hi0) (hne .lc1 hi1)
    exact (congrFun (congrArg Guest.live hguest) slot).trans hkept
  | staged slot => exact congrFun (congrArg Guest.staged hguest) slot
  | pcWritten => exact absurd (Option.some.inj hc).symm hiw
  | pcTrace => exact (congrArg Guest.pcTrace hguest :)
  | scratch t => cases hc

/-- **The end of hardware loops and the choice of the program counter, with branches.** For any
loops that end and any address of the packet's last word, the operations that are emitted behind a
listing resolve every state in which the flag of a taken branch is zero or one. -/
theorem endLoops_resolvePc_branches (kind : LoopEnd) (lastPc : Word) (l : Listing)
    {layout : Layout} (hsep : layout.Separate) (hglobals : guestTemps layout <+: l.temps.toList) :
    ∃ ops k, (do endLoops kind; resolvePc lastPc : Emit Unit).run l =
        ((), l.extend ops (List.replicate k .scratch)) ∧
      ∀ m : Machine, m.Fits layout (l.extend ops (List.replicate k .scratch)).temps →
        m.cpu.pcWritten = 0 ∨ m.cpu.pcWritten = 1 →
        kind.Resolves lastPc m.cpu
          (m.run (l.extend ops (List.replicate k .scratch)).temps ops).cpu := by
  have hemits : Emits (do endLoops kind; resolvePc lastPc) l.tempCount ()
      (epilogueOps l.tempCount .empty (some kind) true lastPc) (epilogueLocals (some kind) true) :=
    .bind (emits_endLoops kind _) (emits_resolvePc lastPc _) rfl rfl rfl
  refine ⟨_, _, hemits l rfl, fun m hfits hflag => ?_⟩
  rw [Listing.temps_extend] at hfits ⊢
  obtain ⟨hguest, hsame⟩ := hfits.run_epilogueOps hsep hglobals .empty lastPc
  rw [Guest.epilogue, Guest.commit_empty] at hguest
  exact .of_guest hguest hsame hflag

/-- The end of both loops behind a taken branch, with two rounds left of loop 0 and three of loop 1:
loop 0 jumps back, and the branch is lost. -/
theorem endLoops_resolvePc_branches_both :
    ∃ ops k, (do endLoops .both; resolvePc 0x20 : Emit Unit).run (.forGuest .packed) =
        ((), (Listing.forGuest .packed).extend ops (List.replicate k .scratch)) ∧
      ∃ before after : Cpu, before.pcWritten = 1 ∧ LoopEnd.both.Resolves 0x20 before after ∧
        after.pc = 0x80 ∧ after.register .lc0 = 1 ∧ after.register .lc1 = 3 := by
  let cpu := ((((Cpu.zeroed .packed).setRegister .lc0 2).setRegister .lc1 3).setRegister .sa0
    0x80).store Layout.packed.pcWritten 1
  have hfits : cpu.Fits .packed := ⟨by simp [cpu, Cpu.store, Cpu.setRegister, Cpu.zeroed], rfl⟩
  have hvalues : cpu.pcWritten = 1 ∧ cpu.register .lc0 = 2 ∧ cpu.register .lc1 = 3 ∧
      cpu.register .sa0 = 0x80 := by
    decide +kernel
  obtain ⟨hflag, hlc0, hlc1, hsa0⟩ := hvalues
  have hagain : LoopEnd.both.again0 2 ∧ ¬LoopEnd.both.again1 2 3 := by decide
  obtain ⟨ops, k, hrun, hresolves⟩ := endLoops_resolvePc_branches .both 0x20 (.forGuest .packed)
    Layout.separate_packed ⟨[], List.append_nil _⟩
  have h := hresolves (.start _ cpu) (.start hfits _) (Or.inr hflag)
  refine ⟨ops, k, hrun, cpu, _, hflag, h, ?_, ?_, ?_⟩
  · rw [h.pc]
    simp only [Machine.start, hlc0, hsa0, if_pos hagain.1]
  · rw [h.lc0]
    simp only [Machine.start, hlc0, if_pos hagain.1]
    rfl
  · rw [h.lc1]
    simp only [Machine.start, hlc0, hlc1, if_neg hagain.2]

end PacketLift
