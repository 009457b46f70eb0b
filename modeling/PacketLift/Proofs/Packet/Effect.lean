import PacketLift.Proofs.Instruction.Effect
import PacketLift.Proofs.Machine.Temporaries
import PacketLift.Proofs.Packet.Arrangement
import PacketLift.Proofs.Packet.Epilogue

/-!
# What lifted packets do

The operations around the instructions of a packet act on the guest: priming copies live values to
staging words, the commit makes staged values live, loops that end jump back while their count is
above one, and the program counter goes on behind the packet unless a branch was taken.

## Main definitions

* `Guest.prime`, `Guest.commit`, `Guest.endLoops`, `Guest.resolvePc`: the four parts
* `Guest.epilogue`: the last three of them
* `Packet.act`: what a packet does to the guest

## Main results

* `acts_primeOps`, `acts_epilogueOps`: the operations act as these parts
* `mentioned_primeOps`, `mentioned_epilogueOps`: the temporaries that they mention
-/

namespace PacketLift

namespace Guest

/-- The guest with live values in the staging words of some registers. -/
def prime (primed : RegisterSet) (g : Guest) : Guest :=
  { g with staged := fun i => if primed.hasSlot i.val then g.live i else g.staged i }

/-- The guest with the staged values of some registers made live. -/
def commit (committed : RegisterSet) (g : Guest) : Guest :=
  { g with
    live := fun i => if committed.hasSlot i.val then g.staged i else g.live i
    staged := fun i => if committed.hasSlot i.val then 0 else g.staged i }

/-- The guest after a jump back to a loop's start. -/
def jumpBack (start count : Register) (g : Guest) : Guest :=
  { g with
    live := Function.update (Function.update g.live Register.pc.slot (g.live start.slot))
      count.slot (g.live count.slot - 1)
    pcWritten := g.pcWritten ||| 1 }

/-- The guest behind the end of hardware loops. -/
def endLoops (g : Guest) : LoopEnd → Guest
  | .loop0 => if 1 < g.live Register.lc0.slot then g.jumpBack .sa0 .lc0 else g
  | .loop1 => if 1 < g.live Register.lc1.slot then g.jumpBack .sa1 .lc1 else g
  | .both =>
    if 1 < g.live Register.lc0.slot then g.jumpBack .sa0 .lc0
    else if 1 < g.live Register.lc1.slot then g.jumpBack .sa1 .lc1
    else g

/-- The guest with its program counter behind the packet, unless a branch was taken. -/
def resolvePc (after : Word) (g : Guest) : Guest :=
  { g with
    live := Function.update g.live Register.pc.slot
      (if BitVec.slt 0 g.pcWritten then g.live Register.pc.slot else after)
    pcWritten := 0 }

/-- What stands behind the instructions of a packet. -/
def epilogue (committed : RegisterSet) (loopEnd : Option LoopEnd) (changesPc : Bool) (after : Word)
    (g : Guest) : Guest :=
  let g := g.commit committed
  let g := loopEnd.elim g g.endLoops
  if changesPc then g.resolvePc after else g

end Guest

/-- **What the instruction at a place does to the guest**: its address is stored if it is traced,
and then it runs. -/
def Place.act (site : Place → Site) (g : Guest) (x : Place) : Guest :=
  x.instruction.act (site x) (if x.code.isTraced then { g with pcTrace := x.pc } else g)

namespace Packet

/-- Whether the packet may change the program counter. -/
def changesPc (p : Packet) : Bool := p.writes.contains .pc || p.loopEnd.isSome

/-- **What a packet does to the guest.** -/
def act (p : Packet) (g : Guest) : Guest :=
  (p.arranged.foldl (Place.act p.site) (g.prime (p.conditional.erase .pc))).epilogue
    (p.writes.erase .pc) p.loopEnd p.changesPc p.after

end Packet

namespace Guest

/-! ## One register after the other -/

/-- Staging words set one after the other, to values that do not depend on staging words. -/
theorem foldl_stage {x : Guest → Fin 64 → Word} (hx : ∀ g r y, x (stage g r y) = x g)
    (rs : List Register) (g : Guest) :
    rs.foldl (fun g r => g.stage r (x g r.slot)) g =
      { g with staged := fun i => if rs.any (·.slot == i) then x g i else g.staged i } := by
  induction rs generalizing g with
  | nil => simp
  | cons r rs ih =>
    rw [List.foldl_cons, ih, hx]
    refine congrArg (fun staged => { g with staged }) (funext fun i => ?_)
    rw [List.any_cons]
    by_cases hi : r.slot = i
    · simp [stage, hi]
    · simp only [stage, Function.update_of_ne (Ne.symm hi), beq_false_of_ne hi, Bool.false_or]

/-- Staged values made live one after the other. -/
theorem foldl_makeLive (rs : List Register) (g : Guest) :
    rs.foldl (fun g r => { g with live := Function.update g.live r.slot (g.staged r.slot) }) g =
      { g with live := fun i => if rs.any (·.slot == i) then g.staged i else g.live i } := by
  induction rs generalizing g with
  | nil => simp
  | cons r rs ih =>
    rw [List.foldl_cons, ih]
    refine congrArg (fun live => { g with live }) (funext fun i => ?_)
    rw [List.any_cons]
    by_cases hi : r.slot = i
    · simp [hi]
    · simp only [Function.update_of_ne (Ne.symm hi), beq_false_of_ne hi, Bool.false_or]

end Guest

/-! ## The operations -/

theorem acts_primeOps (primed : RegisterSet) : Acts (primeOps primed) (Guest.prime primed) := by
  have hfold : Acts (primeOps primed) fun g =>
      primed.toList.foldl (fun g r => g.stage r (g.live r.slot)) g :=
    Acts.map primed.toList fun r v => by simp [Values.eval, Guest.stage]
  intro v
  refine (hfold v).trans ((Guest.foldl_stage (x := Guest.live) (fun _ _ _ => rfl) _ _).trans ?_)
  simp only [RegisterSet.any_slot_toList, Guest.prime]

theorem acts_commitOps (committed : RegisterSet) :
    Acts (commitOps committed) (Guest.commit committed) := by
  have hlive : Acts (committed.toList.map fun r => .copy (Global.live r) (Global.staged r)) fun g =>
      committed.toList.foldl (fun g r =>
        { g with live := Function.update g.live r.slot (g.staged r.slot) }) g :=
    Acts.map committed.toList fun r v => by simp [Values.eval]
  have hclear : Acts (committed.toList.map fun r => .set (Global.staged r) 0) fun g =>
      committed.toList.foldl (fun g r => g.stage r 0) g :=
    Acts.map committed.toList fun r v => by simp [Values.eval, Guest.stage]
  intro v
  rw [commitOps, hlive.append hclear v, Function.comp_apply, Guest.foldl_makeLive,
    Guest.foldl_stage (x := fun _ _ => 0) (fun _ _ _ => rfl)]
  simp only [RegisterSet.any_slot_toList, Guest.commit]

/-- Jumping back, if the loop goes on. -/
theorem evalAll_jumpBackOps (v : Values) {blank take : Nat} (hblank : 130 ≤ blank)
    (htake : 130 ≤ take) {start count : Register} (hcount : count.slot ≠ Register.pc.slot)
    {c : Prop} [Decidable c] (hzero : v.locals blank = 0)
    (hvalue : v.locals take = if c then 1 else 0) :
    v.evalAll (jumpBackOps blank take start count) =
      { v with guest := if c then v.guest.jumpBack start count else v.guest } := by
  by_cases hc : c
  · simp [jumpBackOps, Values.eval, Values.read_scratch, hblank, htake, hzero, hvalue, hc,
      Guest.jumpBack, Condition.holds, Arithmetic.apply, hcount]
  · simp [jumpBackOps, Values.eval, Values.read_scratch, hblank, htake, hzero, hvalue, hc,
      Condition.holds, Arithmetic.apply]

/-- The end of one loop. -/
theorem acts_singleLoop {start count : Register} (hcount : count.slot ≠ Register.pc.slot) {n : Nat}
    (hn : 130 ≤ n) :
    Acts ([.set n 1, .set (n + 1) 0, .compare .gtu (n + 2) (Global.live count) n]
        ++ jumpBackOps (n + 1) (n + 2) start count)
      fun g => if 1 < g.live count.slot then g.jumpBack start count else g := by
  have h₁ : 130 ≤ n + 1 := by omega
  have h₂ : 130 ≤ n + 2 := by omega
  intro v
  rw [Values.evalAll_append,
    evalAll_jumpBackOps (c := 1 < v.guest.live count.slot) _ h₁ h₂ hcount]
  · simp [Values.eval, Values.write_scratch, hn, h₁, h₂]
  · simp [Values.eval, Values.write_scratch, hn, h₁, h₂]
  · simp [Values.eval, Values.write_scratch, Values.read_scratch, hn, h₁, h₂, Condition.holds,
      BitVec.ult_iff_lt]

/-- **The end of hardware loops.** -/
theorem acts_loopOps (kind : LoopEnd) {n : Nat} (hn : 130 ≤ n) :
    Acts (loopOps n kind) (·.endLoops kind) := by
  have h₁ : 130 ≤ n + 1 := by omega
  have h₂ : 130 ≤ n + 2 := by omega
  have h₃ : 130 ≤ n + 3 := by omega
  have h₄ : 130 ≤ n + 4 := by omega
  have h₅ : 130 ≤ n + 5 := by omega
  cases kind with
  | loop0 => exact acts_singleLoop (by decide) hn
  | loop1 => exact acts_singleLoop (by decide) hn
  | both =>
    intro v
    -- the outer loop jumps back only if the inner one does not: the local `n + 5` says so
    rw [loopOps, Values.evalAll_append, Values.evalAll_append,
      evalAll_jumpBackOps (c := 1 < v.guest.live Register.lc0.slot) _ h₁ h₂ (by decide),
      evalAll_jumpBackOps (c := ¬1 < v.guest.live Register.lc0.slot ∧
        1 < v.guest.live Register.lc1.slot) _ h₁ h₅ (by decide)]
    · by_cases hinner : 1#32 < v.guest.live Register.lc0.slot <;>
        simp [Values.eval, Values.write_scratch, hn, h₁, h₂, h₃, h₄, h₅, Guest.endLoops, hinner,
          -BitVec.not_lt]
    · simp [Values.eval, Values.write_scratch, hn, h₁, h₂, h₃, h₄, h₅]
    · by_cases hinner : 1#32 < v.guest.live Register.lc0.slot <;>
      by_cases houter : 1#32 < v.guest.live Register.lc1.slot <;>
        simp [Values.eval, Values.write_scratch, Values.read_scratch, hn, h₁, h₂, h₃, h₄, h₅,
          Condition.holds, BitVec.ult_iff_lt, Arithmetic.apply, hinner, houter, -BitVec.not_lt]
    · simp [Values.eval, Values.write_scratch, hn, h₁, h₂, h₃, h₄, h₅]
    · simp [Values.eval, Values.write_scratch, Values.read_scratch, hn, h₁, h₂, h₃, h₄, h₅,
        Condition.holds, BitVec.ult_iff_lt]

theorem acts_pcOps (lastPc : Word) {n : Nat} (hn : 130 ≤ n) :
    Acts (pcOps n lastPc) (Guest.resolvePc (lastPc + 4)) := by
  intro v
  have h₁ : 130 ≤ n + 1 := by omega
  have h₂ : 130 ≤ n + 2 := by omega
  simp [pcOps, Values.eval, Values.read_scratch, Values.write_scratch, hn, h₁, h₂,
    Guest.resolvePc, Condition.holds, Arithmetic.apply]

/-- **The operations behind the instructions of a packet** act as the epilogue. -/
theorem acts_epilogueOps (committed : RegisterSet) (loopEnd : Option LoopEnd) (changesPc : Bool)
    (lastPc : Word) {n : Nat} (hn : 130 ≤ n) :
    Acts (epilogueOps n committed loopEnd changesPc lastPc)
      (Guest.epilogue committed loopEnd changesPc (lastPc + 4)) := by
  have hloops : Acts (loopEnd.elim [] (loopOps n)) fun g => loopEnd.elim g g.endLoops := by
    cases loopEnd with
    | none => exact Acts.nil
    | some kind => exact acts_loopOps kind hn
  have hpc : Acts (if changesPc then pcOps (n + loopLocals loopEnd) lastPc else [])
      fun g => if changesPc then g.resolvePc (lastPc + 4) else g := by
    cases changesPc with
    | false => exact Acts.nil
    | true => exact acts_pcOps lastPc (Nat.le_add_right_of_le hn)
  exact ((acts_commitOps committed).append hloops).append hpc

/-! ## The temporaries -/

section Mentioned

variable {n t : Nat}

theorem live_or_staged_lt {r : Register} (h : t = Global.live r ∨ t = Global.staged r) :
    t < 130 := by
  rcases h with rfl | rfl
  · exact WritesBelow.live_lt r le_rfl
  · exact WritesBelow.staged_lt r le_rfl

theorem mentioned_primeOps {primed : RegisterSet} (ht : t ∈ mentioned (primeOps primed)) :
    t < 130 := by
  obtain ⟨op, hop, ht⟩ := List.mem_flatMap.mp ht
  obtain ⟨r, -, rfl⟩ := List.mem_map.mp hop
  apply live_or_staged_lt
  simpa [MicroOp.output?, MicroOp.inputs, or_comm] using ht

theorem mentioned_commitOps {committed : RegisterSet} (ht : t ∈ mentioned (commitOps committed)) :
    t < 130 := by
  obtain ⟨op, hop, ht⟩ := List.mem_flatMap.mp ht
  rcases List.mem_append.mp hop with hop | hop
  · obtain ⟨r, -, rfl⟩ := List.mem_map.mp hop
    apply live_or_staged_lt
    simpa [MicroOp.output?, MicroOp.inputs] using ht
  · obtain ⟨r, -, rfl⟩ := List.mem_map.mp hop
    exact live_or_staged_lt (.inr (by simpa [MicroOp.output?, MicroOp.inputs] using ht))

/-- **The operations behind the instructions of a packet** mention globals and their own locals. -/
theorem mentioned_epilogueOps {committed : RegisterSet} {loopEnd : Option LoopEnd}
    {changesPc : Bool} {lastPc : Word}
    (ht : t ∈ mentioned (epilogueOps n committed loopEnd changesPc lastPc)) :
    t < 130 ∨ n ≤ t ∧ t < n + epilogueLocals loopEnd changesPc := by
  have hlive (r : Register) : Global.live r < 130 := WritesBelow.live_lt r le_rfl
  have hpc : Global.pc < 130 := hlive .pc
  have hwritten : Global.pcWritten < 130 := by decide
  have hloops : ∀ t : Nat, t ∈ mentioned (loopEnd.elim [] (loopOps n)) →
      t < 130 ∨ n ≤ t ∧ t < n + loopLocals loopEnd := by
    rcases loopEnd with _ | _ | _ | _ <;>
      simp [mentioned, loopOps, jumpBackOps, loopLocals, LoopEnd.locals, MicroOp.output?,
        MicroOp.inputs, hlive, hpc, hwritten]
  have hchoice : ∀ t : Nat,
      t ∈ mentioned (if changesPc then pcOps (n + loopLocals loopEnd) lastPc else []) →
      t < 130 ∨ n ≤ t ∧ t < n + epilogueLocals loopEnd changesPc := by
    cases changesPc with
    | false => simp [mentioned]
    | true =>
      simp [mentioned, pcOps, epilogueLocals, MicroOp.output?, MicroOp.inputs, hpc, hwritten]
      omega
  rw [epilogueOps, mentioned_append, mentioned_append, List.mem_append, List.mem_append] at ht
  rcases ht with (ht | ht) | ht
  · exact .inl (mentioned_commitOps ht)
  · rcases hloops t ht with hglobal | ⟨hle, hlt⟩
    · exact .inl hglobal
    · exact .inr ⟨hle, hlt.trans_le (Nat.add_le_add_left (Nat.le_add_right _ _) n)⟩
  · exact hchoice t ht

theorem writesBelow_primeOps (primed : RegisterSet) (hn : 130 ≤ n) :
    WritesBelow n (primeOps primed) :=
  .of_mentioned fun _ ht => (mentioned_primeOps ht).trans_le hn

theorem writesBelow_epilogueOps (committed : RegisterSet) (loopEnd : Option LoopEnd)
    (changesPc : Bool) (lastPc : Word) (hn : 130 ≤ n) :
    WritesBelow (n + epilogueLocals loopEnd changesPc)
      (epilogueOps n committed loopEnd changesPc lastPc) := by
  refine .of_mentioned fun t ht => ?_
  have := mentioned_epilogueOps ht
  omega

end Mentioned

end PacketLift
