import PacketLift.Proofs.Instruction.Emission
import PacketLift.Proofs.Machine.Words

/-!
# What instructions of the scalar core do

The operations of an instruction act on the guest: they record the results in staging words, write
the program counter when a branch is taken, and call the trap handler. The registers that they read
are live, except for the predicates that their packet sets, which are staged.

## Main definitions

* `Guest.record`, `Guest.branch`: the guest with a result recorded, and after a branch
* `Instruction.act`: what an instruction does to the guest

## Main results

* `Instruction.acts_lowered`: the operations of an instruction act as the instruction
-/

namespace PacketLift

namespace Guest

/-- The guest with a staged value replaced. -/
def stage (g : Guest) (r : Register) (x : Word) : Guest :=
  { g with staged := Function.update g.staged r.slot x }

/-- The guest with a result recorded in a staging word. -/
def record (g : Guest) (r : Result) : Guest :=
  g.stage r.register (r.apply (g.staged r.register.slot))

/-- **Results recorded one after the other.** -/
theorem foldl_record (rs : List Result) (g : Guest) :
    rs.foldl record g =
      { g with staged := fun slot => Result.applyAll rs slot (g.staged slot) } := by
  induction rs generalizing g with
  | nil => rfl
  | cons r rs ih =>
    rw [List.foldl_cons, ih]
    simp only [record, stage, Function.update_apply, Result.applyAll, List.foldl_cons]
    congr 1
    funext slot
    by_cases hslot : slot = r.register.slot
    · simp [hslot]
    · simp [hslot, Ne.symm hslot]

/-- The guest with the program counter replaced. -/
def setPc (g : Guest) (x : Word) : Guest :=
  { g with live := Function.update g.live Register.pc.slot x }

theorem live_setPc (g : Guest) (x : Word) : (g.setPc x).live Register.pc.slot = x := by
  simp [setPc]

/-- The guest after a branch that is taken. -/
def branch (g : Guest) (target : Word) : Guest := { g.setPc target with pcWritten := 1 }

end Guest

namespace Instruction

/-- **What an instruction does to the guest.** -/
def act (site : Site) (i : Instruction) (g : Guest) : Guest :=
  let recorded := (i.results site g.live (g.staged Register.p.slot)).foldl Guest.record g
  let branched := (i.target? site g.live).elim recorded recorded.branch
  { branched with traps := branched.traps ++ i.trap?.toList }

/-- What an instruction does, word by word. -/
theorem act_eq (site : Site) (i : Instruction) (g : Guest) :
    i.act site g =
      { live := (i.target? site g.live).elim g.live (Function.update g.live Register.pc.slot)
        staged := fun slot =>
          Result.applyAll (i.results site g.live (g.staged Register.p.slot)) slot (g.staged slot)
        pcWritten := (i.target? site g.live).elim g.pcWritten fun _ => 1
        pcTrace := g.pcTrace
        traps := g.traps ++ i.trap?.toList } := by
  simp only [act, Guest.foldl_record]
  cases i.target? site g.live <;> rfl

/-! ## The operations -/

theorem and_one_ushiftRight (x : Word) (j : Nat) :
    (x >>> j) &&& 1 = if x.getLsbD j then 1 else 0 := by
  have h := BitVec.and_one_eq_setWidth_ofBool_getLsbD (x := x >>> j)
  rw [BitVec.getLsbD_ushiftRight, Nat.add_zero] at h
  rw [show (1 : Word) = 1#32 from rfl, h]
  cases x.getLsbD j <;> rfl

/-- Where a predicate's lowest bit stands. -/
theorem toNat_predicateShift (predicate : Byte) :
    (8 * (predicate &&& 3).setWidth 32 : Word).toNat % 32 = 8 * (predicate &&& 3).toNat := by
  have hle : (predicate &&& 3).toNat ≤ 3 := by
    rw [BitVec.toNat_and]
    exact Nat.and_le_right
  rw [BitVec.toNat_mul, BitVec.toNat_setWidth, show (8 : Word).toNat = 8 from rfl]
  omega

/-- The lowest bit of a predicate, as a word. -/
def predicateValue (predicates : Word) (predicate : Byte) : Word :=
  Arithmetic.and.apply (Arithmetic.shr.apply predicates (8 * (predicate &&& 3).setWidth 32)) 1

theorem holds_predicateCondition (predicates : Word) (predicate : Byte) (invert : Bool) :
    (predicateCondition invert).holds (predicateValue predicates predicate) 0#32 =
      predicateTaken predicates predicate invert := by
  simp only [predicateValue, Arithmetic.apply, toNat_predicateShift, and_one_ushiftRight,
    predicateTaken]
  cases invert <;> cases predicates.getLsbD (8 * (predicate &&& 3).toNat) <;> rfl

/-- The operations on a predicate's bits. -/
theorem replaceLane_eq (predicates : Word) (predicate : Byte) (a b : Word) :
    Arithmetic.or.apply (Arithmetic.and.apply predicates (~~~laneMask predicate))
      (Arithmetic.and.apply (Arithmetic.sub.apply 0 (if Condition.eq.holds a b then 1 else 0))
        (laneMask predicate)) = replaceLane predicates predicate (a == b) := by
  have hones : (0 : Word) - 1 = BitVec.allOnes 32 := by decide
  have hlane : (0xFF : Word) <<< (8 * (predicate &&& 3).toNat) = laneMask predicate := rfl
  simp only [Arithmetic.apply, Condition.holds, replaceLane, hlane]
  by_cases hab : a = b
  · simp only [hab, beq_self_eq_true, if_true, hones, BitVec.allOnes_and]
  · simp [hab]

theorem evalAll_predicateBitOps (v : Values) {n : Nat} (hn : 130 ≤ n) (source : TempId)
    (predicate : Byte) :
    v.evalAll (predicateBitOps n source predicate) = { v with
      locals := Function.update v.locals n (predicateValue (v.read source) predicate) } := by
  simp only [predicateBitOps, Values.evalAll_cons, Values.evalAll_nil, Values.eval,
    Values.write_scratch _ _ hn, Values.read_scratch _ hn, Function.update_self,
    Function.update_idem]
  rfl

/-- **The operations of an instruction act as the instruction**, if its locals are none of the
globals. -/
theorem acts_lowered (i : Instruction) (site : Site) {n : Nat} (hn : 130 ≤ n) :
    Acts (i.lowered site n) (i.act site) := by
  have h₁ : 130 ≤ n + 1 := by omega
  have h₂ : 130 ≤ n + 2 := by omega
  have h₃ : 130 ≤ n + 3 := by omega
  intro v
  cases i with
  | trap number =>
    simp [lowered, Values.eval, act, results, target?, trap?, Values.trap, Values.write_scratch,
      Values.read_scratch, hn]
  | compareEqual pd rs rt =>
    -- negating the truth value gives all ones or none, of which the lane is kept
    simp [lowered, Values.eval, act, results, setPredicate, target?, trap?, Guest.record,
      Guest.stage, source, Values.write_scratch, Values.read_scratch, hn, h₁, ← replaceLane_eq]
  | predicatedAdd rd rs rt pu invert dotNew =>
    have hsource : v.read (if dotNew then Global.staged .p else Global.live .p) =
        if dotNew then v.guest.staged Register.p.slot else v.guest.live Register.p.slot := by
      cases dotNew <;> simp
    rw [lowered, Values.evalAll_append, evalAll_predicateBitOps v hn, hsource]
    by_cases htaken : predicateTaken (if dotNew then v.guest.staged Register.p.slot
      else v.guest.live Register.p.slot) pu invert <;>
    simp [Values.eval, act, results, target?, trap?, Guest.record, Guest.stage, Result.value,
      source, Values.write_scratch, Values.read_scratch, hn, h₁, h₂, holds_predicateCondition,
      Arithmetic.apply, htaken]
  | jumpIf pu invert offset =>
    rw [lowered, Values.evalAll_append, evalAll_predicateBitOps v hn]
    by_cases htaken : predicateTaken (v.guest.live Register.p.slot) pu invert <;>
    simp [Values.eval, act, results, target?, trap?, Guest.branch, Guest.setPc,
      Values.write_scratch, Values.read_scratch, hn, h₁, h₂, h₃, holds_predicateCondition, htaken]
  | _ =>
    simp [lowered, Values.eval, act, results, target?, trap?, Guest.record, Guest.stage,
      Guest.branch, Guest.setPc, Result.value, source, Arithmetic.apply]

open WritesBelow in
theorem writesBelow_lowered (i : Instruction) (site : Site) {n : Nat} (hn : 130 ≤ n) :
    WritesBelow (n + i.locals) (i.lowered site n) := by
  cases i <;>
    simp (disch := omega) [WritesBelow, lowered, predicateBitOps, locals, MicroOp.output?,
      staged_lt, pc_lt, pcWritten_lt]

end Instruction

end PacketLift
