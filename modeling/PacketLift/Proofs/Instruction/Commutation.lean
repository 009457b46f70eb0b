import Mathlib.Data.List.Pairwise
import PacketLift.Proofs.Instruction.Effect
import PacketLift.Proofs.Packet.Arrangement

/-!
# Instructions that may change places

Two instructions of a packet are compatible if they write no register in common, the predicates
aside, set different predicates, and do not both call the trap handler. What compatible instructions
do to the guest does not depend on which of them comes first, unless one of them tests a predicate
that the other sets. The order of a packet puts all tests of new predicates behind everything else,
so what its instructions do together does not depend on the order in which they were given.

## Main definitions

* `Instruction.lane?`, `Instruction.Compatible`

## Main results

* `replaceLane_comm`: different predicates are set independently of each other
* `Instruction.act_comm`: compatible instructions commute
* `foldl_act_arrange_eq_of_perm`: so do lists of them, once they are put in order
-/

namespace PacketLift

/-! ## Predicates -/

/-- **Different predicates are set independently of each other.** -/
theorem replaceLane_comm {p q : Byte} (h : p &&& 3 ≠ q &&& 3) (predicates : Word) (a b : Bool) :
    replaceLane (replaceLane predicates p a) q b =
      replaceLane (replaceLane predicates q b) p a := by
  have hne : (p &&& 3).toNat ≠ (q &&& 3).toNat := fun heq => h (BitVec.eq_of_toNat_eq heq)
  apply BitVec.eq_of_getLsbD_eq
  intro k hk
  simp only [getLsbD_replaceLane _ _ _ hk]
  -- a bit belongs to one of the two predicates at most
  by_cases hp : k / 8 = (p &&& 3).toNat
  · rw [if_pos hp, if_pos hp, if_neg (hp ▸ hne)]
  · rw [if_neg hp, if_neg hp]

namespace Instruction

/-! ## Two instructions -/

/-- Which of the four predicates a comparison sets. -/
def lane? : Instruction → Option Byte
  | compareEqual pd _ _ => some (pd &&& 3)
  | _ => none

/-- **Two instructions that do not get in each other's way**: they write no register in common but
the predicates, set different predicates, and at most one of them calls the trap handler. -/
structure Compatible (i j : Instruction) : Prop where
  registers : (i.footprint.writes.inter j.footprint.writes).erase .p = .empty
  lanes : i.lane? = j.lane? → i.lane? = none
  traps : i.trap? = none ∨ j.trap? = none

instance (i j : Instruction) : Decidable (i.Compatible j) :=
  decidable_of_iff ((i.footprint.writes.inter j.footprint.writes).erase .p = .empty ∧
      (i.lane? = j.lane? → i.lane? = none) ∧ (i.trap? = none ∨ j.trap? = none))
    ⟨fun h => ⟨h.1, h.2.1, h.2.2⟩, fun h => ⟨h.registers, h.lanes, h.traps⟩⟩

variable {i j : Instruction}

/-- The registers that both write are the predicates at most. -/
theorem Compatible.hasSlot_and (h : i.Compatible j) {slot : Nat}
    (hp : slot ≠ Register.p.slot.val) :
    (i.footprint.writes.hasSlot slot && j.footprint.writes.hasSlot slot) = false := by
  have hslot := congrArg (·.hasSlot slot) h.registers
  simpa [hp] using hslot

theorem Compatible.symm (h : i.Compatible j) : j.Compatible i where
  registers := by
    rw [← h.registers]
    refine RegisterSet.ext_hasSlot fun slot => ?_
    simp [Bool.and_comm]
  lanes heq := heq.trans (h.lanes heq.symm)
  traps := h.traps.symm

/-- At most one of them branches. -/
theorem Compatible.target? (h : i.Compatible j) (si sj : Site) (before : RegisterFile) :
    i.target? si before = none ∨ j.target? sj before = none := by
  have hne : Register.pc.slot.val ≠ Register.p.slot.val := by decide
  have hboth := h.hasSlot_and hne
  rcases Bool.and_eq_false_iff.mp hboth with hi | hj
  · exact .inl (target?_eq_none hi)
  · exact .inr (target?_eq_none hj)

theorem Compatible.setPredicate_comm (h : i.Compatible j) (before : RegisterFile) (x : Word) :
    i.setPredicate before (j.setPredicate before x) =
      j.setPredicate before (i.setPredicate before x) := by
  cases i with
  | compareEqual pd rs rt =>
    cases j with
    | compareEqual pd' rs' rt' =>
      have hlanes : pd' &&& 3 ≠ pd &&& 3 := fun heq => nomatch h.lanes (congrArg some heq.symm)
      exact replaceLane_comm hlanes x _ _
    | _ => rfl
  | _ => rfl

/-- A register that an instruction does not write keeps its staged value. -/
theorem applyAll_results_of_not_writes {slot : Fin 64}
    (h : i.footprint.writes.hasSlot slot.val = false) (site : Site) (before : RegisterFile)
    (newPredicates x : Word) :
    Result.applyAll (i.results site before newPredicates) slot x = x := by
  refine Result.applyAll_of_ne (fun r hr heq => ?_) x
  have hwrites := hasSlot_writes_of_mem_results hr
  rw [heq, h] at hwrites
  cases hwrites

/-- **Results of compatible instructions** can be applied in either order. -/
theorem Compatible.applyAll_comm (h : i.Compatible j) (si sj : Site) (before : RegisterFile)
    (newPredicates : Word) (slot : Fin 64) (x : Word) :
    Result.applyAll (i.results si before newPredicates) slot
        (Result.applyAll (j.results sj before newPredicates) slot x) =
      Result.applyAll (j.results sj before newPredicates) slot
        (Result.applyAll (i.results si before newPredicates) slot x) := by
  by_cases hp : slot = Register.p.slot
  · subst hp
    simp only [applyAll_results_p]
    exact h.setPredicate_comm before x
  · have hne : slot.val ≠ Register.p.slot.val := fun heq => hp (Fin.ext heq)
    rcases Bool.and_eq_false_iff.mp (h.hasSlot_and hne) with hi | hj
    · simp only [applyAll_results_of_not_writes hi]
    · simp only [applyAll_results_of_not_writes hj]

/-- An instruction changes no live word but the program counter. -/
theorem live_act_of_ne (site : Site) (i : Instruction) (g : Guest) {slot : Fin 64}
    (h : slot ≠ Register.pc.slot) : (i.act site g).live slot = g.live slot := by
  rw [act_eq]
  cases i.target? site g.live with
  | none => rfl
  | some target => exact Function.update_of_ne h _ _

/-- The results of an instruction stay the same behind another one, unless it tests a predicate that
the other one sets. -/
theorem results_act (si sj : Site) (g : Guest)
    (h : i.isDotNew = true → j.isCompare = false) :
    i.results si (j.act sj g).live ((j.act sj g).staged Register.p.slot) =
      i.results si g.live (g.staged Register.p.slot) := by
  rw [results_congr (fun slot hslot => live_act_of_ne sj j g hslot)]
  cases hnew : i.isDotNew with
  | false => exact results_of_not_isDotNew hnew _
  | true =>
    have hcompare := h hnew
    have hstaged : (j.act sj g).staged Register.p.slot = g.staged Register.p.slot := by
      rw [act_eq]
      exact Result.applyAll_of_ne (fun r hr => (slot_of_mem_results hr).2 hcompare) _
    rw [hstaged]

/-- **Compatible instructions commute**, unless one of them tests a predicate that the other one
sets. -/
theorem Compatible.act_comm (h : i.Compatible j) (hij : i.isDotNew = true → j.isCompare = false)
    (hji : j.isDotNew = true → i.isCompare = false) (si sj : Site) (g : Guest) :
    i.act si (j.act sj g) = j.act sj (i.act si g) := by
  have hti : i.target? si (j.act sj g).live = i.target? si g.live :=
    target?_congr (fun slot hslot => live_act_of_ne sj j g hslot) i si
  have htj : j.target? sj (i.act si g).live = j.target? sj g.live :=
    target?_congr (fun slot hslot => live_act_of_ne si i g hslot) j sj
  have htargets := h.target? si sj g.live
  rw [act_eq si i (j.act sj g), act_eq sj j (i.act si g), hti, htj, results_act si sj g hij,
    results_act sj si g hji]
  simp only [act_eq]
  apply Guest.ext
  · rcases htargets with hi | hj
    · simp only [hi, Option.elim_none]
    · simp only [hj, Option.elim_none]
  · funext slot
    exact h.applyAll_comm si sj g.live (g.staged Register.p.slot) slot (g.staged slot)
  · rcases htargets with hi | hj
    · simp only [hi, Option.elim_none]
    · simp only [hj, Option.elim_none]
  · rfl
  · rcases h.traps with hi | hj
    · simp only [hi, Option.toList_none, List.append_nil]
    · simp only [hj, Option.toList_none, List.append_nil]

end Instruction

/-! ## Lists of instructions -/

section Lists

variable {α : Type} {instruction : α → Instruction} {xs ys : List α} (site : α → Site)

/-- **Instructions in any order**, if none of them tests a predicate that another one sets. -/
theorem foldl_act_eq_of_perm (hperm : xs.Perm ys)
    (hcompat : xs.Pairwise fun x y => (instruction x).Compatible (instruction y))
    (hapart : (∀ x ∈ xs, (instruction x).isDotNew = false) ∨
      ∀ x ∈ xs, (instruction x).isCompare = false) (g : Guest) :
    xs.foldl (fun g x => (instruction x).act (site x) g) g =
      ys.foldl (fun g x => (instruction x).act (site x) g) g := by
  have : Std.Symm fun x y => (instruction x).Compatible (instruction y) :=
    ⟨fun x y h => h.symm⟩
  refine hperm.foldl_eq' (fun x hx y hy g => ?_) g
  by_cases hxy : x = y
  · rw [hxy]
  · have hpair := hcompat.forall hy hx (Ne.symm hxy)
    refine hpair.act_comm ?_ ?_ (site y) (site x) g
    · intro hnew
      rcases hapart with hnone | hnone
      · rw [hnone y hy] at hnew
        cases hnew
      · exact hnone x hx
    · intro hnew
      rcases hapart with hnone | hnone
      · rw [hnone x hx] at hnew
        cases hnew
      · exact hnone y hy

/-- **The order in which instructions are given does not matter**, once they are put in order. -/
theorem foldl_act_arrange_eq_of_perm (hperm : xs.Perm ys)
    (hcompat : xs.Pairwise fun x y => (instruction x).Compatible (instruction y)) (g : Guest) :
    (arrange instruction xs).foldl (fun g x => (instruction x).act (site x) g) g =
      (arrange instruction ys).foldl (fun g x => (instruction x).act (site x) g) g := by
  have hcompare : anyCompare instruction ys = anyCompare instruction xs := hperm.symm.any_eq
  unfold arrange
  rw [hcompare]
  split_ifs with hany
  · -- everything else comes first, and no test of a new predicate sets one
    have hearly := foldl_act_eq_of_perm site
      (hperm.filter fun x => !(instruction x).isDotNew) (hcompat.filter _)
      (.inl fun x hx => by simpa using (List.mem_filter.mp hx).2)
    have hlate := foldl_act_eq_of_perm site
      (hperm.filter fun x => (instruction x).isDotNew) (hcompat.filter _)
      (.inr fun x hx => (Instruction.of_isDotNew (List.mem_filter.mp hx).2).1)
    rw [List.foldl_append, List.foldl_append, hearly, hlate]
  · refine foldl_act_eq_of_perm site hperm hcompat (.inr fun x hx => ?_) g
    have hnone : anyCompare instruction xs = false := by simpa using hany
    simpa using List.any_eq_false.mp hnone x hx

/-- Neither do the registers of their footprints depend on it. -/
theorem registersOf_eq_of_perm (hperm : xs.Perm ys) (set : Footprint → RegisterSet) :
    registersOf instruction xs set = registersOf instruction ys set := by
  refine RegisterSet.ext_hasSlot fun slot => ?_
  rw [hasSlot_registersOf, hasSlot_registersOf]
  exact hperm.any_eq

end Lists

end PacketLift
