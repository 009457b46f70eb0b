import PacketLift.Proofs.Packet.Effect

/-!
# Lifted packets do what packets mean

A lifted packet runs its instructions one after the other, on staging words that are committed at
the end. Behind it the guest shows the state that the packet's meaning gives. The argument follows
the packet: what the instructions record in staging words are the results of the packet, in the
order in which they count; the commit makes them live; and the rest is the end of loops and the
choice of the program counter.

## Main definitions

* `Guest.Shows`: a guest that shows a state, its program counter aside
* `Recorded`: what instructions have done to the guest

## Main results

* `Packet.recorded_arranged`: the instructions of a packet record its results
* `Packet.shows_act`: a lifted packet does what the packet means
-/

namespace PacketLift

/-- **A guest that shows a state**: its live words are the registers, and nothing is staged. The
program counter is left out, since it is only stored when a block may end. -/
structure Guest.Shows (g : Guest) (m : Core) : Prop where
  registers {slot : Fin 64} : slot ≠ Register.pc.slot → g.live slot = m.registers slot
  staged : g.staged = fun _ => 0
  pcWritten : g.pcWritten = 0
  traps : g.traps = m.traps

/-! ## Instructions one after the other -/

section Recorded

variable {site : Place → Site} {before : RegisterFile} {newPredicates : Word} {g g' g'' : Guest}
  {xs ys : List Place}

/-- The targets of the branches that are taken, in order. -/
def targets (site : Place → Site) (before : RegisterFile) (xs : List Place) : List Word :=
  xs.filterMap fun x => x.instruction.target? (site x) before

/-- **What instructions have done to the guest**, from `g` to `g'`: the results are in the staging
words, and the last branch that is taken is in the program counter. -/
structure Recorded (site : Place → Site) (before : RegisterFile) (newPredicates : Word)
    (xs : List Place) (g g' : Guest) : Prop where
  live : g'.live = (targets site before xs).getLast?.elim g.live
    (Function.update g.live Register.pc.slot)
  staged (slot : Fin 64) : g'.staged slot = Result.applyAll
    (xs.flatMap fun x => x.instruction.results (site x) before newPredicates) slot (g.staged slot)
  pcWritten : g'.pcWritten = (targets site before xs).getLast?.elim g.pcWritten fun _ => 1
  traps : g'.traps = g.traps ++ xs.filterMap (·.instruction.trap?)

theorem Recorded.nil : Recorded site before newPredicates [] g g where
  live := rfl
  staged _ := rfl
  pcWritten := rfl
  traps := (List.append_nil _).symm

theorem Recorded.append (h : Recorded site before newPredicates xs g g')
    (h' : Recorded site before newPredicates ys g' g'') :
    Recorded site before newPredicates (xs ++ ys) g g'' where
  live := by
    rw [h'.live, h.live, targets, targets, targets, List.filterMap_append, List.getLast?_append]
    cases (ys.filterMap fun y => y.instruction.target? (site y) before).getLast? <;>
    cases (xs.filterMap fun x => x.instruction.target? (site x) before).getLast? <;> simp
  staged slot := by
    rw [h'.staged, h.staged, List.flatMap_append, Result.applyAll_append]
  pcWritten := by
    rw [h'.pcWritten, h.pcWritten, targets, targets, targets, List.filterMap_append,
      List.getLast?_append]
    cases (ys.filterMap fun y => y.instruction.target? (site y) before).getLast? <;>
    cases (xs.filterMap fun x => x.instruction.target? (site x) before).getLast? <;> simp
  traps := by
    rw [h'.traps, h.traps, List.filterMap_append, List.append_assoc]

theorem Recorded.live_of_ne (h : Recorded site before newPredicates xs g g') {slot : Fin 64}
    (hslot : slot ≠ Register.pc.slot) : g'.live slot = g.live slot := by
  rw [h.live]
  cases (targets site before xs).getLast? <;> simp [hslot]

/-- One instruction, when the registers are those before the packet and the new predicates are
staged if it tests them. -/
theorem recorded_act {x : Place}
    (hlive : ∀ slot, slot ≠ Register.pc.slot → g.live slot = before slot)
    (hnew : x.instruction.isDotNew = true → g.staged Register.p.slot = newPredicates) :
    Recorded site before newPredicates [x] g (Place.act site g x) := by
  have htarget : x.instruction.target? (site x) g.live = x.instruction.target? (site x) before :=
    Instruction.target?_congr hlive _ _
  have hresults : x.instruction.results (site x) g.live (g.staged Register.p.slot) =
      x.instruction.results (site x) before newPredicates := by
    rw [Instruction.results_congr hlive]
    cases hx : x.instruction.isDotNew with
    | true => rw [hnew hx]
    | false => exact Instruction.results_of_not_isDotNew hx _
  have htargets : (targets site before [x]).getLast? = x.instruction.target? (site x) before := by
    cases hx : x.instruction.target? (site x) before <;> simp [targets, hx]
  have htrap : [x].filterMap (·.instruction.trap?) = x.instruction.trap?.toList := by
    cases hx : x.instruction.trap? <;> simp [hx]
  let started : Guest := if x.code.isTraced then { g with pcTrace := x.pc } else g
  have hstarted : ∃ trace, started = { g with pcTrace := trace } := by
    simp only [started]
    split_ifs
    · exact ⟨_, rfl⟩
    · exact ⟨_, rfl⟩
  obtain ⟨trace, hstarted⟩ := hstarted
  have hact : Place.act site g x = x.instruction.act (site x) { g with pcTrace := trace } :=
    congrArg _ hstarted
  rw [hact, Instruction.act_eq]
  refine ⟨?_, fun slot => ?_, ?_, ?_⟩
  · rw [htargets, ← htarget]
  · simp only [hresults, List.flatMap_cons, List.flatMap_nil, List.append_nil]
  · rw [htargets, ← htarget]
  · rw [htrap]

/-- **Instructions one after the other.** Either none of them tests new predicates, or these are
staged already and none of the instructions changes them. -/
theorem recorded_foldl (hlive : ∀ slot, slot ≠ Register.pc.slot → g.live slot = before slot)
    (hnew : (∀ x ∈ xs, x.instruction.isDotNew = false) ∨
      g.staged Register.p.slot = newPredicates ∧ ∀ x ∈ xs, x.instruction.isCompare = false) :
    Recorded site before newPredicates xs g (xs.foldl (Place.act site) g) := by
  -- on the instructions: the live words stay those before the packet, the program counter aside
  induction xs generalizing g with
  | nil => exact Recorded.nil
  | cons x xs ih =>
    have hfirst : Recorded site before newPredicates [x] g (Place.act site g x) := by
      refine recorded_act hlive fun hx => ?_
      rcases hnew with hnone | ⟨hstaged, -⟩
      · rw [hnone x List.mem_cons_self] at hx
        cases hx
      · exact hstaged
    refine hfirst.append (ih (fun slot hslot => ?_) ?_)
    · rw [hfirst.live_of_ne hslot, hlive slot hslot]
    · rcases hnew with hnone | ⟨hstaged, hcompare⟩
      · exact .inl fun y hy => hnone y (List.mem_cons_of_mem x hy)
      · refine .inr ⟨?_, fun y hy => hcompare y (List.mem_cons_of_mem x hy)⟩
        rw [hfirst.staged, ← hstaged]
        refine Result.applyAll_of_ne (fun r hr => ?_) _
        rw [List.flatMap_cons, List.flatMap_nil, List.append_nil] at hr
        exact (Instruction.slot_of_mem_results hr).2 (hcompare x List.mem_cons_self)

end Recorded

/-! ## Loops -/

theorem Guest.endLoops_eq (g : Guest) (kind : LoopEnd) :
    g.endLoops kind =
      (kind.again? g.live).elim g fun loop => g.jumpBack loop.1 loop.2 := by
  cases kind <;> simp only [endLoops, LoopEnd.again?] <;> split_ifs <;> rfl

/-- Whether a loop jumps back does not depend on the program counter. -/
theorem LoopEnd.again?_update_pc (kind : LoopEnd) (registers : RegisterFile) (x : Word) :
    kind.again? (Function.update registers Register.pc.slot x) = kind.again? registers := by
  have hlc0 : Register.lc0.slot ≠ Register.pc.slot := by decide
  have hlc1 : Register.lc1.slot ≠ Register.pc.slot := by decide
  cases kind <;> simp [again?, hlc0, hlc1]

theorem LoopEnd.again?_congr (kind : LoopEnd) {registers registers' : RegisterFile}
    (h : ∀ slot, slot ≠ Register.pc.slot → registers slot = registers' slot) :
    kind.again? registers = kind.again? registers' := by
  rw [Function.eq_update_iff.mpr ⟨rfl, h⟩, again?_update_pc]

theorem LoopEnd.slot_of_again? {kind : LoopEnd} {registers : RegisterFile}
    {start count : Register} (h : kind.again? registers = some (start, count)) :
    start.slot ≠ Register.pc.slot ∧ count.slot ≠ Register.pc.slot := by
  cases kind <;> simp only [again?] at h <;> split_ifs at h <;> cases h <;> decide

/-! ## The packet -/

namespace Packet

variable {p : Packet} {g : Guest} {m : Core}

/-- Instructions that do not test new predicates leave the predicates that the packet sets. -/
theorem applyAll_early (site : Place → Site) (before : RegisterFile) (newPredicates : Word)
    (xs : List Place) (predicates : Word) :
    Result.applyAll ((xs.filter (!·.instruction.isDotNew)).flatMap fun x =>
      x.instruction.results (site x) before newPredicates) Register.p.slot predicates =
      xs.foldl (fun predicates x => x.instruction.setPredicate before predicates) predicates := by
  induction xs generalizing predicates with
  | nil => rfl
  | cons x xs ih =>
    rw [List.foldl_cons, List.filter_cons]
    cases hx : x.instruction.isDotNew with
    | true =>
      have hkept : x.instruction.setPredicate before predicates = predicates := by
        rw [← Instruction.applyAll_results_p _ (site x) before newPredicates]
        exact Result.applyAll_of_ne (fun r hr =>
          (Instruction.slot_of_mem_results hr).2 (Instruction.of_isDotNew hx).1) _
      rw [hkept]
      exact ih predicates
    | false =>
      rw [Bool.not_false, if_pos rfl, List.flatMap_cons, Result.applyAll_append,
        Instruction.applyAll_results_p]
      exact ih _

theorem staged_p_prime (h : g.Shows m) :
    (g.prime (p.conditional.erase .pc)).staged Register.p.slot =
      if p.hasCompare then m.registers Register.p.slot else 0 := by
  have hslot : (p.conditional.erase .pc).hasSlot Register.p.slot.val = p.hasCompare := by
    rw [← p.contains_p, RegisterSet.hasSlot_erase, RegisterSet.contains]
    have hne : Register.p.slot.val ≠ Register.pc.slot.val := by decide
    simp [hne]
  simp only [Guest.prime, hslot, h.registers Register.slot_p_ne_pc, h.staged]

/-- **The instructions of a packet record its results.** -/
theorem recorded_arranged (h : g.Shows m) :
    Recorded p.site m.registers (p.newPredicates m.registers) p.arranged
      (g.prime (p.conditional.erase .pc))
      (p.arranged.foldl (Place.act p.site) (g.prime (p.conditional.erase .pc))) := by
  have hp := staged_p_prime (p := p) h
  have hlive : ∀ slot, slot ≠ Register.pc.slot →
      (g.prime (p.conditional.erase .pc)).live slot = m.registers slot := fun _ => h.registers
  cases hc : p.hasCompare with
  | false =>
    have hnew : p.newPredicates m.registers = 0 := by rw [newPredicates, hc]; rfl
    have harranged : p.arranged = p.places := by rw [arranged, hc]; rfl
    rw [hc] at hp
    rw [harranged, hnew]
    refine recorded_foldl hlive (.inr ⟨hp, fun x hx => ?_⟩)
    simpa using List.any_eq_false.mp hc x hx
  | true =>
    let early := p.places.filter (!·.instruction.isDotNew)
    let late := p.places.filter (·.instruction.isDotNew)
    have harranged : p.arranged = early ++ late := by rw [arranged, hc]; rfl
    have hearly : Recorded p.site m.registers (p.newPredicates m.registers) early
        (g.prime (p.conditional.erase .pc))
        (early.foldl (Place.act p.site) (g.prime (p.conditional.erase .pc))) :=
      recorded_foldl hlive (.inl fun x hx => by simpa using (List.mem_filter.mp hx).2)
    -- the comparisons have all run, so what is staged for the predicates is what they come to
    have hstaged : (early.foldl (Place.act p.site) (g.prime (p.conditional.erase .pc))).staged
        Register.p.slot = p.newPredicates m.registers := by
      rw [hearly.staged, hp, applyAll_early, newPredicates, hc]
      rfl
    rw [harranged, List.foldl_append]
    refine hearly.append (recorded_foldl (fun slot hslot => ?_) (.inr ⟨hstaged, fun x hx => ?_⟩))
    · rw [hearly.live_of_ne hslot, hlive slot hslot]
    · exact (Instruction.of_isDotNew (List.mem_filter.mp hx).2).1

/-! ### The commit -/

theorem hasSlot_writes_of_conditional {slot : Nat} (h : p.conditional.hasSlot slot = true) :
    p.writes.hasSlot slot = true := by
  rw [hasSlot_conditional] at h
  obtain ⟨x, hx, hslot⟩ := List.any_eq_true.mp h
  rw [hasSlot_writes]
  exact List.any_eq_true.mpr ⟨x, hx, by simp [Footprint.writes, hslot]⟩

/-- Results are for registers that the packet may write, and never for the program counter. -/
theorem slot_of_mem_results {before : RegisterFile} {r : Result} (hr : r ∈ p.results before) :
    p.writes.hasSlot r.register.slot.val = true ∧ r.register.slot ≠ Register.pc.slot := by
  obtain ⟨x, hx, hr⟩ := List.mem_flatMap.mp hr
  refine ⟨?_, (Instruction.slot_of_mem_results hr).1⟩
  rw [hasSlot_writes]
  exact List.any_eq_true.mpr
    ⟨x, mem_arranged.mp hx, Instruction.hasSlot_writes_of_mem_results hr⟩

/-- A register that is written, and never under a predicate, has a value of its own. -/
theorem applyAll_congr_of_written {before : RegisterFile} {slot : Fin 64}
    (hwrites : p.writes.hasSlot slot.val = true)
    (hconditional : p.conditional.hasSlot slot.val = false) (hslot : slot ≠ Register.pc.slot)
    (x y : Word) :
    Result.applyAll (p.results before) slot x = Result.applyAll (p.results before) slot y := by
  rw [hasSlot_writes] at hwrites
  rw [hasSlot_conditional] at hconditional
  obtain ⟨place, hplace, hplaceWrites⟩ := List.any_eq_true.mp hwrites
  have hwritten : place.instruction.footprint.written.hasSlot slot.val = true := by
    have hnot := List.any_eq_false.mp hconditional place hplace
    simpa [Footprint.writes, hnot] using hplaceWrites
  obtain ⟨r, hr, hregister, hconst⟩ :=
    Instruction.exists_result_of_hasSlot_written hwritten hslot
  exact Result.applyAll_congr (List.mem_flatMap.mpr ⟨place, mem_arranged.mpr hplace, hr⟩)
    hregister hconst x y

variable {g' : Guest}

/-- **The commit makes the results live**, with the program counter aside. For a primed register
they start from the value before the packet. -/
theorem live_commit (h : g.Shows m)
    (hrecorded : Recorded p.site m.registers (p.newPredicates m.registers) p.arranged
      (g.prime (p.conditional.erase .pc)) g') {slot : Fin 64} (hslot : slot ≠ Register.pc.slot) :
    (g'.commit (p.writes.erase .pc)).live slot = p.committed m.registers slot := by
  have hne : slot.val ≠ Register.pc.slot.val := fun heq => hslot (Fin.ext heq)
  simp only [Guest.commit, RegisterSet.hasSlot_erase, hne, decide_false, Bool.not_false,
    Bool.and_true, committed]
  cases hwrites : p.writes.hasSlot slot.val with
  | false =>
    rw [if_neg (by simp), hrecorded.live_of_ne hslot]
    have hnone : ∀ r ∈ p.results m.registers, r.register.slot ≠ slot := by
      rintro r hr rfl
      rw [(slot_of_mem_results hr).1] at hwrites
      cases hwrites
    rw [Result.applyAll_of_ne hnone]
    exact h.registers hslot
  | true =>
    rw [if_pos rfl, hrecorded.staged]
    simp only [Guest.prime, RegisterSet.hasSlot_erase, hne, decide_false, Bool.not_false,
      Bool.and_true]
    cases hconditional : p.conditional.hasSlot slot.val with
    | true =>
      rw [if_pos rfl, h.registers hslot]
      rfl
    | false =>
      -- without priming zero is staged, which the first result for the register replaces
      exact applyAll_congr_of_written hwrites hconditional hslot _ _

/-- **Nothing is staged behind the commit.** -/
theorem staged_commit (h : g.Shows m)
    (hrecorded : Recorded p.site m.registers (p.newPredicates m.registers) p.arranged
      (g.prime (p.conditional.erase .pc)) g') :
    (g'.commit (p.writes.erase .pc)).staged = fun _ => 0 := by
  funext slot
  simp only [Guest.commit]
  cases hwrites : (p.writes.erase .pc).hasSlot slot.val with
  | true => rfl
  | false =>
    rw [if_neg (by simp), hrecorded.staged]
    have hnone : ∀ r ∈ p.results m.registers, r.register.slot ≠ slot := by
      rintro r hr rfl
      obtain ⟨hwritten, hne⟩ := slot_of_mem_results hr
      have hval : r.register.slot.val ≠ Register.pc.slot.val := fun heq => hne (Fin.ext heq)
      simp [hwritten, hval] at hwrites
    have hprimed : (p.conditional.erase .pc).hasSlot slot.val = false := by
      rw [RegisterSet.hasSlot_erase] at hwrites ⊢
      cases hconditional : p.conditional.hasSlot slot.val with
      | false => rfl
      | true => rwa [hasSlot_writes_of_conditional hconditional] at hwrites
    refine (Result.applyAll_of_ne hnone _).trans ?_
    simp only [Guest.prime, hprimed, h.staged]
    rfl

/-! ### Loops and the program counter -/

theorem getLast?_targets_arranged (p : Packet) (before : RegisterFile) :
    (targets p.site before p.arranged).getLast? = p.target? before := by
  rw [targets, p.filterMap_arranged fun x hx => (Instruction.of_isDotNew hx).2.1 _ _, target?]

theorem writes_contains_pc_of_mem (h : p.writes.contains .pc = false) {x : Place}
    (hx : x ∈ p.places) : x.instruction.footprint.writes.contains .pc = false := by
  rw [RegisterSet.contains, hasSlot_writes] at h
  simpa [RegisterSet.contains] using List.any_eq_false.mp h x hx

theorem target?_eq_none (h : p.writes.contains .pc = false) (before : RegisterFile) :
    p.target? before = none := by
  have hnone : p.places.filterMap (fun x => x.instruction.target? (p.site x) before) = [] :=
    List.filterMap_eq_nil_iff.mpr fun x hx =>
      Instruction.target?_eq_none (writes_contains_pc_of_mem h hx)
  rw [target?, hnone]
  rfl

/-- What the commit leaves, as a guest whose registers are those behind the packet. -/
structure Committed (p : Packet) (m : Core) (pc : Word) (g : Guest) : Prop where
  live : g.live = Function.update (p.committed m.registers) Register.pc.slot
    ((p.target? m.registers).getD pc)
  staged : g.staged = fun _ => 0
  pcWritten : g.pcWritten = (p.target? m.registers).elim 0 fun _ => 1
  traps : g.traps = m.traps ++ p.traps

theorem committed_commit (h : g.Shows m) :
    p.Committed m (g.live Register.pc.slot)
      ((p.arranged.foldl (Place.act p.site) (g.prime (p.conditional.erase .pc))).commit
        (p.writes.erase .pc)) := by
  have hrecorded := recorded_arranged (p := p) h
  refine ⟨?_, staged_commit h hrecorded, ?_, ?_⟩
  · funext slot
    by_cases hslot : slot = Register.pc.slot
    · subst hslot
      have hpc : (p.writes.erase .pc).hasSlot Register.pc.slot.val = false := by simp
      simp only [Guest.commit, hpc, Function.update_self]
      rw [if_neg (by simp), hrecorded.live, getLast?_targets_arranged]
      cases p.target? m.registers <;> simp [Guest.prime]
    · rw [Function.update_of_ne hslot]
      exact live_commit h hrecorded hslot
  · show Guest.pcWritten _ = _
    refine hrecorded.pcWritten.trans ?_
    rw [getLast?_targets_arranged]
    exact congrArg (fun x => (p.target? m.registers).elim x fun _ => 1) h.pcWritten
  · refine hrecorded.traps.trans ?_
    rw [p.filterMap_arranged fun x hx => (Instruction.of_isDotNew hx).2.2]
    exact congrArg (· ++ p.traps) h.traps

namespace Committed

variable {pc : Word}

theorem live_of_ne (h : p.Committed m pc g) {slot : Fin 64} (hslot : slot ≠ Register.pc.slot) :
    g.live slot = p.committed m.registers slot := by
  rw [h.live, Function.update_of_ne hslot]

/-- A loop jumps back: the program goes on at its start, whatever branch was taken. -/
theorem shows_of_again (h : p.Committed m pc g) {start count : Register}
    (hloop : p.loopEnd.bind (·.again? (p.committed m.registers)) = some (start, count)) :
    ((g.jumpBack start count).resolvePc p.after).Shows (p.execute m) ∧
      ((g.jumpBack start count).resolvePc p.after).live Register.pc.slot = (p.execute m).pc := by
  obtain ⟨kind, -, hagain⟩ := Option.bind_eq_some_iff.mp hloop
  obtain ⟨hstart, hcount⟩ := LoopEnd.slot_of_again? hagain
  have hwritten : BitVec.slt 0#32 (g.pcWritten ||| 1#32) = true := by
    rw [h.pcWritten]
    cases p.target? m.registers <;> simp only [Option.elim_none, Option.elim_some] <;> decide
  refine ⟨⟨fun {slot} hslot => ?_, h.staged, rfl, ?_⟩, ?_⟩
  · by_cases hcounted : slot = count.slot
    · subst hcounted
      simp [execute, hloop, Guest.resolvePc, Guest.jumpBack, hcount, h.live_of_ne]
    · simp [execute, hloop, Guest.resolvePc, Guest.jumpBack, hslot, hcounted, h.live_of_ne]
  · simp [execute, hloop, Guest.resolvePc, Guest.jumpBack, h.traps]
  · simp [execute, hloop, Guest.resolvePc, Guest.jumpBack, hwritten, hcount.symm, Core.pc,
      h.live_of_ne hstart]

/-- No loop jumps back: the program goes on where the last branch led, or behind the packet. -/
theorem shows_of_onward (h : p.Committed m pc g)
    (hloop : p.loopEnd.bind (·.again? (p.committed m.registers)) = none) :
    (g.resolvePc p.after).Shows (p.execute m) ∧
      (g.resolvePc p.after).live Register.pc.slot = (p.execute m).pc := by
  refine ⟨⟨fun {slot} hslot => ?_, h.staged, rfl, ?_⟩, ?_⟩
  · simp [execute, hloop, Guest.resolvePc, hslot, h.live_of_ne]
  · simp [execute, hloop, Guest.resolvePc, h.traps]
  · simp only [execute, hloop, Guest.resolvePc, Core.pc, h.live, h.pcWritten, Function.update_self]
    cases p.target? m.registers <;> rfl

/-- The packet cannot change the program counter: it is not stored, and the program goes on behind
the packet. -/
theorem shows_of_not_changesPc (h : p.Committed m pc g) (hpc : p.changesPc = false) :
    g.Shows (p.execute m) ∧ (p.execute m).pc = p.after := by
  obtain ⟨hwrites, hloopEnd⟩ : p.writes.contains .pc = false ∧ p.loopEnd = none := by
    simpa [changesPc] using hpc
  have hloop : p.loopEnd.bind (·.again? (p.committed m.registers)) = none := by
    rw [hloopEnd]
    rfl
  have htarget := p.target?_eq_none hwrites m.registers
  refine ⟨⟨fun {slot} hslot => ?_, h.staged, ?_, ?_⟩, ?_⟩
  · simp [execute, hloop, hslot, h.live_of_ne]
  · rw [h.pcWritten, htarget]
    rfl
  · simp [execute, hloop, h.traps]
  · simp [execute, hloop, Core.pc, htarget]

end Committed

/-- **A lifted packet does what the packet means.** If it may change the program counter, it leaves
it where the program goes on; otherwise the program goes on behind the packet. -/
theorem shows_act (h : g.Shows m) : (p.act g).Shows (p.execute m) ∧
    if p.changesPc then (p.act g).live Register.pc.slot = (p.execute m).pc
    else (p.execute m).pc = p.after := by
  have hcommitted := committed_commit (p := p) h
  let committed := (p.arranged.foldl (Place.act p.site) (g.prime (p.conditional.erase .pc))).commit
    (p.writes.erase .pc)
  have hact : p.act g =
      let looped := p.loopEnd.elim committed committed.endLoops
      if p.changesPc then looped.resolvePc p.after else looped := rfl
  -- the loop counts are read behind the commit, where they are those of the packet's meaning
  have hloops : p.loopEnd.elim committed committed.endLoops =
      (p.loopEnd.bind (·.again? (p.committed m.registers))).elim committed
        fun loop => committed.jumpBack loop.1 loop.2 := by
    cases p.loopEnd with
    | none => rfl
    | some kind =>
      show committed.endLoops kind = _
      rw [Guest.endLoops_eq, hcommitted.live, LoopEnd.again?_update_pc]
      rfl
  rw [hact, hloops]
  cases hpc : p.changesPc with
  | false =>
    have hloopEnd : p.loopEnd = none := by
      simp only [changesPc, Bool.or_eq_false_iff, Option.isSome_eq_false_iff] at hpc
      exact Option.isNone_iff_eq_none.mp hpc.2
    rw [hloopEnd]
    exact hcommitted.shows_of_not_changesPc hpc
  | true =>
    cases hloop : p.loopEnd.bind (·.again? (p.committed m.registers)) with
    | none => exact hcommitted.shows_of_onward hloop
    | some loop => exact hcommitted.shows_of_again hloop

end Packet

end PacketLift
