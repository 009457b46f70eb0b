import PacketLift.Proofs.Packet.Semantics

/-!
# What packets do not depend on

A packet never looks at the traps before it. It reads the program counter only behind a branch, and
then a branch inside of the packet has written it. So two guests that differ in nothing else do the
same, and behind a packet that stores the program counter they do not differ there either. Staging
words may hold anything.

## Main definitions

* `Guest.Alike`: two guests that differ in earlier traps and a program counter at rest

## Main results

* `Packet.alike_act`: they stay so through a packet, and have the same program counter behind one
  that may branch
* `Packet.pcWritten_act`: packets that take no branch
-/

namespace PacketLift

/-- **Two guests that do the same**: the second has other traps in front, and unless a branch is
pending its program counter may be another. -/
structure Guest.Alike (earlier : List Word) (g g' : Guest) : Prop where
  live {slot : Fin 64} : slot ≠ Register.pc.slot → g'.live slot = g.live slot
  pc : g.pcWritten ≠ 0 → g'.live Register.pc.slot = g.live Register.pc.slot
  staged : g'.staged = g.staged
  pcWritten : g'.pcWritten = g.pcWritten
  pcTrace : g'.pcTrace = g.pcTrace
  traps : g'.traps = earlier ++ g.traps

namespace Guest.Alike

variable {earlier : List Word} {g g' : Guest}

theorem refl (g : Guest) : Alike [] g g where
  live _ := rfl
  pc _ := rfl
  staged := rfl
  pcWritten := rfl
  pcTrace := rfl
  traps := rfl

/-- Guests that are alike and have one program counter differ in traps only. -/
theorem eq_of_live_pc (h : Alike earlier g g')
    (hpc : g'.live Register.pc.slot = g.live Register.pc.slot) :
    g' = { g with traps := earlier ++ g.traps } := by
  have hlive : g'.live = g.live := by
    funext slot
    by_cases hslot : slot = Register.pc.slot
    · rw [hslot, hpc]
    · exact h.live hslot
  exact Guest.ext hlive h.staged h.pcWritten h.pcTrace h.traps

theorem setPcTrace (h : Alike earlier g g') (x : Word) :
    Alike earlier { g with pcTrace := x } { g' with pcTrace := x } where
  live := h.live
  pc := h.pc
  staged := h.staged
  pcWritten := h.pcWritten
  pcTrace := rfl
  traps := h.traps

theorem setPc (h : Alike earlier g g') (x : Word) : Alike earlier (g.setPc x) (g'.setPc x) where
  live hslot := by simp [Guest.setPc, hslot, h.live hslot]
  pc _ := (live_setPc g' x).trans (live_setPc g x).symm
  staged := h.staged
  pcWritten := h.pcWritten
  pcTrace := h.pcTrace
  traps := h.traps

/-- While no branch is pending, the program counter of one of the guests may be stored. -/
theorem setPc_left (h : Alike earlier g g') (hwritten : g.pcWritten = 0) (x : Word) :
    Alike earlier (g.setPc x) g' where
  live hslot := (h.live hslot).trans (Function.update_of_ne hslot _ _).symm
  pc hpending := absurd hwritten hpending
  staged := h.staged
  pcWritten := h.pcWritten
  pcTrace := h.pcTrace
  traps := h.traps

/-! ## Instructions -/

theorem instruction (h : Alike earlier g g') (site : Site) (i : Instruction) :
    Alike earlier (i.act site g) (i.act site g') := by
  have hresults := i.results_congr (fun _ => h.live) site (g.staged Register.p.slot)
  have htarget := i.target?_congr (fun _ => h.live) site
  rw [Instruction.act_eq, Instruction.act_eq, htarget, h.staged, hresults]
  constructor
  case live =>
    intro slot hslot
    cases i.target? site g.live <;> simp [hslot, h.live]
  case pc =>
    cases i.target? site g.live with
    | none => exact h.pc
    | some x => simp
  case staged => rfl
  case pcWritten => rw [h.pcWritten]
  case pcTrace => exact h.pcTrace
  case traps => rw [h.traps, List.append_assoc]

theorem place (h : Alike earlier g g') (site : Place → Site) (x : Place) :
    Alike earlier (x.act site g) (x.act site g') := by
  unfold Place.act
  cases x.code.isTraced with
  | false => exact h.instruction _ _
  | true => exact (h.setPcTrace _).instruction _ _

theorem places (h : Alike earlier g g') (site : Place → Site) (xs : List Place) :
    Alike earlier (xs.foldl (Place.act site) g) (xs.foldl (Place.act site) g') := by
  induction xs generalizing g g' with
  | nil => exact h
  | cons x xs ih => exact ih (h.place site x)

/-! ## Around the instructions -/

theorem prime (h : Alike earlier g g') {primed : RegisterSet}
    (hprimed : primed.hasSlot Register.pc.slot.val = false) :
    Alike earlier (g.prime primed) (g'.prime primed) where
  live := h.live
  pc := h.pc
  staged := by
    funext slot
    by_cases hslot : slot = Register.pc.slot
    · simp [Guest.prime, hslot, hprimed, h.staged]
    · simp [Guest.prime, h.live hslot, h.staged]
  pcWritten := h.pcWritten
  pcTrace := h.pcTrace
  traps := h.traps

theorem commit (h : Alike earlier g g') {committed : RegisterSet}
    (hcommitted : committed.hasSlot Register.pc.slot.val = false) :
    Alike earlier (g.commit committed) (g'.commit committed) where
  live hslot := by simp [Guest.commit, h.live hslot, h.staged]
  pc hwritten := by simpa [Guest.commit, hcommitted] using h.pc hwritten
  staged := by simp [Guest.commit, h.staged]
  pcWritten := h.pcWritten
  pcTrace := h.pcTrace
  traps := h.traps

theorem endLoops (h : Alike earlier g g') (kind : LoopEnd) :
    Alike earlier (g.endLoops kind) (g'.endLoops kind) := by
  have hagain := kind.again?_congr fun _ => h.live
  rw [endLoops_eq, endLoops_eq, hagain]
  cases hloop : kind.again? g.live with
  | none => exact h
  | some loop =>
    obtain ⟨hstart, hcount⟩ := LoopEnd.slot_of_again? hloop
    constructor
    case live =>
      intro slot hslot
      by_cases heq : slot = loop.2.slot
      · simp [jumpBack, heq, h.live hcount]
      · simp [jumpBack, heq, hslot, h.live hslot]
    case pc => simp [jumpBack, hcount.symm, h.live hstart]
    case staged => exact h.staged
    case pcWritten => simp [jumpBack, h.pcWritten]
    case pcTrace => exact h.pcTrace
    case traps => exact h.traps

/-- **Storing the program counter** makes it one. -/
theorem resolvePc (h : Alike earlier g g') (after : Word) :
    Alike earlier (g.resolvePc after) (g'.resolvePc after) ∧
      (g'.resolvePc after).live Register.pc.slot = (g.resolvePc after).live Register.pc.slot := by
  have hpc : (g'.resolvePc after).live Register.pc.slot =
      (g.resolvePc after).live Register.pc.slot := by
    simp only [Guest.resolvePc, Function.update_self, h.pcWritten]
    split_ifs with hpending
    · refine h.pc fun hzero => ?_
      rw [hzero] at hpending
      cases hpending
    · rfl
  refine ⟨?_, hpc⟩
  constructor
  case live =>
    intro slot hslot
    simp [Guest.resolvePc, hslot, h.live hslot]
  case pc => exact fun _ => hpc
  case staged => exact h.staged
  case pcWritten => rfl
  case pcTrace => exact h.pcTrace
  case traps => exact h.traps

theorem epilogue (h : Alike earlier g g') {committed : RegisterSet}
    (hcommitted : committed.hasSlot Register.pc.slot.val = false) (loopEnd : Option LoopEnd)
    (changesPc : Bool) (after : Word) :
    Alike earlier (g.epilogue committed loopEnd changesPc after)
      (g'.epilogue committed loopEnd changesPc after) ∧
    (changesPc = true → (g'.epilogue committed loopEnd changesPc after).live Register.pc.slot =
      (g.epilogue committed loopEnd changesPc after).live Register.pc.slot) := by
  have hlooped : Alike earlier (loopEnd.elim (g.commit committed) (g.commit committed).endLoops)
      (loopEnd.elim (g'.commit committed) (g'.commit committed).endLoops) := by
    cases loopEnd with
    | none => exact h.commit hcommitted
    | some kind => exact (h.commit hcommitted).endLoops kind
  cases changesPc with
  | false => exact ⟨hlooped, fun h => absurd h (by simp)⟩
  | true => exact ⟨(hlooped.resolvePc after).1, fun _ => (hlooped.resolvePc after).2⟩

end Guest.Alike

namespace Packet

/-- **Guests that are alike stay so through a packet**, and if it may change the program counter,
they then have the same one. -/
theorem alike_act (p : Packet) {earlier : List Word} {g g' : Guest} (h : g.Alike earlier g') :
    (p.act g).Alike earlier (p.act g') ∧ (p.changesPc = true →
      (p.act g').live Register.pc.slot = (p.act g).live Register.pc.slot) := by
  have hprimed : (p.conditional.erase .pc).hasSlot Register.pc.slot.val = false := by simp
  have hcommitted : (p.writes.erase .pc).hasSlot Register.pc.slot.val = false := by simp
  exact ((h.prime hprimed).places p.site p.arranged).epilogue hcommitted _ _ _

theorem pcWritten_foldl {site : Place → Site} {xs : List Place}
    (h : ∀ x ∈ xs, x.instruction.footprint.writes.contains .pc = false) (g : Guest) :
    (xs.foldl (Place.act site) g).pcWritten = g.pcWritten := by
  induction xs generalizing g with
  | nil => rfl
  | cons x xs ih =>
    rw [List.foldl_cons, ih fun y hy => h y (List.mem_cons_of_mem x hy), Place.act,
      Instruction.act_eq, Instruction.target?_eq_none (h x List.mem_cons_self)]
    cases x.code.isTraced <;> rfl

/-- **A packet that cannot change the program counter** takes no branch. -/
theorem pcWritten_act {p : Packet} (h : p.changesPc = false) (g : Guest) :
    (p.act g).pcWritten = g.pcWritten := by
  obtain ⟨hwrites, hloopEnd⟩ : p.writes.contains .pc = false ∧ p.loopEnd = none := by
    simpa [changesPc] using h
  rw [act, h, hloopEnd]
  exact pcWritten_foldl (fun x hx => writes_contains_pc_of_mem hwrites (mem_arranged.mp hx)) _

end Packet

end PacketLift
