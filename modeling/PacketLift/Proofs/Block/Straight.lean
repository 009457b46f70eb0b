import PacketLift.Block.Walk
import PacketLift.Proofs.Block.Effect
import PacketLift.Proofs.Block.Journal
import PacketLift.Proofs.Block.Success

/-!
# Walks and runs agree on straight code

A walk finds the next block without executing anything: it is directly behind the last one, as far
as the words go that were counted while lifting. A run goes where the program counter leads, and
that is a word of the CPU's state, written by the operations of the block. For a block that does not
end in a branch the two are the same address, also where addresses wrap around. So a walk lifts the
blocks that a run lifts, and stops at the same fault, up to and including the first block that ends
in a branch.

## Main definitions

* `Attempt`, `Walk.attempts`, `Run.attempts`: where lifting was tried, and what came of it
* `upToBranch`: attempts up to and including the first block that ends in a branch

## Main results

* `pc_run_of_exit_ne_branch`: where the program counter leads behind such a block
* `walk_eq_run_up_to_branch`: a walk is a run up to the first branch
-/

namespace PacketLift

/-! ## Attempts -/

/-- An address where lifting was tried, and what came of it. -/
structure Attempt where
  pc : Word
  result : Except Fault Block

/-- The attempts that led to the given blocks, and to the fault behind them. -/
def attempts (blocks : List Block) (fault : Option (Word × Fault)) : List Attempt :=
  blocks.map (fun b => ⟨b.entry, .ok b⟩) ++ fault.toList.map fun (pc, f) => ⟨pc, .error f⟩

/-- **Where a walk tried to lift a block.** -/
def Walk.attempts {State : Type} (w : Walk State) : List Attempt :=
  PacketLift.attempts w.blocks w.fault

/-- **Where a run tried to lift a block.** -/
def Run.attempts {State : Type} (r : Run State) : List Attempt :=
  PacketLift.attempts (r.blocks.map (·.block)) r.fault

/-- Whether the attempt gave a block that ends in a branch. -/
def Attempt.branches (a : Attempt) : Bool :=
  match a.result with
  | .ok block => decide (block.exit = .branch)
  | .error _ => false

/-- **The attempts up to and including the first block that ends in a branch.** -/
def upToBranch : List Attempt → List Attempt
  | [] => []
  | a :: rest => if a.branches then [a] else a :: upToBranch rest

/-! ## One block -/

/-- A run of a listing keeps the words of the layout. -/
theorem Cpu.Fits.run {cpu : Cpu} {layout : Layout} (h : cpu.Fits layout) (l : Listing) :
    (l.run cpu).2.Fits layout :=
  ((Machine.Fits.start h l.temps).run l.ops).cpu

theorem Cpu.pc_store {cpu : Cpu} {layout : Layout} (h : cpu.Fits layout)
    (hroom : layout.live .pc / 4 < layout.size / 4) (x : Word) :
    (cpu.store (layout.live .pc) x).pc = x := by
  have hlt : layout.live .pc / 4 < cpu.words.size := h.size.symm ▸ hroom
  simp only [pc, register, load, store, h.layout]
  rw [Array.getD_eq_getD_getElem?, Array.getElem?_setIfInBounds_self_of_lt hlt]
  rfl

/-- **Behind a block that does not end in a branch, the program counter leads directly behind it.**
The state may be any that has a word for the program counter; neither staged values nor a pending
branch make a difference. -/
theorem pc_run_of_exit_ne_branch {options : LiftOptions}
    (hroom : options.layout.live .pc / 4 < options.layout.size / 4) {fetch : Fetch} {entry : Word}
    {block : Block} {s s' : Session Nat}
    (h : (liftBlock scalarCore options fetch entry).Gives s block s')
    (hexit : block.exit ≠ .branch) {cpu : Cpu} (hcpu : cpu.Fits options.layout) :
    (block.listing.run cpu).1.exited = true ∧ (block.listing.run cpu).2.pc = block.after := by
  obtain ⟨packets, es, hfrom, -, hrep, hops, htemps⟩ :=
    exists_packets_of_liftBlock onlyAppends_scalarCore h
  have hall : block.listing.ops = packetsOps (guestTemps options.layout).length packets
      ++ [.set Global.pc block.after, .exitBlock] := by
    rw [hrep.ops_eq, hops, storeOps, if_neg hexit, List.append_assoc]
    rfl
  have hbinds : options.layout.Binds block.listing.temps := by
    rw [htemps]
    exact Layout.binds_guestTemps _ fun t ht => hfrom.eq_scratch ht
  -- the store of the program counter comes last, so nothing else can be in its way
  let before := (Machine.start block.listing.temps cpu).run block.listing.temps
    (packetsOps (guestTemps options.layout).length packets)
  have hbefore : before.cpu.Fits options.layout := ((Machine.Fits.start hcpu _).run _).cpu
  have hrun : (Machine.start block.listing.temps cpu).run block.listing.temps block.listing.ops =
      (before.step block.listing.temps (.set Global.pc block.after)).step block.listing.temps
        .exitBlock := by
    rw [hall, Machine.run_append fun op hop => hfrom.ne_exitBlock hop]
    rfl
  have hoffset : options.layout.offset? (.of Global.pc) = some (options.layout.live .pc) :=
    congrArg some (options.layout.offset_ofSlot .pc).1
  obtain ⟨name, hglobal⟩ := hbinds.global hoffset
  have hcpu' : (block.listing.run cpu).2 =
      before.cpu.store (options.layout.live .pc) block.after := by
    simp only [Listing.run, hrun, Machine.step, Machine.effect, Machine.write, hglobal]
  constructor
  · simp only [Listing.run, hrun]
    rfl
  · rw [hcpu']
    exact Cpu.pc_store hbefore hroom block.after

/-- A block is the one at the address where it was lifted. -/
theorem entry_of_liftBlock {isa : InstructionSet} {options : LiftOptions} {fetch : Fetch}
    {pc : Word} {block : Block} {s s' : Session isa.State}
    (h : (liftBlock isa options fetch pc).Gives s block s') : block.entry = pc := by
  obtain ⟨-, b, exit, after, t, -, rfl, -⟩ := gives_liftBlock_iff.mp h
  rfl

/-! ## Block after block -/

/-- **A walk and a run from the same address**, in sessions that differ in their journals at most:
the walk makes the attempts of the run up to the first branch. -/
theorem attempts_walk_eq {options : LiftOptions}
    (hroom : options.layout.live .pc / 4 < options.layout.size / 4) {fetch : Fetch}
    {report : Executed → List Message} {limit : Nat} {pc : Word} {cpu : Cpu}
    (hcpu : cpu.Fits options.layout) {s t : Session scalarCore.State} (hstate : s.state = t.state) :
    (walk (liftReporting scalarCore options fetch) limit pc s).attempts =
      upToBranch (run (liftReporting scalarCore options fetch) report limit pc cpu t).attempts := by
  -- on the number of blocks: both lift at `pc`, and what comes behind starts at the same address
  induction limit generalizing pc cpu s t with
  | zero => rfl
  | succ limit ih =>
    obtain ⟨hresult, hleft⟩ := ignoresJournal_liftReporting options fetch pc s t hstate
    rw [walk, run]
    rcases hs : (liftReporting scalarCore options fetch pc).run s with ⟨result, s'⟩
    rcases ht : (liftReporting scalarCore options fetch pc).run t with ⟨result', t'⟩
    rw [hs, ht] at hresult hleft
    obtain rfl : result = result' := hresult
    cases result with
    | error fault => rfl
    | ok block =>
      simp only
      split_ifs with hexit
      · simp [Walk.attempts, Run.attempts, attempts, upToBranch, Attempt.branches, hexit]
      · have hgoes : (Attempt.mk block.entry (.ok block)).branches = false := by
          simp [Attempt.branches, hexit]
        have hpc := (pc_run_of_exit_ne_branch hroom (gives_liftBlock_of_liftReporting hs) hexit
          hcpu).2
        show ⟨block.entry, .ok block⟩ :: (walk _ limit block.after s').attempts =
          upToBranch (⟨block.entry, .ok block⟩ :: (run _ report limit _ _ _).attempts)
        rw [upToBranch, hgoes, hpc, if_neg Bool.false_ne_true]
        exact congrArg _ (ih (hcpu.run block.listing) hleft)

/-- **A walk of the scalar core is a run up to the first branch**, for any memory, entry, budget and
number of blocks, and any layout that has a word for the program counter, as the packed one does.
Walk and run lift at the same addresses, and get the same blocks or the same fault, for as long as
no block ends in a branch; behind the first block that does, the walk stops. For a lifted block is
the one at its address; and if it does not end in a branch, then evaluating it on any state of the
layout leaves the block with the program counter directly behind it. -/
theorem walk_eq_run_up_to_branch (options : LiftOptions)
    (hroom : options.layout.live .pc / 4 < options.layout.size / 4) (fetch : Fetch) (entry : Word)
    (limit : Nat) (report : Executed → List Message) (cpu : Cpu) (hcpu : cpu.Fits options.layout)
    (session : Session Nat) :
    (walk (liftReporting scalarCore options fetch) limit entry session).attempts =
      upToBranch
        (run (liftReporting scalarCore options fetch) report limit entry cpu session).attempts ∧
    ∀ (pc : Word) (s : Session Nat) (block : Block) (s' : Session Nat),
      (liftReporting scalarCore options fetch pc).run s = (.ok block, s') →
        block.entry = pc ∧ (block.exit ≠ .branch → ∀ env : Cpu, env.Fits options.layout →
          (block.listing.run env).1.exited = true ∧
          (block.listing.run env).2.pc = block.after) := by
  refine ⟨attempts_walk_eq hroom hcpu rfl, ?_⟩
  intro pc s block s' h
  have hblock := gives_liftBlock_of_liftReporting h
  refine ⟨entry_of_liftBlock hblock, ?_⟩
  intro hexit env henv
  exact pc_run_of_exit_ne_branch hroom hblock hexit henv

/-- A program at both ends of memory: two words at the top, the second of which traps, and a jump to
itself at the bottom. -/
def wrappedProgram : Fetch
  | 0xFFFFFFF8 => some 0xF301C201 -- r1 = add(r1, r2)
  | 0xFFFFFFFC => some 0x5400C000 -- trap0(#0)
  | 0 => some 0x5800C000 -- jump
  | _ => none

theorem walk_eq_run_up_to_branch_wrappedProgram :
    let options : LiftOptions := { maxPackets := 1, layout := .packed }
    let cpu := (Cpu.zeroed .packed).setPc 0xFFFFFFF8
    let w := walk (liftReporting scalarCore options wrappedProgram) 5 0xFFFFFFF8 ⟨(0 : Nat), #[]⟩
    let r := run (liftReporting scalarCore options wrappedProgram) (fun _ => []) 5 0xFFFFFFF8 cpu
      ⟨(0 : Nat), #[]⟩
    w.blocks.map (fun b => (b.entry, b.exit)) =
        [(0xFFFFFFF8, .budget), (0xFFFFFFFC, .trap), (0, .branch)] ∧
      r.attempts.map (·.pc) = [0xFFFFFFF8, 0xFFFFFFFC, 0, 0, 0] ∧ cpu.Fits .packed ∧
      w.attempts = upToBranch r.attempts := by
  intro options cpu w r
  have hcpu : cpu.Fits .packed :=
    ⟨by simp [cpu, Cpu.setPc, Cpu.setRegister, Cpu.store, Cpu.zeroed], rfl⟩
  have hwalk : w.blocks.map (fun b => (b.entry, b.exit)) =
      [(0xFFFFFFF8, .budget), (0xFFFFFFFC, .trap), (0, .branch)] := by
    decide +kernel
  have hrun : r.attempts.map (·.pc) = [0xFFFFFFF8, 0xFFFFFFFC, 0, 0, 0] := by
    decide +kernel
  exact ⟨hwalk, hrun, hcpu, (walk_eq_run_up_to_branch options (by decide) wrappedProgram
    0xFFFFFFF8 5 (fun _ => []) cpu hcpu ⟨(0 : Nat), #[]⟩).1⟩

end PacketLift
