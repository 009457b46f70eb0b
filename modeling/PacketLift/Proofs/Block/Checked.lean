import PacketLift.Proofs.Block.Faults
import PacketLift.Proofs.Packet.CheckedClosing

/-!
# Lifting a block with all conditions checked

A block is lifted packet by packet, and every packet is closed on the listing that the packets
before it have left. So the conditions for closing a packet are discharged far from where they are
relied on: by the ranges that were recorded while the packet was read, and by all the moves that
were made before.

This module lifts a block with these conditions checked, and stops at the first violation. For any
instruction set that only appends to the listing and builds its footprints step by step, lifting
never stops there, and it comes to the same with the checks as without, faults included.

## Main definitions

* `InstructionSet.Extends`, `InstructionSet.BuildsFootprints`: what instruction sets have to keep to
* `CheckedLift`: computations that may also stop at a violation
* `Checked.finishPacket`, `Checked.liftPacket`, `Checked.liftPackets`, `Checked.liftBlock`,
  `Checked.liftReporting`
* `CheckedLift.Clean`: a checked computation that comes to what the plain one comes to
* `Build.CanClose`: the packet that was read can be closed

## Main results

* `LiftsPlaces.exists_covers`: the records of a packet hold ranges behind its anchor
* `clean_finishPacket`, `clean_liftPacket`, `clean_liftPackets`: one packet, and all of them
* `lifting_violates_nothing`: blocks
-/

namespace PacketLift

/-- **An instruction set that extends listings**: whatever operations an instruction becomes, they
are put at the end of the listing, and so are the temporaries it declares. -/
def InstructionSet.Extends (isa : InstructionSet) : Prop :=
  ∀ (i : isa.Insn) (site : Site) (l : Listing) (s : isa.State), ∃ ops ts,
    (isa.execute i site l s).listing = l.extend ops ts

/-- **An instruction set that builds its footprints** step by step. -/
def InstructionSet.BuildsFootprints (isa : InstructionSet) : Prop :=
  ∀ (i : isa.Insn) (site : Site) (l : Listing) (s : isa.State),
    (isa.execute i site l s).footprint.Built

/-- **Computations on a session that may end in a fault or stop at a violation.** -/
abbrev CheckedLift (State : Type) := ExceptT Violation (Lift State)

/-! ## Lifting -/

namespace Checked

/-- **Close the packet whose last word is at `pc`**, with all conditions checked. -/
def finishPacket {State : Type} (pc : Word) (b : Build) : CheckedLift State Build := do
  if let some pending := b.draft.extender then
    throwThe Fault (.danglingExtender pending.pc)
  let result ← closePacket b.draft.roster (b.draft.site pc) b.listing
  let (closing, listing) ← ExceptT.lift (liftM result)
  ExceptT.lift (Lift.noteAll (closing.messages b.draft.roster (b.draft.site pc)))
  return b.finished closing listing

/-- **Lift the packet at `pc`**, with all conditions checked when it closes. -/
def liftPacket (isa : InstructionSet) (fetch : Fetch) (pc : Word) (b : Build) :
    CheckedLift isa.State Build := do
  let nextPc ← ExceptT.lift (liftM (addressBehind fetch pc))
  let ahead := window fetch pc readLimit
  let b ← ExceptT.lift (liftWords isa pc (b.opened pc nextPc) ahead.words)
  match ahead.ending with
  | .closed => finishPacket (pc + 4 * BitVec.ofNat 32 (ahead.words.length - 1)) b
  | .unmapped address => throwThe Fault (.unmapped address)
  | .unfinished => throwThe Fault (.packetFull Roster.capacity pc)

/-- **Lift packets from `pc` on**, at most `budget` and one more. -/
def liftPackets (isa : InstructionSet) (fetch : Fetch) (pc : Word) (b : Build) :
    (budget : Nat) → CheckedLift isa.State (Build × BlockExit × Word)
  | 0 => do
    let after ← liftPacket isa fetch pc b
    return (after, after.exit.getD .budget, pc + 4 * (after.words - b.words))
  | budget + 1 => do
    let after ← liftPacket isa fetch pc b
    let nextPc := pc + 4 * (after.words - b.words)
    match after.exit with
    | some exit => return (after, exit, nextPc)
    | none => liftPackets isa fetch nextPc after budget

/-- **Lift the block at `entry`.** -/
def liftBlock (isa : InstructionSet) (options : LiftOptions) (fetch : Fetch) (entry : Word) :
    CheckedLift isa.State Block := do
  if entry &&& 3 != 0 then
    throwThe Fault (.misaligned entry)
  let empty : Build := { listing := .forGuest options.layout }
  let (b, exit, pc) ← liftPackets isa fetch entry empty (options.maxPackets - 1)
  let block := b.block entry exit pc
  ExceptT.lift (Lift.note block.message)
  return block

/-- Lift the block at `entry`, with a fault reported in the journal. -/
def liftReporting (isa : InstructionSet) (options : LiftOptions) (fetch : Fetch) (entry : Word) :
    CheckedLift isa.State Block :=
  tryCatchThe Fault (liftBlock isa options fetch entry) fun fault => do
    ExceptT.lift (Lift.note fault.report)
    throwThe Fault fault

end Checked

/-! ## Clean computations -/

/-- **A checked computation that violates nothing** from a session on: it comes to what the plain
one comes to, be it a result or a fault, and leaves the same session. -/
def CheckedLift.Clean {State α : Type} (c : CheckedLift State α) (x : Lift State α)
    (s : Session State) : Prop :=
  c.run.run s = (ExceptT.lift x : CheckedLift State α).run.run s

namespace CheckedLift.Clean

variable {State α β : Type} {s : Session State}

theorem lift (x : Lift State α) : Clean (ExceptT.lift x) x s := rfl

theorem pure (a : α) : Clean (Pure.pure a) (Pure.pure a) s := rfl

theorem throw (fault : Fault) :
    Clean (throwThe Fault fault : CheckedLift State α) (MonadExcept.throw fault) s := rfl

/-- What a plain computation comes to where violations could stop it. -/
theorem run_lift (x : Lift State α) (s : Session State) :
    (ExceptT.lift x : CheckedLift State α).run.run s =
      ((x.run s).1.map Except.ok, (x.run s).2) := by
  show (Except.ok <$> x : Lift State (Except Violation α)).run s = _
  rw [ExceptT.run_map]
  rfl

/-- One step behind the other. -/
theorem bind {c : CheckedLift State α} {x : Lift State α} {f : α → CheckedLift State β}
    {g : α → Lift State β} (hc : Clean c x s)
    (hf : ∀ a t, x.Gives s a t → Clean (f a) (g a) t) : Clean (c >>= f) (x >>= g) s := by
  have hchecked : (c >>= f).run.run s =
      ExceptT.bindCont (ExceptT.bindCont f) (c.run.run s).1 (c.run.run s).2 := rfl
  have hplain : (x >>= g).run s = ExceptT.bindCont g (x.run s).1 (x.run s).2 := rfl
  unfold Clean at hc ⊢
  rw [hchecked, run_lift, hc, run_lift, hplain]
  rcases hx : x.run s with ⟨fault | a, t⟩
  · rfl
  · exact (hf a t hx).trans (run_lift (g a) t)

/-- A check that holds leaves no trace. -/
theorem check {e : Except Violation α} {a : α} (he : e = .ok a) {f : α → CheckedLift State β}
    {x : Lift State β} (h : Clean (f a) x s) : Clean (liftM e >>= f) x s := by
  subst he
  exact h

/-- A fault is handled in the same way. -/
theorem tryCatch {c : CheckedLift State α} {x : Lift State α} {f : Fault → CheckedLift State α}
    {g : Fault → Lift State α} (hc : Clean c x s) (hf : ∀ fault t, Clean (f fault) (g fault) t) :
    Clean (tryCatchThe Fault c f) (MonadExcept.tryCatch x g) s := by
  have hchecked : (tryCatchThe Fault c f).run = MonadExcept.tryCatch c.run fun e => (f e).run := rfl
  unfold Clean at hc ⊢
  rw [hchecked, run_lift, ExceptT.run_tryCatch, ExceptT.run_tryCatch]
  simp only [Bind.bind, StateT.bind]
  rw [run_lift] at hc
  rw [hc]
  rcases x.run s with ⟨fault | a, t⟩
  · exact (hf fault t).trans (run_lift (g fault) t)
  · rfl

end CheckedLift.Clean

/-! ## Reading words -/

variable {isa : InstructionSet}

/-- An instruction is lifted behind what is in the listing, with its address stored or not. -/
theorem InstructionSet.Extends.exists_lift (hext : isa.Extends) (p : Progress) (i : isa.Insn)
    (site : Site) (trace : Bool) (s : isa.State) :
    ∃ ops ts, (p.lift isa i site trace s).listing = p.listing.extend ops ts := by
  cases trace with
  | false => exact hext i site p.listing s
  | true =>
    obtain ⟨ops, ts, hops⟩ := hext i site (p.listing.append (.set Global.pcTrace site.pc)) s
    rw [Listing.append_eq_extend, Listing.extend_extend] at hops
    exact ⟨_, _, hops⟩

/-- **The records of a packet hold ranges** that stand one behind the other, behind its anchor. -/
theorem LiftsPlaces.exists_covers {packetPc nextPc : Word} {p q : Progress} {ps : List Place}
    (h : LiftsPlaces isa packetPc nextPc p ps q) (hext : isa.Extends) {front : List Entry}
    {ranges : List (List Entry)} (hp : p.Covers front ranges) :
    ∃ ranges, q.Covers front ranges := by
  induction h generalizing ranges with
  | nil => exact ⟨ranges, hp⟩
  | cons t s _ _ ih =>
    obtain ⟨ops, ts, hops⟩ := hext.exists_lift _ _ _ _ s
    exact ih (hp.lift_of_extend hops)

/-- **The targets of a packet are written** as long as footprints are built step by step. -/
theorem LiftsPlaces.targetsWritten {packetPc nextPc : Word} {p q : Progress} {ps : List Place}
    (h : LiftsPlaces isa packetPc nextPc p ps q) (hbuilt : isa.BuildsFootprints)
    (hp : p.roster.TargetsWritten) : q.roster.TargetsWritten := by
  induction h with
  | nil => exact hp
  | cons t s _ _ ih => exact ih (hp.add (hbuilt _ _ _ _))

/-- **The packet that was read can be closed**: its records hold the ranges behind its anchor, and
their targets are written. -/
structure Build.CanClose (b : Build) (front : List Entry) (ranges : List (List Entry)) : Prop where
  covers : b.progress.Covers front ranges
  anchor : b.draft.anchor = (front.map Entry.id).getLastD 0
  targets : b.draft.roster.TargetsWritten

/-- **A packet can be closed when its words have been read** and no extender waits. -/
theorem exists_canClose_of_liftWords (hext : isa.Extends) (hbuilt : isa.BuildsFootprints)
    {pc nextPc : Word} {b b' : Build} {words : List Word} {s s' : Session isa.State}
    (h : (liftWords isa pc (b.opened pc nextPc) words).Gives s b' s')
    (hextender : b'.draft.extender = none) {es : List Entry} (hes : b.listing.Represents es) :
    ∃ front ranges, b'.CanClose front ranges := by
  obtain ⟨ps, -, hplaces, hframe⟩ := exists_places_of_liftWords h hextender
  have hopened := hes.append (.packetStart pc)
  have hcovers : (b.opened pc nextPc).progress.Covers
      (es ++ [⟨b.listing.nodes.size, .packetStart pc⟩]) [] :=
    ⟨(List.append_nil _).symm ▸ hopened, .nil⟩
  obtain ⟨ranges, hranges⟩ := hplaces.exists_covers hext hcovers
  rw [Build.foldl_countWord] at hframe
  have hanchor : b'.draft.anchor = (b.listing.append (.packetStart pc)).lastId :=
    congrArg (·.draft.anchor) hframe
  exact ⟨_, ranges, hranges, hanchor.trans hopened.lastId_eq,
    hplaces.targetsWritten hbuilt Roster.targetsWritten_empty⟩

/-! ## Packets and blocks -/

/-- A closed packet leaves a proper listing. -/
theorem exists_represents_of_liftPacket (hext : isa.Extends) (hbuilt : isa.BuildsFootprints)
    {fetch : Fetch} {pc : Word} {b b' : Build} {s s' : Session isa.State}
    (h : (liftPacket isa fetch pc b).Gives s b' s') {es : List Entry}
    (hes : b.listing.Represents es) : ∃ es', b'.listing.Represents es' := by
  obtain ⟨nextPc, words, b₁, s₁, -, -, hwords, hfinish⟩ := gives_liftPacket_iff.mp h
  obtain ⟨hextender, closing, listing, hclose, rfl⟩ :=
    exists_gives_finishPacket.mp ⟨s', hfinish⟩
  obtain ⟨front, ranges, hcan⟩ := exists_canClose_of_liftWords hext hbuilt hwords hextender hes
  obtain ⟨order, horder⟩ := exists_schedule_of_closePacket hclose
  obtain ⟨prime, epilogue, l', hclosed, hrep, -⟩ :=
    closePacket_represents hcan.covers.listing hcan.covers.records hcan.anchor horder
  obtain ⟨-, rfl⟩ := Prod.mk.inj (Except.ok.inj (hclosed.symm.trans hclose))
  exact ⟨_, hrep⟩

section Clean

open CheckedLift

theorem clean_finishPacket {State : Type} (pc : Word) {b : Build} {s : Session State}
    (h : b.draft.extender = none → ∃ front ranges, b.CanClose front ranges) :
    Clean (Checked.finishPacket pc b) (finishPacket pc b) s := by
  unfold Checked.finishPacket finishPacket
  -- a packet that ends with an extender is not closed, so nothing is asked of it
  cases hextender : b.draft.extender with
  | some pending => exact .bind (.throw _) fun _ _ hthrow => absurd hthrow Lift.not_gives_throw
  | none =>
    obtain ⟨front, ranges, hcan⟩ := h hextender
    have hclose : Checked.closePacket b.draft.roster (b.draft.site pc) b.listing = .ok _ :=
      Checked.closePacket_eq hcan.covers.listing hcan.covers.records hcan.anchor hcan.targets
    exact .check hclose (.bind (.lift _) fun _ _ _ => .bind (.lift _) fun _ _ _ => .pure _)

theorem clean_liftPacket (hext : isa.Extends) (hbuilt : isa.BuildsFootprints) (fetch : Fetch)
    (pc : Word) {b : Build} {es : List Entry} (hes : b.listing.Represents es)
    (s : Session isa.State) :
    Clean (Checked.liftPacket isa fetch pc b) (liftPacket isa fetch pc b) s := by
  refine .bind (.lift _) fun nextPc t _ => .bind (.lift _) fun b' t' hwords => ?_
  cases (window fetch pc readLimit).ending with
  | closed =>
    exact clean_finishPacket _ fun hextender =>
      exists_canClose_of_liftWords hext hbuilt hwords hextender hes
  | unmapped address => exact .throw _
  | unfinished => exact .throw _

/-- **Packet after packet**: each leaves a proper listing to the next one. -/
theorem clean_liftPackets (hext : isa.Extends) (hbuilt : isa.BuildsFootprints) (fetch : Fetch)
    (pc : Word) {b : Build} {es : List Entry} (hes : b.listing.Represents es) (budget : Nat)
    (s : Session isa.State) :
    Clean (Checked.liftPackets isa fetch pc b budget) (liftPackets isa fetch pc b budget) s := by
  induction budget generalizing pc b es s with
  | zero => exact .bind (clean_liftPacket hext hbuilt fetch pc hes s) fun _ _ _ => .pure _
  | succ budget ih =>
    refine .bind (clean_liftPacket hext hbuilt fetch pc hes s) fun after t hpacket => ?_
    cases hexit : after.exit with
    | some exit => exact .pure _
    | none =>
      obtain ⟨es', hes'⟩ := exists_represents_of_liftPacket hext hbuilt hpacket hes
      exact ih _ hes' t

theorem clean_liftBlock (hext : isa.Extends) (hbuilt : isa.BuildsFootprints) (options : LiftOptions)
    (fetch : Fetch) (entry : Word) (s : Session isa.State) :
    Clean (Checked.liftBlock isa options fetch entry) (liftBlock isa options fetch entry) s := by
  unfold Checked.liftBlock liftBlock
  split_ifs
  · exact .bind (.throw _) fun _ _ hthrow => absurd hthrow Lift.not_gives_throw
  · refine .bind (clean_liftPackets hext hbuilt fetch entry
      (represents_forGuest options.layout) _ s) ?_
    rintro ⟨b, exit, pc⟩ t -
    exact .bind (.lift _) fun _ _ _ => .pure _

end Clean

/-! ## The scalar core -/

theorem extends_scalarCore : scalarCore.Extends := fun i site l s =>
  ⟨_, _, Instruction.listing_execute i site l s⟩

theorem Instruction.built_footprint (i : Instruction) : i.footprint.Built := by
  cases i with
  | nop => exact .none
  | unknown word => exact .none
  | trap number => exact .none
  | compareEqual pd rs rt => exact .withConditional _ (.withRead _ .none)
  | predicatedAdd rd rs rt pu invert dotNew =>
    cases dotNew with
    | false => exact .withConditional _ .none
    | true => exact .withRead _ (.withConditional _ .none)
  | call offset => exact .withWrite _ (.withWrite _ .none)
  | jumpIf pu invert offset => exact .withConditional _ .none
  | loopSetup which rs offset => exact .withWrite _ (.withWrite _ .none)
  | _ => exact .withWrite _ .none

theorem buildsFootprints_scalarCore : scalarCore.BuildsFootprints := fun i site l s =>
  (Instruction.footprint_execute i site l s).symm ▸ i.built_footprint

/-! ## All blocks -/

/-- **Lifting a block violates nothing**, for any memory, entry and budget, and for any decoder and
instruction set that only appends to the listing and builds its footprints step by step. When each
packet of the block closes, every look-up by place finds something in its table, every span that is
moved is a run of linked operations without the head and without the operation it goes behind, and
every target on the roster is among the registers that the packet writes. So lifting with all this
checked is lifting as it is: the same block or fault, the same session, and never a violation. -/
theorem lifting_violates_nothing (isa : InstructionSet) (hext : isa.Extends)
    (hbuilt : isa.BuildsFootprints) (options : LiftOptions) (fetch : Fetch) (entry : Word) :
    Checked.liftReporting isa options fetch entry =
        ExceptT.lift (liftReporting isa options fetch entry) ∧
      ∀ s violation s', (Checked.liftReporting isa options fetch entry).run.run s ≠
        (.ok (.error violation), s') := by
  have hclean : ∀ s, CheckedLift.Clean (Checked.liftReporting isa options fetch entry)
      (liftReporting isa options fetch entry) s := fun s =>
    .tryCatch (clean_liftBlock hext hbuilt options fetch entry s) fun _ _ =>
      .bind (.lift _) fun _ _ _ => .throw _
  refine ⟨funext hclean, fun s violation s' h => ?_⟩
  have hrun := h.symm.trans ((hclean s).trans (CheckedLift.Clean.run_lift _ s))
  rcases hplain : (liftReporting isa options fetch entry).run s with ⟨fault | block, t⟩ <;>
    rw [hplain] at hrun <;> cases hrun

/-- The scalar core keeps to both conditions. Here it lifts a packet that runs in a new order and
primes three registers. -/
theorem lifting_violates_nothing_lateAdditions :
    scalarCore.Extends ∧ scalarCore.BuildsFootprints ∧
      (Checked.liftReporting scalarCore { maxPackets := 1 } lateAdditions 0 =
          ExceptT.lift (liftReporting scalarCore { maxPackets := 1 } lateAdditions 0) ∧
        ∀ s violation s', (Checked.liftReporting scalarCore { maxPackets := 1 } lateAdditions
          0).run.run s ≠ (.ok (.error violation), s')) ∧
      ((liftReporting scalarCore { maxPackets := 1 } lateAdditions 0).run
        ⟨(0 : Nat), #[]⟩).1.toOption.map (·.packets.map fun info =>
          (info.closing.order, info.closing.primed.toList.length)) = some [([1, 2, 0, 3], 3)] :=
  ⟨extends_scalarCore, buildsFootprints_scalarCore,
    lifting_violates_nothing scalarCore extends_scalarCore buildsFootprints_scalarCore
      { maxPackets := 1 } lateAdditions 0, by decide +kernel⟩

end PacketLift
