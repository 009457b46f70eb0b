import Mathlib.Tactic.SplitIfs
import PacketLift.Block.Lift

/-!
# The journal is only written

Lifting puts messages into the journal and never looks at those that are there. So two sessions that
differ in their journals give the same blocks and the same faults, whatever the instruction set.
Each primitive step is shown to be of this kind, and the steps of a block are put together from
them.

## Main definitions

* `Lift.IgnoresJournal`: what is given does not depend on the journal

## Main results

* `Lift.IgnoresJournal.bind`, `Lift.IgnoresJournal.tryCatch`: one step behind the other
* `ignoresJournal_liftBlock`, `ignoresJournal_liftReporting`: lifting a block
-/

namespace PacketLift

namespace Lift

variable {State α β : Type}

/-- **What a computation gives does not depend on the journal**, and neither does the state of the
instruction set that it leaves. -/
def IgnoresJournal (x : Lift State α) : Prop :=
  ∀ s t : Session State, s.state = t.state →
    (x.run s).1 = (x.run t).1 ∧ (x.run s).2.state = (x.run t).2.state

namespace IgnoresJournal

theorem except (e : Except Fault α) : IgnoresJournal (liftM e : Lift State α) :=
  fun _ _ h => ⟨rfl, h⟩

theorem pure (a : α) : IgnoresJournal (Pure.pure a : Lift State α) := fun _ _ h => ⟨rfl, h⟩

theorem throw (fault : Fault) : IgnoresJournal (MonadExcept.throw fault : Lift State α) :=
  fun _ _ h => ⟨rfl, h⟩

/-- What stands behind a fault does not run. -/
theorem throw_bind (fault : Fault) (f : α → Lift State β) :
    IgnoresJournal (MonadExcept.throw fault >>= f) :=
  fun _ _ h => ⟨rfl, h⟩

theorem note (m : Message) : IgnoresJournal (Lift.note m : Lift State Unit) :=
  fun _ _ h => ⟨rfl, h⟩

theorem withState (f : State → α × State) : IgnoresJournal (Lift.withState f) := by
  intro s t h
  show Except.ok (f s.state).1 = Except.ok (f t.state).1 ∧ (f s.state).2 = (f t.state).2
  rw [h]
  exact ⟨rfl, rfl⟩

/-- **One step behind the other.** -/
theorem bind {x : Lift State α} {f : α → Lift State β} (hx : IgnoresJournal x)
    (hf : ∀ a, IgnoresJournal (f a)) : IgnoresJournal (x >>= f) := by
  intro s t h
  have hrun : ∀ u, (x >>= f).run u = ExceptT.bindCont f (x.run u).1 (x.run u).2 := fun _ => rfl
  obtain ⟨hresult, hstate⟩ := hx s t h
  rw [hrun, hrun, hresult]
  cases (x.run t).1 with
  | error fault => exact ⟨rfl, hstate⟩
  | ok a => exact hf a _ _ hstate

theorem tryCatch {x : Lift State α} {handle : Fault → Lift State α} (hx : IgnoresJournal x)
    (hhandle : ∀ fault, IgnoresJournal (handle fault)) :
    IgnoresJournal (MonadExcept.tryCatch x handle) := by
  intro s t h
  have hrun : ∀ u, (MonadExcept.tryCatch x handle).run u =
      match x.run u with
      | (.ok a, u') => (.ok a, u')
      | (.error fault, u') => (handle fault).run u' := by
    intro u
    rw [ExceptT.run_tryCatch]
    simp only [Bind.bind, StateT.bind]
    rcases x.run u with ⟨fault | a, u'⟩ <;> rfl
  obtain ⟨hresult, hstate⟩ := hx s t h
  rw [hrun, hrun]
  rcases hs : x.run s with ⟨result, s'⟩
  rcases ht : x.run t with ⟨result', t'⟩
  rw [hs, ht] at hresult hstate
  obtain rfl : result = result' := hresult
  cases result with
  | error fault => exact hhandle fault s' t' hstate
  | ok a => exact ⟨rfl, hstate⟩

theorem noteAll (ms : List Message) : IgnoresJournal (Lift.noteAll ms : Lift State Unit) := by
  induction ms with
  | nil => exact .pure ()
  | cons m ms ih => exact .bind (.note m) fun _ => ih

end IgnoresJournal

end Lift

/-! ## Lifting -/

open Lift (IgnoresJournal)

variable {isa : InstructionSet}

theorem ignoresJournal_liftInstruction (i : isa.Insn) (word pc : Word) (extender : Option Word)
    (trace : Bool) (b : Build) :
    IgnoresJournal (liftInstruction isa i word pc extender trace b) := by
  unfold liftInstruction
  refine .bind (.withState _) fun done => ?_
  refine .bind (.noteAll _) fun _ => ?_
  exact .bind (.except _) fun roster => .pure _

theorem ignoresJournal_readWord (w pc : Word) (b : Build) :
    IgnoresJournal (readWord isa w pc b) := by
  unfold readWord
  split_ifs
  · cases b.draft.extender with
    | some pending => exact .throw _
    | none => exact .pure _
  · refine .bind (.except _) fun duplex => ?_
    refine .bind (.withState _) fun upper => ?_
    refine .bind (.withState _) fun lower => ?_
    refine .bind (ignoresJournal_liftInstruction _ _ _ _ _ _) fun b => ?_
    exact ignoresJournal_liftInstruction _ _ _ _ _ _
  · refine .bind (.withState _) fun i => ?_
    exact ignoresJournal_liftInstruction _ _ _ _ _ _

theorem ignoresJournal_liftWords (pc : Word) (b : Build) (words : List Word) :
    IgnoresJournal (liftWords isa pc b words) := by
  induction words generalizing pc b with
  | nil => exact .pure b
  | cons w words ih =>
    have hword : IgnoresJournal (liftWord isa w pc b) :=
      .bind (.note _) fun _ => ignoresJournal_readWord w pc _
    exact .bind hword fun b => ih _ b

theorem ignoresJournal_finishPacket {State : Type} (pc : Word) (b : Build) :
    IgnoresJournal (finishPacket pc b : Lift State Build) := by
  unfold finishPacket
  cases b.draft.extender with
  | some pending => exact .throw_bind _ _
  | none =>
    refine .bind (.except _) ?_
    rintro ⟨closing, listing⟩
    exact .bind (.noteAll _) fun _ => .pure _

theorem ignoresJournal_liftPacket (fetch : Fetch) (pc : Word) (b : Build) :
    IgnoresJournal (liftPacket isa fetch pc b) := by
  unfold liftPacket
  refine .bind (.except _) fun nextPc => ?_
  refine .bind (ignoresJournal_liftWords _ _ _) fun b => ?_
  cases (window fetch pc readLimit).ending with
  | closed => exact ignoresJournal_finishPacket _ b
  | unmapped address => exact .throw _
  | unfinished => exact .throw _

theorem ignoresJournal_liftPackets (fetch : Fetch) (pc : Word) (b : Build) (budget : Nat) :
    IgnoresJournal (liftPackets isa fetch pc b budget) := by
  induction budget generalizing pc b with
  | zero => exact .bind (ignoresJournal_liftPacket fetch pc b) fun after => .pure _
  | succ budget ih =>
    refine .bind (ignoresJournal_liftPacket fetch pc b) fun after => ?_
    cases hexit : after.exit with
    | some exit => exact .pure _
    | none => exact ih _ after

/-- **Lifting a block ignores the journal.** -/
theorem ignoresJournal_liftBlock (options : LiftOptions) (fetch : Fetch) (entry : Word) :
    IgnoresJournal (liftBlock isa options fetch entry) := by
  unfold liftBlock
  split_ifs
  · exact .throw_bind _ _
  · refine .bind (ignoresJournal_liftPackets _ _ _ _) ?_
    rintro ⟨b, exit, pc⟩
    exact .bind (.note _) fun _ => .pure _

/-- **So does lifting a block with its fault reported.** -/
theorem ignoresJournal_liftReporting (options : LiftOptions) (fetch : Fetch) (entry : Word) :
    IgnoresJournal (liftReporting isa options fetch entry) :=
  .tryCatch (ignoresJournal_liftBlock options fetch entry) fun fault =>
    .bind (.note _) fun _ => .throw fault

end PacketLift
