import Mathlib.Logic.Basic
import PacketLift.Block.Lift

/-!
# Lifting that succeeds

Lifting is a computation on a session that may end in a fault. Most of what is proved about it is
about the runs that do not: this module says when each primitive step succeeds and what it leaves,
so that a successful run can be taken apart along its definition.

## Main definitions

* `Lift.Gives x s a s'`: from session `s`, the computation `x` succeeds with `a` and leaves `s'`

## Main results

* `Lift.gives_bind` and its companions: when a step gives what
-/

namespace PacketLift

namespace Lift

variable {State α β : Type} {s s' : Session State}

/-- **Success**: from `s` the computation gives `a` and leaves `s'`. -/
def Gives (x : Lift State α) (s : Session State) (a : α) (s' : Session State) : Prop :=
  x.run s = (.ok a, s')

/-- A result that is known from a run succeeded. -/
theorem exists_of_toOption {x : Lift State α} {f : α → β} {b : β}
    (h : (x.run s).1.toOption.map f = some b) : ∃ a s', x.run s = (.ok a, s') ∧ f a = b := by
  rcases hx : x.run s with ⟨result, s'⟩
  rw [hx] at h
  cases result with
  | error fault => cases h
  | ok a => exact ⟨a, s', rfl, Option.some.inj h⟩

theorem gives_pure {a b : α} : Gives (pure a : Lift State α) s b s' ↔ a = b ∧ s = s' := by
  show (((Except.ok a : Except Fault α), s) = (.ok b, s')) ↔ _
  simp

theorem gives_bind {x : Lift State α} {f : α → Lift State β} {b : β} :
    Gives (x >>= f) s b s' ↔ ∃ a t, Gives x s a t ∧ Gives (f a) t b s' := by
  have hrun : (x >>= f).run s = ExceptT.bindCont f (x.run s).1 (x.run s).2 := rfl
  unfold Gives
  rw [hrun]
  rcases hx : x.run s with ⟨result, t⟩
  cases result with
  | error fault =>
    constructor
    · intro h
      cases h
    · rintro ⟨a, t', h, -⟩
      cases h
  | ok a =>
    constructor
    · intro h
      exact ⟨a, t, rfl, h⟩
    · rintro ⟨a', t', h, hf⟩
      cases h
      exact hf

theorem not_gives_throw {fault : Fault} {a : α} : ¬Gives (throw fault : Lift State α) s a s' := by
  intro h
  cases h

/-- A computation that is guarded succeeds, or what handles its fault does. -/
theorem gives_tryCatch {x : Lift State α} {handle : Fault → Lift State α} {a : α} :
    Gives (tryCatch x handle) s a s' ↔
      Gives x s a s' ∨ ∃ fault t, x.run s = (.error fault, t) ∧ Gives (handle fault) t a s' := by
  unfold Gives
  rw [ExceptT.run_tryCatch]
  simp only [bind, StateT.bind]
  rcases x.run s with ⟨fault | a', t⟩
  · constructor
    · intro h
      exact .inr ⟨fault, t, rfl, h⟩
    · rintro (h | ⟨fault', t', h, hhandle⟩)
      · cases h
      · cases h
        exact hhandle
  · constructor
    · intro h
      exact .inl h
    · rintro (h | ⟨fault', t', h, -⟩)
      · exact h
      · cases h

theorem gives_except {e : Except Fault α} {a : α} :
    Gives (liftM e : Lift State α) s a s' ↔ e = .ok a ∧ s = s' := by
  show ((e, s) = (.ok a, s')) ↔ _
  simp

theorem gives_withState {f : State → α × State} {a : α} :
    Gives (withState f) s a s' ↔ (f s.state).1 = a ∧ { s with state := (f s.state).2 } = s' := by
  show (((Except.ok (f s.state).1 : Except Fault α), _) = (.ok a, s')) ↔ _
  simp

theorem gives_note {m : Message} {u : Unit} :
    Gives (note m) s u s' ↔ { s with journal := s.journal.push m } = s' := by
  show (((Except.ok () : Except Fault Unit), _) = (.ok u, s')) ↔ _
  simp

theorem gives_noteAll {ms : List Message} {u : Unit} :
    Gives (noteAll ms) s u s' ↔ { s with journal := s.journal ++ ms.toArray } = s' := by
  induction ms generalizing s with
  | nil =>
    refine gives_pure.trans ?_
    simp
  | cons m ms ih =>
    refine gives_bind.trans ?_
    constructor
    · rintro ⟨_, t, hm, hms⟩
      obtain rfl := gives_note.mp hm
      rw [← ih.mp hms]
      simp
    · rintro rfl
      exact ⟨(), _, gives_note.mpr rfl, ih.mpr (by simp)⟩

end Lift

end PacketLift
