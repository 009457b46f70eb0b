import PacketLift.MicroOp.Emit
import PacketLift.Proofs.Listing.Ring

/-!
# What a computation emits

Most code that lifts instructions only appends operations and takes fresh locals, and it looks at
the listing for one thing alone: the number of the next local. Such a computation is described by
three things that depend on this number: its value, the operations it appends and how many locals
it takes. The descriptions compose along the computation.

## Main definitions

* `Emits c n a ops k`: started with `n` temporaries, `c` returns `a`, appends `ops` and takes `k`
  locals

## Main results

* `Emits.pure`, `Emits.bind`, `Emits.emit`, `Emits.freshTemp`, `Emits.constant`, `Emits.forM`
-/

namespace PacketLift

namespace Listing

theorem extend_nil (l : Listing) : l.extend [] [] = l := by
  simp [extend]

/-- Temporaries and operations do not notice each other. -/
theorem foldl_append_temps (l : Listing) (ops : List MicroOp) (ts : Array Temp) :
    ops.foldl append { l with temps := ts } = { ops.foldl append l with temps := ts } := by
  induction ops generalizing l with
  | nil => rfl
  | cons op ops ih => exact ih (l.append op)

theorem extend_extend (l : Listing) (ops ops' : List MicroOp) (ts ts' : List Temp) :
    (l.extend ops ts).extend ops' ts' = l.extend (ops ++ ops') (ts ++ ts') := by
  unfold extend
  simp only [foldl_append_temps, List.foldl_append]
  simp

theorem append_eq_extend (l : Listing) (op : MicroOp) : l.append op = l.extend [op] [] := by
  simp [extend]

theorem addTemp_eq_extend (l : Listing) (t : Temp) : l.addTemp t = l.extend [] [t] := by
  simp [extend, addTemp]

@[simp] theorem tempCount_extend (l : Listing) (ops : List MicroOp) (ts : List Temp) :
    (l.extend ops ts).tempCount = l.tempCount + ts.length := by
  simp [tempCount]

end Listing

variable {α β : Type}

/-- **What a computation emits** when there are `n` temporaries: it returns `a`, appends `ops` and
takes `k` fresh locals. -/
def Emits (c : Emit α) (n : TempId) (a : α) (ops : List MicroOp) (k : Nat) : Prop :=
  ∀ l : Listing, l.tempCount = n → c.run l = (a, l.extend ops (List.replicate k .scratch))

namespace Emits

theorem pure (a : α) (n : TempId) : Emits (Pure.pure a) n a [] 0 := by
  intro l _
  rw [List.replicate_zero, Listing.extend_nil]
  rfl

/-- Two computations one after the other emit one behind the other. What they emit together is
given in any form, so that it can be a plain list. -/
theorem bind {c : Emit α} {f : α → Emit β} {n m k k' kk : Nat} {a : α} {b : β}
    {ops ops' all : List MicroOp} (hc : Emits c n a ops k) (hf : Emits (f a) m b ops' k')
    (hm : m = n + k) (hall : all = ops ++ ops') (hkk : kk = k + k') :
    Emits (c >>= f) n b all kk := by
  subst hm hall hkk
  intro l hl
  have hrun : (c >>= f).run l = (f (c.run l).1).run (c.run l).2 := rfl
  rw [hrun, hc l hl, hf _ (by simp [hl]), Listing.extend_extend, List.replicate_append_replicate]

theorem emit (op : MicroOp) (n : TempId) : Emits (PacketLift.emit op) n () [op] 0 := by
  intro l _
  rw [List.replicate_zero, ← Listing.append_eq_extend]
  rfl

theorem freshTemp (n : TempId) : Emits PacketLift.freshTemp n n [] 1 := by
  rintro l rfl
  rw [List.replicate_one, ← Listing.addTemp_eq_extend]
  rfl

theorem constant (value : Word) (n : TempId) :
    Emits (PacketLift.constant value) n n [.set n value] 1 :=
  bind (freshTemp n) (bind (emit (.set n value) (n + 1)) (pure n (n + 1)) rfl rfl rfl) rfl rfl rfl

theorem forM (xs : List α) (f : α → Emit Unit) (op : α → MicroOp) (n : TempId)
    (hf : ∀ x ∈ xs, Emits (f x) n () [op x] 0) : Emits (xs.forM f) n () (xs.map op) 0 := by
  induction xs with
  | nil => exact pure () n
  | cons x xs ih =>
    have hrest := ih fun y hy => hf y (List.mem_cons_of_mem x hy)
    show Emits (f x >>= fun _ => xs.forM f) n () (op x :: xs.map op) 0
    exact bind (hf x (by simp)) hrest rfl rfl rfl

end Emits

end PacketLift
