import Mathlib.Logic.Function.Basic
import Mathlib.Tactic.SplitIfs
import PacketLift.Machine.Globals
import PacketLift.Machine.Run

/-!
# Values of temporaries

Running operations changes the values of temporaries and the calls of the trap handler, and
nothing else matters to what they compute. This module says what an operation does to these
values, with the globals of lifted code kept apart from the locals. Most runs of operations leave
the globals in a state that depends on the globals alone: such operations act on the guest.

## Main definitions

* `Guest`: the words of the lifted code's globals, and the traps so far
* `Cell`, `Cell.of`: what a temporary stands for
* `Values`, `Values.eval`: values of all temporaries, and what an operation does to them
* `Acts ops f`: whatever the locals are, `ops` change the guest as `f` says
-/

namespace PacketLift

/-- **The guest as lifted code sees it**: the words of its globals, and the traps so far. -/
@[ext]
structure Guest where
  /-- The live words, by slot. -/
  live : Fin 64 → Word
  /-- The staging words, by slot. -/
  staged : Fin 64 → Word
  pcWritten : Word
  pcTrace : Word
  /-- The numbers given to the trap handler. -/
  traps : List Word

/-- What a temporary stands for: a word of the guest, or a local. -/
inductive Cell where
  | live (slot : Fin 64)
  | staged (slot : Fin 64)
  | pcWritten
  | pcTrace
  | scratch (t : Nat)
  deriving DecidableEq

/-- The cell of a temporary, by its number. -/
def Cell.of (t : Nat) : Cell :=
  if hlive : t < 64 then .live ⟨t, hlive⟩
  else if hstaged : t < 128 then .staged ⟨t - 64, by omega⟩
  else if t = 128 then .pcWritten
  else if t = 129 then .pcTrace
  else .scratch t

/-- The values of all temporaries. -/
structure Values where
  guest : Guest
  locals : Nat → Word

namespace Values

/-- The value in a cell. -/
def get (v : Values) : Cell → Word
  | .live i => v.guest.live i
  | .staged i => v.guest.staged i
  | .pcWritten => v.guest.pcWritten
  | .pcTrace => v.guest.pcTrace
  | .scratch t => v.locals t

/-- The values with that of one cell replaced. -/
def set (v : Values) (x : Word) : Cell → Values
  | .live i => { v with guest := { v.guest with live := Function.update v.guest.live i x } }
  | .staged i => { v with guest := { v.guest with staged := Function.update v.guest.staged i x } }
  | .pcWritten => { v with guest := { v.guest with pcWritten := x } }
  | .pcTrace => { v with guest := { v.guest with pcTrace := x } }
  | .scratch t => { v with locals := Function.update v.locals t x }

theorem get_set (v : Values) (x : Word) (c c' : Cell) :
    (v.set x c).get c' = if c' = c then x else v.get c' := by
  cases c <;> cases c' <;> simp [set, get, Function.update_apply]

/-- Values are known from the cells, and from the calls of the trap handler. -/
theorem ext_get {v v' : Values} (h : ∀ c, v.get c = v'.get c)
    (htraps : v.guest.traps = v'.guest.traps) : v = v' := by
  have hguest : v.guest = v'.guest :=
    Guest.ext (funext fun i => h (.live i)) (funext fun i => h (.staged i)) (h .pcWritten)
      (h .pcTrace) htraps
  have hlocals : v.locals = v'.locals := funext fun t => h (.scratch t)
  cases v
  cases v'
  simp_all

/-- The value of a temporary. -/
def read (v : Values) (t : Nat) : Word := v.get (.of t)

/-- The values with that of one temporary replaced. -/
def write (v : Values) (t : Nat) (x : Word) : Values := v.set x (.of t)

/-- The values with one more call of the trap handler. -/
def trap (v : Values) (number : Word) : Values :=
  { v with guest := { v.guest with traps := v.guest.traps ++ [number] } }

/-- **What an operation does to values.** -/
def eval (v : Values) : MicroOp → Values
  | .packetStart _ => v
  | .set dst value => v.write dst value
  | .copy dst src => v.write dst (v.read src)
  | .binary op dst lhs rhs => v.write dst (op.apply (v.read lhs) (v.read rhs))
  | .binaryImm op dst lhs value => v.write dst (op.apply (v.read lhs) value)
  | .compare cond dst lhs rhs =>
    v.write dst (if cond.holds (v.read lhs) (v.read rhs) then 1 else 0)
  | .select cond dst lhs rhs ifTrue ifFalse =>
    v.write dst (if cond.holds (v.read lhs) (v.read rhs) then v.read ifTrue else v.read ifFalse)
  | .callTrap arguments => v.trap ((arguments.head?.map v.read).getD 0)
  | .exitBlock => v

/-- What operations do to values, one after the other. -/
def evalAll (v : Values) (ops : List MicroOp) : Values := ops.foldl eval v

end Values

/-! ## Cells of globals and locals -/

namespace Cell

@[simp] theorem of_live (r : Register) : Cell.of (Global.live r) = .live r.slot :=
  dif_pos r.slot.isLt

@[simp] theorem of_staged (r : Register) : Cell.of (Global.staged r) = .staged r.slot := by
  have hlt := r.slot.isLt
  unfold Cell.of Global.staged
  rw [dif_neg (by omega), dif_pos (by omega)]
  simp

theorem of_scratch {t : Nat} (h : 130 ≤ t) : Cell.of t = .scratch t := by
  unfold Cell.of
  rw [dif_neg (by omega), dif_neg (by omega), if_neg (by omega), if_neg (by omega)]

end Cell

namespace Values

variable (v : Values) (x : Word)

@[simp] theorem evalAll_nil : v.evalAll [] = v := rfl

@[simp] theorem evalAll_cons (op : MicroOp) (ops : List MicroOp) :
    v.evalAll (op :: ops) = (v.eval op).evalAll ops := rfl

theorem evalAll_append (ops ops' : List MicroOp) :
    v.evalAll (ops ++ ops') = (v.evalAll ops).evalAll ops' := List.foldl_append

@[simp] theorem read_live (r : Register) : v.read (Global.live r) = v.guest.live r.slot := by
  rw [read, Cell.of_live, get]

@[simp] theorem read_staged (r : Register) :
    v.read (Global.staged r) = v.guest.staged r.slot := by
  rw [read, Cell.of_staged, get]

@[simp] theorem read_pc : v.read Global.pc = v.guest.live Register.pc.slot := v.read_live .pc

@[simp] theorem read_pcWritten : v.read Global.pcWritten = v.guest.pcWritten := rfl

theorem read_scratch {t : Nat} (h : 130 ≤ t) : v.read t = v.locals t := by
  rw [read, Cell.of_scratch h, get]

@[simp] theorem write_live (r : Register) : v.write (Global.live r) x =
    { v with guest := { v.guest with live := Function.update v.guest.live r.slot x } } := by
  rw [write, Cell.of_live, set]

@[simp] theorem write_staged (r : Register) : v.write (Global.staged r) x =
    { v with guest := { v.guest with staged := Function.update v.guest.staged r.slot x } } := by
  rw [write, Cell.of_staged, set]

@[simp] theorem write_pc : v.write Global.pc x =
    { v with guest := { v.guest with live := Function.update v.guest.live Register.pc.slot x } } :=
  v.write_live x .pc

@[simp] theorem write_pcWritten : v.write Global.pcWritten x =
    { v with guest := { v.guest with pcWritten := x } } := rfl

@[simp] theorem write_pcTrace : v.write Global.pcTrace x =
    { v with guest := { v.guest with pcTrace := x } } := rfl

theorem write_scratch {t : Nat} (h : 130 ≤ t) : v.write t x =
    { v with locals := Function.update v.locals t x } := by
  rw [write, Cell.of_scratch h, set]

end Values

/-! ## Acting on the guest -/

/-- **Operations that act on the guest**: whatever the locals hold, the guest becomes what `f`
makes of it. -/
def Acts (ops : List MicroOp) (f : Guest → Guest) : Prop :=
  ∀ v : Values, (v.evalAll ops).guest = f v.guest

namespace Acts

variable {ops ops' : List MicroOp} {f g : Guest → Guest}

theorem nil : Acts [] id := fun _ => rfl

theorem congr (h : Acts ops f) (hfg : ∀ g', f g' = g g') : Acts ops g :=
  fun v => (h v).trans (hfg v.guest)

/-- Operations one behind the other act one after the other. -/
theorem append (h : Acts ops f) (h' : Acts ops' g) : Acts (ops ++ ops') (g ∘ f) := by
  intro v
  rw [Values.evalAll_append]
  exact (h' _).trans (congrArg g (h v))

/-- Groups of operations act one group after the other. -/
theorem flatMap {α : Type} {xs : List α} {ops : α → List MicroOp} {f : α → Guest → Guest}
    (h : ∀ x ∈ xs, Acts (ops x) (f x)) :
    Acts (xs.flatMap ops) fun g => xs.foldl (fun g x => f x g) g := by
  induction xs with
  | nil => exact nil
  | cons x xs ih =>
    have hrest := ih fun y hy => h y (List.mem_cons_of_mem x hy)
    exact (h x List.mem_cons_self).append hrest

/-- Groups of operations that are looked up, where what is not found does nothing. -/
theorem filterMap {α β : Type} {keys : List β} {lookup : β → Option α} {ops : β → List MicroOp}
    {f : Guest → α → Guest} (h : ∀ k ∈ keys, Acts (ops k) fun g => (lookup k).elim g (f g)) :
    Acts (keys.flatMap ops) fun g => (keys.filterMap lookup).foldl f g := by
  refine (flatMap h).congr fun g => ?_
  rw [List.foldl_filterMap]
  congr 1
  funext g k
  cases lookup k <;> rfl

theorem map {α : Type} (xs : List α) {op : α → MicroOp} {f : α → Guest → Guest}
    (h : ∀ (x : α) (v : Values), (v.eval (op x)).guest = f x v.guest) :
    Acts (xs.map op) fun g => xs.foldl (fun g x => f x g) g := by
  rw [List.map_eq_flatMap]
  exact flatMap fun x _ v => h x v

end Acts

end PacketLift
