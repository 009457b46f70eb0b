import PacketLift.Proofs.Listing.Edits
import PacketLift.Proofs.Machine.Words

/-!
# Operations that may change places

An operation names the temporaries that it reads and the one that it writes. This module shows that
these names tell all about it: what it writes, and what it hands to the trap handler, is a function
of the values of its inputs, and it changes nothing but the place where its output is kept.

Where a temporary is kept matters more than its number, as two globals can be bound to one word of
the CPU's state. When neither of two operations writes a place that the other one uses, and they do
not both call the trap handler, it makes no difference which of them runs first. So neighbours of
that kind can change places in a listing, wherever they stand and whatever it runs on.

## Main definitions

* `Storage`, `Storage.of?`: where a temporary is kept
* `Machine.valueAt`, `Machine.put`, `Machine.observe`: the value at a place, a value put there, and
  a step that is counted
* `MicroOp.result`, `MicroOp.calls`: what an operation makes of the values of its inputs
* `MicroOp.Described`: an operation is known from its inputs and its output
* `MicroOp.Independent`: two operations that do not get in each other's way

## Main results

* `Machine.step_eq`: one step of any operation, by its inputs and its output
* `Machine.step_comm`: independent operations commute
* `Listing.independent_neighbours_commute`: inputs and outputs describe operations, and independent
  neighbours can change places in any listing
-/

namespace PacketLift

/-! ## Places -/

/-- **Where a temporary is kept**: in a word of the CPU's state, or as a local. -/
inductive Storage where
  | word (index : Nat)
  | scratch (t : TempId)
  deriving DecidableEq

/-- The place of a temporary. One that does not exist has none. -/
def Storage.of? (temps : Array Temp) (t : TempId) : Option Storage :=
  temps[t]?.map fun
    | .global _ offset => .word (offset / 4)
    | .scratch => .scratch t

namespace Machine

/-- The value at a place. -/
def valueAt (m : Machine) : Storage → Word
  | .word i => m.cpu.words.getD i 0
  | .scratch t => m.locals.getD t 0

/-- The machine with the value at a place replaced. -/
def store (m : Machine) (x : Word) : Storage → Machine
  | .word i => { m with cpu := { m.cpu with words := m.cpu.words.setIfInBounds i x } }
  | .scratch t => { m with locals := m.locals.setIfInBounds t x }

/-- The machine with a value put to a place, if there is one. -/
def put (m : Machine) (place? : Option Storage) (x : Word) : Machine := place?.elim m (m.store x)

/-- The machine with numbers handed to the trap handler, and one more operation counted. -/
def observe (m : Machine) (calls : List Word) : Machine :=
  { m with
    outcome :=
      { m.outcome with
        traps := m.outcome.traps ++ calls, executed := m.outcome.executed + 1 } }

variable {m : Machine} {temps : Array Temp}

theorem valueAt_store_of_ne {s s' : Storage} (h : s ≠ s') (x : Word) :
    (m.store x s).valueAt s' = m.valueAt s' := by
  cases s with
  | word i =>
    cases s' with
    | word j =>
      have hne : i ≠ j := fun heq => h (congrArg Storage.word heq)
      simp [store, valueAt, Array.getD_eq_getD_getElem?, Array.getElem?_setIfInBounds_ne hne]
    | scratch t => rfl
  | scratch t =>
    cases s' with
    | word i => rfl
    | scratch t' =>
      have hne : t ≠ t' := fun heq => h (congrArg Storage.scratch heq)
      simp [store, valueAt, Array.getD_eq_getD_getElem?, Array.getElem?_setIfInBounds_ne hne]

theorem store_comm {s s' : Storage} (h : s ≠ s') (x y : Word) :
    (m.store x s).store y s' = (m.store y s').store x s := by
  cases s with
  | word i =>
    cases s' with
    | word j =>
      have hne : i ≠ j := fun heq => h (congrArg Storage.word heq)
      simp only [store, Array.setIfInBounds_comm x y hne]
    | scratch t => rfl
  | scratch t =>
    cases s' with
    | word i => rfl
    | scratch t' =>
      have hne : t ≠ t' := fun heq => h (congrArg Storage.scratch heq)
      simp only [store, Array.setIfInBounds_comm x y hne]

/-- A temporary is read from its place. -/
theorem read_eq (h : m.locals.size = temps.size) (t : TempId) :
    m.read temps t = (Storage.of? temps t).elim 0 m.valueAt := by
  unfold read Storage.of?
  cases htemp : temps[t]? with
  | none =>
    have hout : m.locals.size ≤ t := by
      rw [h]
      exact Array.getElem?_eq_none_iff.mp htemp
    simp [Array.getD_eq_getD_getElem?, hout]
  | some temp => cases temp <;> rfl

/-- A temporary is written to its place. -/
theorem write_eq (h : m.locals.size = temps.size) (t : TempId) (x : Word) :
    m.write temps t x = m.put (Storage.of? temps t) x := by
  unfold write put Storage.of?
  cases htemp : temps[t]? with
  | none =>
    have hout : m.locals.size ≤ t := by
      rw [h]
      exact Array.getElem?_eq_none_iff.mp htemp
    simp [Array.setIfInBounds_eq_of_size_le hout]
  | some temp => cases temp <;> rfl

theorem valueAt_put_of_ne {place? : Option Storage} {s : Storage} (h : place? ≠ some s)
    (x : Word) : (m.put place? x).valueAt s = m.valueAt s := by
  cases place? with
  | none => rfl
  | some s' => exact valueAt_store_of_ne (fun heq => h (congrArg some heq)) x

theorem put_comm {place? place?' : Option Storage}
    (h : ∀ s ∈ place?, place?' ≠ some s) (x y : Word) :
    (m.put place? x).put place?' y = (m.put place?' y).put place? x := by
  cases place? with
  | none => rfl
  | some s =>
    cases place?' with
    | none => rfl
    | some s' => exact store_comm (fun heq => h s rfl (congrArg some heq.symm)) x y

theorem put_observe (place? : Option Storage) (x : Word) (calls : List Word) :
    (m.observe calls).put place? x = (m.put place? x).observe calls := by
  rcases place? with _ | (_ | _) <;> rfl

/-- Traps keep their order, so steps change places only if one of them has no trap. -/
theorem observe_comm {calls calls' : List Word} (h : calls = [] ∨ calls' = []) :
    (m.observe calls).observe calls' = (m.observe calls').observe calls := by
  rcases h with rfl | rfl <;> simp [observe]

@[simp] theorem valueAt_observe (calls : List Word) (s : Storage) :
    (m.observe calls).valueAt s = m.valueAt s := by
  cases s <;> rfl

@[simp] theorem size_locals_observe (calls : List Word) :
    (m.observe calls).locals.size = m.locals.size := rfl

@[simp] theorem size_locals_put (place? : Option Storage) (x : Word) :
    (m.put place? x).locals.size = m.locals.size := by
  rcases place? with _ | (_ | _) <;> simp [put, store]

end Machine

/-! ## One operation -/

namespace MicroOp

/-- What an operation writes, by the values of its inputs. -/
def result : MicroOp → List Word → Word
  | set _ value, _ => value
  | copy _ _, [x] => x
  | binary op _ _ _, [x, y] => op.apply x y
  | binaryImm op _ _ value, [x] => op.apply x value
  | compare cond _ _ _, [x, y] => if cond.holds x y then 1 else 0
  | select cond _ _ _ _ _, [x, y, ifTrue, ifFalse] => if cond.holds x y then ifTrue else ifFalse
  | _, _ => 0

/-- What an operation hands to the trap handler, by the values of its inputs. -/
def calls : MicroOp → List Word → List Word
  | callTrap _, values => [values.head?.getD 0]
  | _, _ => []

theorem calls_eq_nil {op : MicroOp} (h : op.isCall = false) (values : List Word) :
    op.calls values = [] := by
  cases op with
  | callTrap arguments => cases h
  | _ => rfl

/-- The place that an operation writes, if there is one. -/
def place? (temps : Array Temp) (op : MicroOp) : Option Storage :=
  op.output?.bind (Storage.of? temps)

/-- **An operation is known from its inputs and its output.** From the values of its inputs follow
one value and some numbers, and all that a step does is to put that value to the place of the
output, to hand those numbers to the trap handler and to count. So no other place changes. -/
structure Described (op : MicroOp) : Prop where
  determined : ∀ values, ∃ value calls, ∀ (temps : Array Temp) (m : Machine),
    m.locals.size = temps.size → op.inputs.map (m.read temps) = values →
    m.step temps op = (m.put (op.place? temps) value).observe calls
  unchanged : ∀ (temps : Array Temp) (m : Machine), m.locals.size = temps.size →
    ∀ s, op.place? temps ≠ some s → (m.step temps op).valueAt s = m.valueAt s

end MicroOp

namespace Machine

variable {m : Machine} {temps : Array Temp}

/-- **One step of any operation** that does not leave the block, by the values of its inputs. -/
theorem step_eq (h : m.locals.size = temps.size) {op : MicroOp} (hop : op ≠ .exitBlock) :
    m.step temps op =
      (m.put (op.place? temps) (op.result (op.inputs.map (m.read temps)))).observe
        (op.calls (op.inputs.map (m.read temps))) := by
  have hquiet : ∀ m' : Machine, m'.observe [] =
      { m' with outcome := { m'.outcome with executed := m'.outcome.executed + 1 } } := by
    intro m'
    rw [observe, List.append_nil]
  cases op with
  | packetStart pc => exact (hquiet m).symm
  | exitBlock => exact absurd rfl hop
  | callTrap arguments => cases arguments <;> rfl
  | _ =>
    simp only [step, effect, write_eq h]
    exact (hquiet _).symm

theorem described_of_ne {op : MicroOp} (hop : op ≠ .exitBlock) : op.Described where
  determined values := by
    refine ⟨op.result values, op.calls values, fun temps m h hvalues => ?_⟩
    rw [step_eq h hop, hvalues]
  unchanged temps m h s hs := by
    rw [step_eq h hop, valueAt_observe, valueAt_put_of_ne hs]

@[simp] theorem size_locals_step (temps : Array Temp) (op : MicroOp) :
    (m.step temps op).locals.size = m.locals.size := by
  have hwrite : ∀ t x, (m.write temps t x).locals.size = m.locals.size := by
    intro t x
    unfold write
    split <;> simp
  cases op with
  | packetStart pc => rfl
  | callTrap arguments => rfl
  | exitBlock => rfl
  | _ => exact hwrite _ _

/-- Whatever runs, there stay as many locals. -/
@[simp] theorem size_locals_run (temps : Array Temp) (ops : List MicroOp) :
    (m.run temps ops).locals.size = m.locals.size := by
  induction ops generalizing m with
  | nil => rfl
  | cons op ops ih =>
    by_cases hop : op = .exitBlock
    · subst hop
      exact size_locals_step temps _
    · rw [run_cons hop, ih, size_locals_step]

end Machine

/-! ## Two operations -/

/-- **Two operations that do not get in each other's way**: the first writes no place that the
second reads or writes, the second writes no place that the first reads, and at most one of them
calls the trap handler. -/
structure MicroOp.Independent (temps : Array Temp) (a b : MicroOp) : Prop where
  calls : ¬(a.isCall = true ∧ b.isCall = true)
  inputs_right : ∀ s ∈ a.place? temps, ∀ t ∈ b.inputs, Storage.of? temps t ≠ some s
  output : ∀ s ∈ a.place? temps, b.place? temps ≠ some s
  inputs_left : ∀ s ∈ b.place? temps, ∀ t ∈ a.inputs, Storage.of? temps t ≠ some s

namespace Machine

variable {m : Machine} {temps : Array Temp}

/-- An operation does not change what is read from other places. -/
theorem map_read_step (h : m.locals.size = temps.size) {a : MicroOp} (ha : a ≠ .exitBlock)
    {ts : List TempId} (hts : ∀ s ∈ a.place? temps, ∀ t ∈ ts, Storage.of? temps t ≠ some s) :
    ts.map ((m.step temps a).read temps) = ts.map (m.read temps) := by
  refine List.map_congr_left fun t ht => ?_
  rw [read_eq ((size_locals_step temps a).trans h), read_eq h]
  cases hplace : Storage.of? temps t with
  | none => rfl
  | some s =>
    refine (described_of_ne ha).unchanged temps m h s fun hs => ?_
    exact hts s hs t ht hplace

/-- **Independent operations commute.** -/
theorem step_comm (h : m.locals.size = temps.size) {a b : MicroOp} (ha : a ≠ .exitBlock)
    (hb : b ≠ .exitBlock) (hab : a.Independent temps b) :
    (m.step temps a).step temps b = (m.step temps b).step temps a := by
  have hinputs := map_read_step h ha hab.inputs_right
  have hinputs' := map_read_step h hb hab.inputs_left
  rw [step_eq ((size_locals_step temps a).trans h) hb, hinputs,
    step_eq ((size_locals_step temps b).trans h) ha, hinputs', step_eq h ha, step_eq h hb]
  generalize a.inputs.map (m.read temps) = xs
  generalize b.inputs.map (m.read temps) = ys
  have hcalls : a.calls xs = [] ∨ b.calls ys = [] := by
    cases hcall : a.isCall with
    | false => exact .inl (MicroOp.calls_eq_nil hcall xs)
    | true =>
      have hquiet : b.isCall = false := by
        rw [← Bool.not_eq_true]
        exact fun hcall' => hab.calls ⟨hcall, hcall'⟩
      exact .inr (MicroOp.calls_eq_nil hquiet ys)
  rw [put_observe, put_observe, put_comm hab.output, observe_comm hcalls]

/-- Independent neighbours can change places, also when the block is left in front of them. -/
theorem run_swap (h : m.locals.size = temps.size) {a b : MicroOp} (ha : a ≠ .exitBlock)
    (hb : b ≠ .exitBlock) (hab : a.Independent temps b) (front rest : List MicroOp) :
    m.run temps (front ++ a :: b :: rest) = m.run temps (front ++ b :: a :: rest) := by
  by_cases hexit : .exitBlock ∈ front
  · rw [run_append_of_mem hexit, run_append_of_mem hexit]
  · have hinner : ∀ op ∈ front, op ≠ .exitBlock := fun op hop heq => hexit (heq ▸ hop)
    rw [run_append hinner, run_append hinner, run_cons ha, run_cons hb, run_cons hb, run_cons ha,
      step_comm ((size_locals_run temps front).trans h) ha hb hab]

end Machine

/-! ## Neighbours in a listing -/

namespace Listing

variable {l : Listing}

/-- Two neighbours in a listing, with what stands in front of them and behind. -/
theorem Represents.exists_neighbours {es : List Entry} (h : l.Represents es) {a b : OpId}
    (ha : a ∈ es.map Entry.id) (hnext : l.next? a = some b) :
    ∃ front ea eb rest, es = front ++ ea :: eb :: rest ∧ ea.id = a ∧ eb.id = b ∧
      l.prev a = (front.map Entry.id).getLastD 0 := by
  obtain ⟨ea, hea, rfl⟩ := List.mem_map.mp ha
  obtain ⟨front, back, rfl⟩ := List.append_of_mem hea
  have hprev : l.prev ea.id = (front.map Entry.id).getLastD 0 := h.neighbours.2
  have hbehind : l.Represents ((front ++ [ea]) ++ back) := by simpa using h
  have hhead : l.next ea.id = (back.map Entry.id).headD 0 := by
    simpa using hbehind.neighbours.1
  unfold next? at hnext
  split_ifs at hnext with hzero
  cases back with
  | nil => exact absurd hhead hzero
  | cons eb rest =>
    have heb : eb.id = b := hhead.symm.trans (Option.some.inj hnext)
    exact ⟨front, ea, eb, rest, rfl, rfl, heb, hprev⟩

/-- **Independent neighbours can change places**, where the entries of a listing are known. -/
theorem Represents.run_moveAfter_eq {front rest : List Entry} {ea eb : Entry}
    (h : l.Represents (front ++ ea :: eb :: rest)) (ha : ea.op ≠ .exitBlock)
    (hb : eb.op ≠ .exitBlock) (hab : ea.op.Independent l.temps eb.op) (cpu : Cpu) :
    (l.moveAfter ⟨eb.id, eb.id⟩ ((front.map Entry.id).getLastD 0)).run cpu = l.run cpu := by
  have hsplit : l.Represents ((front ++ [ea]) ++ [eb] ++ rest) := by simpa using h
  have hothers : (front ++ [ea]) ++ rest = front ++ ea :: rest := by simp
  have hspan : Span.Covers ⟨eb.id, eb.id⟩ ([eb].map Entry.id) := ⟨rfl, rfl⟩
  have hmoved := hsplit.moveAfter hspan hothers
  have hops : (l.moveAfter ⟨eb.id, eb.id⟩ ((front.map Entry.id).getLastD 0)).ops =
      front.map Entry.op ++ eb.op :: ea.op :: rest.map Entry.op := by
    rw [hmoved.ops_eq]
    simp
  have hlocals : (Machine.start l.temps cpu).locals.size = l.temps.size := Array.size_replicate
  unfold Listing.run
  rw [hops, temps_moveAfter, h.ops_eq, List.map_append, List.map_cons, List.map_cons,
    Machine.run_swap hlocals ha hb hab]

/-- An identity that has an operation stands in the listing. -/
theorem Represents.mem_of_get? {es : List Entry} (h : l.Represents es) (hhead : l.get? 0 = none)
    {id : OpId} {op : MicroOp} (hid : l.get? id = some op) : id ∈ es.map Entry.id := by
  rw [h.mem_iff]
  constructor
  · rcases Nat.eq_zero_or_pos id with rfl | hpos
    · rw [hhead] at hid
      cases hid
    · exact hpos
  · unfold get? at hid
    rcases Nat.lt_or_ge id l.nodes.size with hlt | hge
    · exact hlt
    · rw [Array.getElem?_eq_none hge] at hid
      cases hid

/-- **Inputs and outputs describe operations, and independent neighbours can change places.** Any
operation but the one that leaves the block is known from its inputs and its output. So in any
listing that edits lead to, the second of two independent neighbours can be moved in front of the
first, and a run on any state comes to the same. -/
theorem independent_neighbours_commute :
    (∀ op : MicroOp, op ≠ .exitBlock → op.Described) ∧
      ∀ edits, Edit.AllFit [] edits → ∀ (a b : OpId) (opA opB : MicroOp),
        let l := edits.foldl Edit.apply Listing.empty
        l.get? a = some opA → l.get? b = some opB → l.next? a = some b →
          opA ≠ .exitBlock → opB ≠ .exitBlock → opA.Independent l.temps opB →
          ∀ cpu, (l.moveAfter ⟨b, b⟩ (l.prev a)).run cpu = l.run cpu := by
  refine ⟨fun op hop => Machine.described_of_ne hop, ?_⟩
  intro edits hfit a b opA opB l hopA hopB hnext hexitA hexitB hindependent cpu
  obtain ⟨es, h, -⟩ := represents_empty.edits hfit
  have hhead : l.get? 0 = none := get?_edits Listing.empty edits 0
  obtain ⟨front, ea, eb, rest, rfl, rfl, rfl, hprev⟩ :=
    h.exists_neighbours (h.mem_of_get? hhead hopA) hnext
  obtain rfl : ea.op = opA := Option.some.inj ((h.op ea (by simp)).symm.trans hopA)
  obtain rfl : eb.op = opB := Option.some.inj ((h.op eb (by simp)).symm.trans hopB)
  rw [hprev]
  exact h.run_moveAfter_eq hexitA hexitB hindependent cpu

/-- An update in place is moved in front of a call of the trap handler that reads another word. The
two globals `x` and `y` have names and numbers of their own, and `z` is bound to the word of `x`. -/
theorem independent_neighbours_commute_update :
    ∃ edits, Edit.AllFit [] edits ∧
      let l := edits.foldl Edit.apply Listing.empty
      l.temps = #[.global "x" 0, .global "y" 4, .global "z" 2] ∧
        l.ops = [.set 1 7, .callTrap [1], .binaryImm .add 0 2 5, .exitBlock, .set 0 0] ∧
        (l.moveAfter ⟨3, 3⟩ (l.prev 2)).ids = [1, 3, 2, 4, 5] ∧
        MicroOp.Independent l.temps (.callTrap [1]) (.binaryImm .add 0 2 5) ∧
        (l.moveAfter ⟨3, 3⟩ (l.prev 2)).run (.zeroed .packed) = l.run (.zeroed .packed) := by
  let edits : List Edit :=
    [.addTemp (.global "x" 0), .addTemp (.global "y" 4), .addTemp (.global "z" 2),
      .append (.set 1 7), .append (.callTrap [1]), .append (.binaryImm .add 0 2 5),
      .append .exitBlock, .append (.set 0 0)]
  have hfit : Edit.AllFit [] edits := by
    simp only [edits, Edit.AllFit, Edit.Fits, and_self]
  have hindependent : MicroOp.Independent (edits.foldl Edit.apply Listing.empty).temps
      (.callTrap [1]) (.binaryImm .add 0 2 5) :=
    ⟨by decide, by decide, by decide, by decide⟩
  refine ⟨edits, hfit, rfl, by decide, by decide, hindependent, ?_⟩
  exact independent_neighbours_commute.2 edits hfit 2 3 _ _ (by decide) (by decide) (by decide)
    (by decide) (by decide) hindependent _

end Listing

end PacketLift
