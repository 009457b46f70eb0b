import PacketLift.Packet.Closing
import PacketLift.Proofs.MicroOp.Emission
import PacketLift.Proofs.Packet.Moves
import PacketLift.Proofs.Packet.Order

/-!
# What closing a packet emits

Closing a packet appends four groups of operations: the commit of staged values, the end of
hardware loops, the choice of the program counter, and the priming of conditional writes. This
module lists them, and shows where they stand in the listing when the packet is closed: the
priming right behind the anchor, then the ranges of the records in their order, then the rest.

## Main definitions

* `commitOps`, `loopOps`, `pcOps`, `primeOps`: the four groups
* `epilogueOps`: all that stands behind the records

## Main results

* `emits_commitRegisters`, `emits_endLoops`, `emits_resolvePc`: each group is what is emitted
* `closePacket_represents`: the listing of a closed packet
-/

namespace PacketLift

/-! ## The groups -/

/-- Staged values become live, and then all staging words zero. -/
def commitOps (committed : RegisterSet) : List MicroOp :=
  committed.toList.map (fun r => .copy (Global.live r) (Global.staged r))
    ++ committed.toList.map (fun r => .set (Global.staged r) 0)

/-- Live values for staging words. -/
def primeOps (primed : RegisterSet) : List MicroOp :=
  primed.toList.map fun r => .copy (Global.staged r) (Global.live r)

/-- Jump back to a loop's start and count down, if `take` is one. -/
def jumpBackOps (blank take : TempId) (start count : Register) : List MicroOp :=
  [.select .ne Global.pc take blank (Global.live start) Global.pc,
    .binary .sub (Global.live count) (Global.live count) take,
    .binary .or Global.pcWritten Global.pcWritten take]

/-- The end of hardware loops, with locals from `n` on. -/
def loopOps (n : TempId) : LoopEnd → List MicroOp
  | .loop0 =>
    [.set n 1, .set (n + 1) 0, .compare .gtu (n + 2) (Global.live .lc0) n]
      ++ jumpBackOps (n + 1) (n + 2) .sa0 .lc0
  | .loop1 =>
    [.set n 1, .set (n + 1) 0, .compare .gtu (n + 2) (Global.live .lc1) n]
      ++ jumpBackOps (n + 1) (n + 2) .sa1 .lc1
  | .both =>
    [.set n 1, .set (n + 1) 0, .compare .gtu (n + 2) (Global.live .lc0) n,
      .compare .gtu (n + 3) (Global.live .lc1) n, .binaryImm .xor (n + 4) (n + 2) 1,
      .binary .and (n + 5) (n + 3) (n + 4)]
      ++ jumpBackOps (n + 1) (n + 2) .sa0 .lc0 ++ jumpBackOps (n + 1) (n + 5) .sa1 .lc1

/-- How many locals the end of hardware loops takes. -/
def LoopEnd.locals : LoopEnd → Nat
  | .loop0 => 3
  | .loop1 => 3
  | .both => 6

/-- The program counter behind the packet, with locals from `n` on. -/
def pcOps (n : TempId) (lastPc : Word) : List MicroOp :=
  [.set (n + 1) lastPc, .binaryImm .add n (n + 1) 4, .set (n + 2) 0,
    .select .gt Global.pc Global.pcWritten (n + 2) Global.pc n, .set Global.pcWritten 0]

theorem emits_commitRegisters (writes : RegisterSet) (n : TempId) :
    Emits (commitRegisters writes) n (writes.erase .pc) (commitOps (writes.erase .pc)) 0 := by
  refine Emits.bind (Emits.forM _ _ (fun r => .copy (Global.live r) (Global.staged r)) n ?_)
    (Emits.bind (Emits.forM _ _ (fun r => .set (Global.staged r) 0) n ?_) (Emits.pure _ n)
      rfl (List.append_nil _).symm rfl) rfl rfl rfl
  · exact fun r _ => Emits.emit _ n
  · exact fun r _ => Emits.emit _ n

theorem emits_loopContinues (one : TempId) (count : Register) (n : TempId) :
    Emits (loopContinues one count) n n [.compare .gtu n (Global.live count) one] 1 :=
  .bind (.freshTemp n) (.bind (.emit _ _) (.pure n _) rfl rfl rfl) rfl rfl rfl

theorem emits_jumpBack (blank take : TempId) (start count : Register) (n : TempId) :
    Emits (jumpBack blank take start count) n () (jumpBackOps blank take start count) 0 :=
  .bind (.emit _ n) (.bind (.emit _ n) (.emit _ n) rfl rfl rfl) rfl rfl rfl

theorem emits_endLoops (kind : LoopEnd) (n : TempId) :
    Emits (endLoops kind) n () (loopOps n kind) kind.locals := by
  cases kind with
  | loop0 =>
    exact .bind (.constant 1 n) (.bind (.constant 0 (n + 1))
      (.bind (emits_loopContinues n .lc0 (n + 2)) (emits_jumpBack _ _ _ _ _) rfl rfl rfl)
      rfl rfl rfl) rfl rfl rfl
  | loop1 =>
    exact .bind (.constant 1 n) (.bind (.constant 0 (n + 1))
      (.bind (emits_loopContinues n .lc1 (n + 2)) (emits_jumpBack _ _ _ _ _) rfl rfl rfl)
      rfl rfl rfl) rfl rfl rfl
  | both =>
    exact .bind (.constant 1 n) (.bind (.constant 0 (n + 1))
      (.bind (emits_loopContinues n .lc0 (n + 2)) (.bind (emits_loopContinues n .lc1 (n + 3))
        (.bind (.freshTemp (n + 4)) (.bind (.emit _ _) (.bind (.freshTemp (n + 5))
          (.bind (.emit _ _) (.bind (emits_jumpBack _ _ _ _ _) (emits_jumpBack _ _ _ _ _)
            rfl rfl rfl) rfl rfl rfl) rfl rfl rfl) rfl rfl rfl) rfl rfl rfl) rfl rfl rfl)
        rfl rfl rfl) rfl rfl rfl) rfl rfl rfl

theorem emits_resolvePc (lastPc : Word) (n : TempId) :
    Emits (resolvePc lastPc) n () (pcOps n lastPc) 3 :=
  .bind (.freshTemp n) (.bind (.constant lastPc (n + 1)) (.bind (.emit _ _)
    (.bind (.constant 0 (n + 2)) (.bind (.emit _ _) (.emit _ _) rfl rfl rfl) rfl rfl rfl)
    rfl rfl rfl) rfl rfl rfl) rfl rfl rfl

/-! ## The whole -/

/-- How many locals are taken when loops end, or none do. -/
def loopLocals (loopEnd : Option LoopEnd) : Nat := loopEnd.elim 0 LoopEnd.locals

/-- All operations behind the records of a packet, with locals from `n` on. -/
def epilogueOps (n : TempId) (committed : RegisterSet) (loopEnd : Option LoopEnd)
    (changesPc : Bool) (lastPc : Word) : List MicroOp :=
  commitOps committed ++ loopEnd.elim [] (loopOps n)
    ++ if changesPc then pcOps (n + loopLocals loopEnd) lastPc else []

/-- How many locals are taken behind the records of a packet. -/
def epilogueLocals (loopEnd : Option LoopEnd) (changesPc : Bool) : Nat :=
  loopLocals loopEnd + if changesPc then 3 else 0

theorem emits_loopEnd (loopEnd : Option LoopEnd) (n : TempId) :
    Emits (loopEnd.forM endLoops) n () (loopEnd.elim [] (loopOps n)) (loopLocals loopEnd) := by
  cases loopEnd with
  | none => exact Emits.pure () n
  | some kind => exact emits_endLoops kind n

theorem emits_changesPc (changesPc : Bool) (lastPc : Word) (n : TempId) :
    Emits (if changesPc then resolvePc lastPc else Pure.pure ()) n ()
      (if changesPc then pcOps n lastPc else []) (if changesPc then 3 else 0) := by
  cases changesPc with
  | false => exact Emits.pure () n
  | true => exact emits_resolvePc lastPc n

/-- **Priming** puts its operations right behind the anchor, whatever was emitted since. -/
theorem primeConditional_represents {l : Listing} {front rest : List Entry}
    (h : l.Represents (front ++ rest)) (conditional : RegisterSet) :
    ∃ prime l', (primeConditional conditional ((front.map Entry.id).getLastD 0)).run l =
        (conditional.erase .pc, l') ∧ l'.Represents (front ++ prime ++ rest) ∧
      prime.map Entry.op = primeOps (conditional.erase .pc) ∧ l'.temps = l.temps := by
  let copies : Emit Unit := (conditional.erase .pc).toList.forM fun r =>
    emit (.copy (Global.staged r) (Global.live r))
  let ops := primeOps (conditional.erase .pc)
  have hcopies : copies.run l = ((), l.extend ops []) :=
    Emits.forM _ _ (fun r => .copy (Global.staged r) (Global.live r)) l.tempCount
      (fun r _ => Emits.emit _ _) l rfl
  have hrun : (primeConditional conditional ((front.map Entry.id).getLastD 0)).run l =
      (conditional.erase .pc, ((copies.run l).2.spanSince l.lastId).elim (copies.run l).2
        ((copies.run l).2.moveAfter · ((front.map Entry.id).getLastD 0))) := rfl
  rw [hcopies] at hrun
  by_cases hne : ops = []
  · rw [hne, Listing.spanSince_extend_nil, Listing.extend_nil] at hrun
    exact ⟨[], l, hrun, by simpa using h, hne.symm, rfl⟩
  · obtain ⟨span, hspan, hcovers⟩ := h.spanSince_extend hne []
    rw [hspan] at hrun
    have hextended : (l.extend ops []).Represents
        (front ++ rest ++ Listing.numbered l.nodes.size ops ++ []) := by
      simpa using h.extend ops []
    have hmoved := hextended.moveAfter hcovers (List.append_nil (front ++ rest))
    refine ⟨_, _, hrun, hmoved, Listing.map_op_numbered _ _, ?_⟩
    simp

/-- What closing comes to when the records run in the given order. -/
def Roster.closing (roster : Roster) (loopEnd : Option LoopEnd) (order : List Nat) : Closing where
  order := order
  changesPc := roster.writes.contains .pc || loopEnd.isSome
  committed := roster.writes.erase .pc
  primed := roster.conditional.erase .pc

theorem emits_emitEpilogue (writes : RegisterSet) (site : PacketSite) (changesPc : Bool)
    (n : TempId) :
    Emits (emitEpilogue writes site changesPc) n (writes.erase .pc)
      (epilogueOps n (writes.erase .pc) site.loopEnd changesPc site.lastPc)
      (epilogueLocals site.loopEnd changesPc) := by
  refine .bind (emits_commitRegisters writes n) (.bind (emits_loopEnd site.loopEnd n)
    (.bind (emits_changesPc changesPc site.lastPc _) (.pure _ _) rfl (List.append_nil _).symm rfl)
    rfl rfl rfl) rfl ?_ (Nat.zero_add _).symm
  rw [epilogueOps, List.append_assoc]

/-- A packet can be closed only if its records can be put in order. -/
theorem exists_schedule_of_closePacket {roster : Roster} {site : PacketSite} {l l' : Listing}
    {closing : Closing} (h : closePacket roster site l = .ok (closing, l')) :
    ∃ order, schedule (roster.records.map (·.footprint)) roster.writes site.packetPc =
      .ok order := by
  cases horder : schedule (roster.records.map (·.footprint)) roster.writes site.packetPc with
  | error fault =>
    rw [closePacket, horder] at h
    cases h
  | ok order => exact ⟨order, rfl⟩

/-- The records in their order, before anything is emitted behind them. -/
theorem Listing.Represents.ordered {l : Listing} {front : List Entry} {ranges : List (List Entry)}
    {records : List Record} {order : List Nat} (h : l.Represents (front ++ ranges.flatten))
    (hrec : List.Forall₂ Record.Holds records ranges)
    (hperm : order.Perm (List.range records.length)) :
    (if isReordered order then l.relocate ((front.map Entry.id).getLastD 0) records order
      else l).Represents (front ++ order.flatMap (ranges.getD · [])) := by
  cases hre : isReordered order with
  | false =>
    have horder : order = List.range ranges.length := by
      rw [eq_range_of_not_isReordered hre, hperm.length_eq, List.length_range, hrec.length_eq]
    rw [horder, Listing.range_flatMap_getD]
    exact h
  | true =>
    have hall : l.Represents (front ++ ranges.flatten ++ []) := by rwa [List.append_nil]
    have hmoved := hall.relocate hrec hperm
    rwa [List.append_nil] at hmoved

/-- **The listing of a closed packet**: behind the anchor stand the priming, the ranges of the
records in the order that was found, and the epilogue. -/
theorem closePacket_represents {roster : Roster} {site : PacketSite} {l : Listing}
    {front : List Entry} {ranges : List (List Entry)} {order : List Nat}
    (h : l.Represents (front ++ ranges.flatten))
    (hrec : List.Forall₂ Record.Holds roster.records ranges)
    (hanchor : site.anchor = (front.map Entry.id).getLastD 0)
    (horder : schedule (roster.records.map (·.footprint)) roster.writes site.packetPc =
      .ok order) :
    ∃ prime epilogue l', closePacket roster site l =
        .ok (roster.closing site.loopEnd order, l') ∧
      l'.Represents (front ++ prime ++ order.flatMap (ranges.getD · []) ++ epilogue) ∧
      prime.map Entry.op = primeOps (roster.conditional.erase .pc) ∧
      epilogue.map Entry.op = epilogueOps l.tempCount (roster.writes.erase .pc)
        site.loopEnd (roster.closing site.loopEnd order).changesPc site.lastPc ∧
      l'.temps = l.temps ++ (List.replicate (epilogueLocals site.loopEnd
        (roster.closing site.loopEnd order).changesPc) .scratch).toArray := by
  have hperm : order.Perm (List.range roster.records.length) := by
    simpa using schedule_perm horder
  have hordered := h.ordered hrec hperm
  rw [← hanchor] at hordered
  let ordered :=
    if isReordered order then l.relocate site.anchor roster.records order else l
  have htemps : ordered.temps = l.temps := by
    rw [apply_ite Listing.temps, Listing.temps_relocate, ite_self]
  let changesPc := (roster.closing site.loopEnd order).changesPc
  let ops := epilogueOps l.tempCount (roster.writes.erase .pc) site.loopEnd changesPc site.lastPc
  let locals := List.replicate (epilogueLocals site.loopEnd changesPc) Temp.scratch
  have hemits : (emitEpilogue roster.writes site changesPc).run ordered =
      (roster.writes.erase .pc, ordered.extend ops locals) :=
    emits_emitEpilogue roster.writes site changesPc l.tempCount ordered
      (congrArg Array.size htemps)
  have hextended : (ordered.extend ops locals).Represents (front
      ++ (order.flatMap (ranges.getD · []) ++ Listing.numbered ordered.nodes.size ops)) := by
    rw [← List.append_assoc]
    exact hordered.extend ops locals
  -- the priming is emitted last, and moved to the front
  obtain ⟨prime, l', hprime, hrep, hops, hkept⟩ :=
    primeConditional_represents hextended roster.conditional
  rw [← hanchor] at hprime
  refine ⟨prime, _, l', ?_, by simpa using hrep, hops, Listing.map_op_numbered _ _, ?_⟩
  · have hrun : closePacket roster site l = .ok
        (let commit := (emitEpilogue roster.writes site changesPc).run ordered
        let primed := (primeConditional roster.conditional site.anchor).run commit.2
        ({ order, changesPc, committed := commit.1, primed := primed.1 }, primed.2)) := by
      rw [closePacket, horder]
      rfl
    simp only [hrun, hemits, hprime]
    rfl
  · rw [hkept, Listing.temps_extend, htemps]

end PacketLift
