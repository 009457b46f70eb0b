import PacketLift.Proofs.Block.Reading
import PacketLift.Proofs.MicroOp.Emission
import PacketLift.Proofs.Packet.Footprint
import PacketLift.Proofs.Packet.Moves

/-!
# The operations of lifted instructions

An instruction set that only appends leaves, for each instruction, a range of operations at the
end of the listing. While a packet is read these ranges stand one behind the other, in program
order, behind what was in the listing before. This module keeps them apart: a part is an
instruction with what it left, and the parts of a packet are what its records stand for.

## Main definitions

* `InstructionSet.OnlyAppends`: the sets that lifting can rely on
* `Part`, `Part.ops`, `Part.Executed`: an instruction with the operations it left
* `Parts`: the parts of a packet, one executed after the other

## Main results

* `Parts.exists_executed`: each part of a packet was executed
* `LiftsPlaces.exists_parts`: lifted instructions are parts, and their ranges stand in the listing
-/

namespace PacketLift

/-- Whether an operation is neither the start of a packet nor the exit of a block. -/
def MicroOp.isInner : MicroOp → Bool
  | packetStart _ => false
  | exitBlock => false
  | _ => true

/-- **An instruction set that only appends**: lifting an instruction puts some operations at the
end of the listing, none of them the start of a packet or the exit of the block, and declares some
temporaries. -/
def InstructionSet.OnlyAppends (isa : InstructionSet) : Prop :=
  ∀ (i : isa.Insn) (site : Site) (l : Listing) (s : isa.State), ∃ ops ts,
    (isa.execute i site l s).listing = l.extend ops ts ∧ ∀ op ∈ ops, op.isInner = true

/-- **A lifted instruction**, with what lifting it has left. -/
structure Part (isa : InstructionSet) where
  place : Place
  insn : isa.Insn
  footprint : Footprint
  /-- The operations that the instruction set appended. -/
  body : List MicroOp
  /-- The temporaries that it declared. -/
  temps : List Temp

variable {isa : InstructionSet}

namespace Part

/-- The operation that stores the address of the instruction. -/
def trace (p : Part isa) : List MicroOp :=
  if p.place.code.isTraced then [.set Global.pcTrace p.place.pc] else []

/-- **The operations of a lifted instruction**: its address is stored, and then it runs. -/
def ops (p : Part isa) : List MicroOp := p.trace ++ p.body

/-- The part is what the instruction at its place left, in the packet from `packetPc` to `nextPc`,
when the listing had the operations `done` and the temporaries `temps`, and the instructions
before it wrote `writes`. -/
structure Executed (p : Part isa) (packetPc nextPc : Word) (done : List MicroOp)
    (temps : Array Temp) (writes : RegisterSet) : Prop where
  decoded : ∃ s, (isa.read p.place.code s).1 = p.insn
  executed : ∃ l s, l.ops = done ++ p.trace ∧ l.temps = temps ∧
    let e := isa.execute p.insn (p.place.site packetPc nextPc (writes.contains .p)) l s
    e.footprint = p.footprint ∧ e.listing = l.extend p.body p.temps
  inner : ∀ op ∈ p.body, op.isInner = true

end Part

/-- **Parts executed one after the other**, from a listing with the given operations and
temporaries on. -/
inductive Parts (isa : InstructionSet) (packetPc nextPc : Word) :
    List MicroOp → Array Temp → RegisterSet → List (Part isa) → Prop where
  | nil {done : List MicroOp} {temps : Array Temp} {writes : RegisterSet} :
      Parts isa packetPc nextPc done temps writes []
  | cons {done : List MicroOp} {temps : Array Temp} {writes : RegisterSet} {p : Part isa}
      {rest : List (Part isa)} : p.Executed packetPc nextPc done temps writes →
      Parts isa packetPc nextPc (done ++ p.ops) (temps ++ p.temps.toArray)
        (writes.union p.footprint.writes) rest →
      Parts isa packetPc nextPc done temps writes (p :: rest)

/-- **Each part was executed**, and its temporaries are among those of all parts. -/
theorem Parts.exists_executed {packetPc nextPc : Word} {done : List MicroOp} {temps : Array Temp}
    {writes : RegisterSet} {parts : List (Part isa)}
    (h : Parts isa packetPc nextPc done temps writes parts) {p : Part isa} (hp : p ∈ parts) :
    ∃ done' temps' writes', p.Executed packetPc nextPc done' temps' writes' ∧
      temps.size ≤ temps'.size ∧
      temps'.size + p.temps.length ≤ temps.size + (parts.flatMap Part.temps).length := by
  induction h with
  | nil => cases hp
  | @cons done temps writes q rest hexec _ ih =>
    rw [List.flatMap_cons, List.length_append]
    rcases List.mem_cons.mp hp with rfl | hp
    · exact ⟨done, temps, writes, hexec, Nat.le_refl _, by omega⟩
    · obtain ⟨done', temps', writes', hexec', hle, hle'⟩ := ih hp
      have hsize : (temps ++ q.temps.toArray).size = temps.size + q.temps.length := by simp
      rw [hsize] at hle hle'
      exact ⟨done', temps', writes', hexec', by omega, by omega⟩

/-! ## Progress and its ranges -/

/-- The records of a roster cover ranges that end a listing. -/
structure Progress.Covers (p : Progress) (front : List Entry) (ranges : List (List Entry)) :
    Prop where
  listing : p.listing.Represents (front ++ ranges.flatten)
  records : List.Forall₂ Record.Holds p.roster.records ranges

/-- The record of what was appended to a listing covers it. -/
theorem Listing.Represents.holds_extend {l : Listing} {es : List Entry} (h : l.Represents es)
    (ops : List MicroOp) (ts : List Temp) (pc : Word) (footprint : Footprint) :
    Record.Holds { pc, footprint, ops := (l.extend ops ts).spanSince l.lastId }
      (numbered l.nodes.size ops) := by
  unfold Record.Holds
  by_cases hne : ops = []
  · simp [hne, spanSince_extend_nil, numbered]
  · obtain ⟨span, hspan, hcovers⟩ := h.spanSince_extend hne ts
    simpa [hspan] using hcovers

/-- What an instruction appends is one more range. -/
theorem Progress.Covers.lift_of_extend {p : Progress} {front : List Entry}
    {ranges : List (List Entry)} (h : p.Covers front ranges) {i : isa.Insn} {site : Site}
    {trace : Bool} {s : isa.State} {ops : List MicroOp} {ts : List Temp}
    (hlisting : (p.lift isa i site trace s).listing = p.listing.extend ops ts) :
    (p.lift isa i site trace s).Covers front
      (ranges ++ [Listing.numbered p.listing.nodes.size ops]) where
  listing := by
    have hrep := h.listing.extend ops ts
    rw [← hlisting, List.append_assoc] at hrep
    rw [List.flatten_concat]
    exact hrep
  records := by
    have hheld := h.listing.holds_extend ops ts site.pc
      (isa.execute i site
        (if trace then p.listing.append (.set Global.pcTrace site.pc) else p.listing) s).footprint
    rw [← hlisting] at hheld
    exact List.rel_append h.records (.cons hheld .nil)

/-- **One more instruction** is one more part, and its range is one more range. -/
theorem Progress.Covers.lift {p : Progress} {front : List Entry} {ranges : List (List Entry)}
    (h : p.Covers front ranges) (happ : isa.OnlyAppends) (packetPc nextPc : Word) (place : Place)
    (t s : isa.State) :
    ∃ (part : Part isa) (range : List Entry), part.place = place ∧
      part.Executed packetPc nextPc ((front ++ ranges.flatten).map Entry.op) p.listing.temps
        p.roster.writes ∧
      range.map Entry.op = part.ops ∧
      let q := p.lift isa (isa.read place.code t).1
        (place.site packetPc nextPc p.roster.predicatesWritten) place.code.isTraced s
      q.Covers front (ranges ++ [range]) ∧
      q.listing.temps = p.listing.temps ++ part.temps.toArray ∧
      ∃ record, record.footprint = part.footprint ∧ q.roster = p.roster.add record := by
  let i := (isa.read place.code t).1
  let site := place.site packetPc nextPc p.roster.predicatesWritten
  let traced :=
    if place.code.isTraced then p.listing.append (.set Global.pcTrace place.pc) else p.listing
  obtain ⟨body, ts, hbody, hinner⟩ := happ i site traced s
  let part : Part isa := ⟨place, i, (isa.execute i site traced s).footprint, body, ts⟩
  -- storing the address is part of the range, though the instruction set does not emit it
  have htraced : traced = p.listing.extend part.trace [] := by
    simp only [traced, part, Part.trace]
    split_ifs
    · exact Listing.append_eq_extend _ _
    · exact (Listing.extend_nil _).symm
  have hall : (isa.execute i site traced s).listing = p.listing.extend part.ops ts := by
    rw [hbody, htraced, Listing.extend_extend]
    rfl
  refine ⟨part, Listing.numbered p.listing.nodes.size part.ops, rfl, ⟨⟨t, rfl⟩, ?_, hinner⟩,
    Listing.map_op_numbered _ _, h.lift_of_extend hall, ?_, _, rfl, rfl⟩
  · refine ⟨traced, s, ?_, ?_, rfl, hbody⟩
    · rw [htraced, (h.listing.extend part.trace []).ops_eq, List.map_append,
        Listing.map_op_numbered]
    · rw [htraced, Listing.temps_extend]
      exact Array.append_empty
  · exact (congrArg Listing.temps hall).trans (Listing.temps_extend _ _ _)

/-- **Lifted instructions are parts**, and their ranges stand one behind the other. -/
theorem LiftsPlaces.exists_parts {packetPc nextPc : Word} {p q : Progress} {ps : List Place}
    (h : LiftsPlaces isa packetPc nextPc p ps q) (happ : isa.OnlyAppends) {front : List Entry}
    {ranges : List (List Entry)} (hp : p.Covers front ranges) :
    ∃ (parts : List (Part isa)) (new : List (List Entry)), parts.map Part.place = ps ∧
      Parts isa packetPc nextPc ((front ++ ranges.flatten).map Entry.op) p.listing.temps
        p.roster.writes parts ∧
      new.map (List.map Entry.op) = parts.map Part.ops ∧
      q.Covers front (ranges ++ new) ∧
      q.listing.temps = p.listing.temps ++ (parts.flatMap Part.temps).toArray ∧
      q.roster.records.map Record.footprint =
        p.roster.records.map Record.footprint ++ parts.map Part.footprint ∧
      q.roster.writes = unionOver Footprint.writes p.roster.writes (parts.map Part.footprint) ∧
      q.roster.conditional =
        unionOver Footprint.conditional p.roster.conditional (parts.map Part.footprint) := by
  induction h generalizing ranges with
  | nil => exact ⟨[], [], rfl, .nil, rfl, by simpa using hp, by simp, by simp, rfl, rfl⟩
  | @cons p q place rest t s hroom _ ih =>
    obtain ⟨part, range, rfl, hexec, hops, hcovers, htemps, record, hfoot, hroster⟩ :=
      hp.lift happ packetPc nextPc place t s
    obtain ⟨parts, new, hplaces, hparts, hnew, hend, htemps', hfoots, hwrites, hcond⟩ := ih hcovers
    rw [hroster] at hparts hfoots hwrites hcond
    refine ⟨part :: parts, range :: new, by rw [List.map_cons, hplaces], .cons hexec ?_,
      by rw [List.map_cons, List.map_cons, hops, hnew], by simpa using hend, ?_, ?_, ?_, ?_⟩
    · rw [htemps] at hparts
      simpa [Roster.add, hfoot, hops] using hparts
    · rw [htemps', htemps]
      simp
    · rw [hfoots]
      simp [Roster.add, hfoot]
    · rw [hwrites]
      simp [Roster.add, hfoot, unionOver]
    · rw [hcond]
      simp [Roster.add, hfoot, unionOver]

end PacketLift
