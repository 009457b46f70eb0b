import PacketLift.Proofs.Block.Parts
import PacketLift.Proofs.Packet.Epilogue

/-!
# Packets as they are lifted

A lifted packet is its words, the parts that were read from them and the order in which these run.
Everything else about it follows: the registers it writes, the loops it ends, what is told about
it, and its operations in the listing.

## Main definitions

* `LiftedPacket`, with `ops`, `temps`, `info`, `exit?`
* `LiftedPacket.LiftedFrom`: the packet is what memory has at its address, lifted behind a listing

## Main results

* `exists_packet_of_liftPacket`: lifting a packet, if it succeeds, puts its operations at the end
* `exists_liftPacket`: when lifting a packet succeeds
-/

namespace PacketLift

variable {isa : InstructionSet}

/-- **A packet as it was lifted.** -/
structure LiftedPacket (isa : InstructionSet) where
  /-- The address of its first word. -/
  pc : Word
  words : List Word
  /-- Its instructions in program order. -/
  parts : List (Part isa)
  /-- The places of the instructions, in the order in which they run. -/
  order : List Nat

namespace LiftedPacket

/-- The address behind the packet. -/
def after (p : LiftedPacket isa) : Word := p.pc + 4 * BitVec.ofNat 32 p.words.length

/-- The address of the packet's last word. -/
def lastPc (p : LiftedPacket isa) : Word := p.pc + 4 * BitVec.ofNat 32 (p.words.length - 1)

def footprints (p : LiftedPacket isa) : List Footprint := p.parts.map Part.footprint

/-- All registers that an instruction of the packet may write. -/
def writes (p : LiftedPacket isa) : RegisterSet := unionOver Footprint.writes .empty p.footprints

/-- All registers that an instruction of the packet writes under a predicate. -/
def conditional (p : LiftedPacket isa) : RegisterSet :=
  unionOver Footprint.conditional .empty p.footprints

/-- The loops that end with the packet. -/
def loopEnd (p : LiftedPacket isa) : Option LoopEnd := loopEndOf p.words

/-- Whether the packet may change the program counter. -/
def changesPc (p : LiftedPacket isa) : Bool := p.writes.contains .pc || p.loopEnd.isSome

/-- What is told about the packet. -/
def info (p : LiftedPacket isa) : PacketInfo where
  pc := p.pc
  words := p.words.length
  instructions := p.parts.length
  loopEnd := p.loopEnd
  closing :=
    { order := p.order, changesPc := p.changesPc, committed := p.writes.erase .pc
      primed := p.conditional.erase .pc }

/-- Why a block ends with this packet, if it has to. -/
def exit? (p : LiftedPacket isa) : Option BlockExit :=
  if p.changesPc then some .branch else if hasTrapMark p.words then some .trap else none

/-- The operations of the instruction at a place. -/
def partOps (p : LiftedPacket isa) (i : Nat) : List MicroOp := (p.parts[i]?.map Part.ops).getD []

/-- The temporaries that the instructions declared. -/
def partTemps (p : LiftedPacket isa) : List Temp := p.parts.flatMap Part.temps

/-- All temporaries of the packet. -/
def temps (p : LiftedPacket isa) : List Temp :=
  p.partTemps ++ List.replicate (epilogueLocals p.loopEnd p.changesPc) .scratch

/-- **The operations of a packet**, when there are `n` temporaries before it. -/
def ops (p : LiftedPacket isa) (n : TempId) : List MicroOp :=
  [.packetStart p.pc] ++ primeOps (p.conditional.erase .pc) ++ p.order.flatMap p.partOps
    ++ epilogueOps (n + p.partTemps.length) (p.writes.erase .pc) p.loopEnd p.changesPc p.lastPc

/-- **The packet is what memory has at its address**, lifted behind a listing with the given
operations and temporaries: its words end with the first that closes a packet, its parts are the
instructions in these words, executed one after the other, and its order is the one that the
footprints ask for. -/
structure LiftedFrom (p : LiftedPacket isa) (fetch : Fetch) (done : List MicroOp)
    (temps : Array Temp) : Prop where
  words : window fetch p.pc readLimit = ⟨p.words, .closed⟩
  places : places p.pc none p.words = some (p.parts.map Part.place)
  room : p.parts.length ≤ Roster.capacity
  parts : Parts isa p.pc p.after (done ++ [.packetStart p.pc]) temps .empty p.parts
  order : schedule p.footprints p.writes p.pc = .ok p.order

end LiftedPacket

/-! ## Counting words -/

/-- Whether the word at a position is marked, when `n` words come before the given ones. -/
def isMarkedFrom (n : Nat) (words : List Word) (position : Nat) : Bool :=
  n ≤ position && isMarked words (position - n)

theorem isMarkedFrom_cons (n : Nat) (w : Word) (ws : List Word) (position : Nat) :
    isMarkedFrom n (w :: ws) position =
      ((w.role = .loopMark && n = position) || isMarkedFrom (n + 1) ws position) := by
  unfold isMarkedFrom isMarked
  rcases Nat.lt_trichotomy n position with h | rfl | h
  · have hsub : position - n = (position - (n + 1)) + 1 := by omega
    rw [hsub]
    simp [h.ne, h.le, Nat.succ_le_of_lt h]
  · simp
  · simp [h.ne', h.not_ge, Nat.not_le.mpr (Nat.lt_succ_of_lt h)]

theorem Build.foldl_countWord (b : Build) (ws : List Word) :
    ws.foldl countWord b = { b with
      words := b.words + BitVec.ofNat 32 ws.length
      draft := { b.draft with
        words := b.draft.words + ws.length
        mark0 := b.draft.mark0 || isMarkedFrom b.draft.words ws 0
        mark1 := b.draft.mark1 || isMarkedFrom b.draft.words ws 1
        trap := b.draft.trap || hasTrapMark ws } } := by
  induction ws generalizing b with
  | nil => simp [isMarkedFrom, isMarked, hasTrapMark]
  | cons w ws ih =>
    rw [List.foldl_cons, ih, countWord, Draft.countWord_eq]
    have hwords : b.words + 1 + BitVec.ofNat 32 ws.length =
        b.words + BitVec.ofNat 32 (1 + ws.length) := by
      rw [BitVec.ofNat_add, BitVec.add_assoc]
      rfl
    simp only [isMarkedFrom_cons, hasTrapMark, List.any_cons, Bool.or_assoc, List.length_cons,
      Nat.add_comm ws.length, Nat.add_assoc, hwords]

/-- The address behind words that were counted since. The counter may have wrapped around: addresses
do so too. -/
theorem Build.add_sub_words {b b' : Build} {n : Nat}
    (h : b'.words = b.words + BitVec.ofNat 32 n) (pc : Word) :
    pc + 4 * (b'.words - b.words) = pc + 4 * BitVec.ofNat 32 n := by
  rw [h, BitVec.add_comm b.words, BitVec.add_sub_cancel]

/-! ## Closing -/

/-- Where the packet of a draft stands when its last word is at `pc`. -/
def Draft.site (d : Draft) (pc : Word) : PacketSite where
  packetPc := d.packetPc
  lastPc := pc
  anchor := d.anchor
  loopEnd := d.loopEnd

/-- The build after its packet is closed. -/
def Build.finished (b : Build) (closing : Closing) (listing : Listing) : Build :=
  { b with
    listing
    exit :=
      if closing.changesPc then some .branch else if b.draft.trap then some .trap else none
    packets := b.packets ++
      [{ pc := b.draft.packetPc, words := b.draft.words, instructions := b.draft.roster.size
         closing, loopEnd := b.draft.loopEnd }]
    draft := { b.draft.reset with phase := .awaiting } }

/-- A packet is finished if no extender is left and it can be closed. -/
theorem exists_gives_finishPacket {State : Type} {pc : Word} {b b' : Build} {s : Session State} :
    (∃ s', (finishPacket pc b).Gives s b' s') ↔
      b.draft.extender = none ∧ ∃ closing listing,
        closePacket b.draft.roster (b.draft.site pc) b.listing = .ok (closing, listing) ∧
        b.finished closing listing = b' := by
  unfold finishPacket
  cases hextender : b.draft.extender with
  | some pending =>
    refine iff_of_false ?_ (by simp)
    rintro ⟨s', h⟩
    obtain ⟨_, _, hthrow, -⟩ := Lift.gives_bind.mp h
    exact Lift.not_gives_throw hthrow
  | none =>
    simp only [Lift.gives_bind, Lift.gives_noteAll, Lift.gives_pure, Lift.gives_except]
    constructor
    · rintro ⟨s', ⟨closing, listing⟩, t, ⟨hclose, -⟩, -, -, -, rfl, -⟩
      exact ⟨trivial, closing, listing, hclose, rfl⟩
    · rintro ⟨-, closing, listing, hclose, rfl⟩
      exact ⟨_, (closing, listing), s, ⟨hclose, rfl⟩, (), _, rfl, rfl, rfl⟩

/-! ## One packet -/

/-- The build behind the start of a packet. -/
def Build.opened (b : Build) (pc nextPc : Word) : Build :=
  { b with
    listing := b.listing.append (.packetStart pc)
    draft := b.draft.begin pc nextPc (b.listing.append (.packetStart pc)).lastId }

/-- A packet is lifted if its words can be read and it can be finished. -/
theorem gives_liftPacket_iff {fetch : Fetch} {pc : Word} {b b' : Build}
    {s s' : Session isa.State} :
    (liftPacket isa fetch pc b).Gives s b' s' ↔
      ∃ nextPc words b₁ s₁, addressBehind fetch pc = .ok nextPc ∧
        window fetch pc readLimit = ⟨words, .closed⟩ ∧
        (liftWords isa pc (b.opened pc nextPc) words).Gives s b₁ s₁ ∧
        (finishPacket (pc + 4 * BitVec.ofNat 32 (words.length - 1)) b₁).Gives s₁ b' s' := by
  unfold liftPacket
  simp only [Lift.gives_bind, Lift.gives_except]
  constructor
  · rintro ⟨nextPc, t, ⟨hnext, rfl⟩, b₁, s₁, hwords, hend⟩
    rcases hwindow : window fetch pc readLimit with ⟨words, ending⟩
    rw [hwindow] at hwords hend
    cases ending with
    | closed => exact ⟨nextPc, words, b₁, s₁, hnext, rfl, hwords, hend⟩
    | unmapped address => exact absurd hend Lift.not_gives_throw
    | unfinished => exact absurd hend Lift.not_gives_throw
  · rintro ⟨nextPc, words, b₁, s₁, hnext, hwindow, hwords, hend⟩
    refine ⟨nextPc, s, ⟨hnext, rfl⟩, b₁, s₁, ?_, ?_⟩
    · rw [hwindow]
      exact hwords
    · rw [hwindow]
      exact hend

/-- A packet that fits has its address behind it in the usual place. -/
theorem addressBehind_of_places {fetch : Fetch} {pc : Word} {words : List Word} {ps : List Place}
    (hwindow : window fetch pc readLimit = ⟨words, .closed⟩)
    (hps : places pc none words = some ps) (hroom : ps.length ≤ Roster.capacity) :
    addressBehind fetch pc = .ok (pc + 4 * BitVec.ofNat 32 words.length) := by
  have hlen := length_le_of_places hps
  have hfits : words.length ≤ searchLimit := by
    simp only [Option.toList_none, List.length_nil] at hlen
    simp only [Roster.capacity] at hroom
    simp only [searchLimit]
    omega
  have haddress := addressBehind_eq (congrArg Window.ending hwindow)
    ((congrArg (·.words.length) hwindow).le.trans hfits)
  rwa [hwindow] at haddress

/-- **The words of a packet have been read**: the build `b'` has the given parts behind what `b`
had, and their ranges stand in its listing behind the start of the packet. -/
structure Build.HasRead (b' b : Build) (pc nextPc : Word) (words : List Word) (es : List Entry)
    (parts : List (Part isa)) (ranges : List (List Entry)) : Prop where
  places : places pc none words = some (parts.map Part.place)
  room : parts.length ≤ Roster.capacity
  executed :
    Parts isa pc nextPc (es.map Entry.op ++ [.packetStart pc]) b.listing.temps .empty parts
  rangeOps : ranges.map (List.map Entry.op) = parts.map Part.ops
  covers : b'.progress.Covers (es ++ [⟨b.listing.nodes.size, .packetStart pc⟩]) ranges
  temps : b'.listing.temps = b.listing.temps ++ (parts.flatMap Part.temps).toArray
  footprints : b'.draft.roster.records.map (·.footprint) = parts.map Part.footprint
  writes : b'.draft.roster.writes =
    unionOver Footprint.writes .empty (parts.map Part.footprint)
  conditional : b'.draft.roster.conditional =
    unionOver Footprint.conditional .empty (parts.map Part.footprint)
  frame : b'.frame = { b with
    listing := .empty
    words := b.words + BitVec.ofNat 32 words.length
    draft :=
      { phase := .accumulating, packetPc := pc, nextPc, anchor := b.listing.nodes.size
        words := words.length, mark0 := isMarked words 0, mark1 := isMarked words 1
        trap := hasTrapMark words } }

theorem exists_hasRead_of_liftWords (happ : isa.OnlyAppends) {pc nextPc : Word} {b b' : Build}
    {words : List Word} {s s' : Session isa.State}
    (h : (liftWords isa pc (b.opened pc nextPc) words).Gives s b' s')
    (hextender : b'.draft.extender = none) {es : List Entry} (hes : b.listing.Represents es) :
    ∃ (parts : List (Part isa)) (ranges : List (List Entry)),
      b'.HasRead b pc nextPc words es parts ranges := by
  obtain ⟨ps, hps, hplaces, hframe⟩ := exists_places_of_liftWords h hextender
  have hopened := hes.append (.packetStart pc)
  have hcovers : (b.opened pc nextPc).progress.Covers
      (es ++ [⟨b.listing.nodes.size, .packetStart pc⟩]) [] :=
    ⟨(List.append_nil _).symm ▸ hopened, .nil⟩
  obtain ⟨parts, ranges, rfl, hparts, hranges, hend, htemps, hfoots, hwrites, hcond⟩ :=
    hplaces.exists_parts happ hcovers
  have hroom : 0 + (parts.map Part.place).length ≤ Roster.capacity :=
    hplaces.length_le (Nat.zero_le _)
  have hanchor : (b.listing.append (.packetStart pc)).lastId = b.listing.nodes.size := by
    simp [hopened.lastId_eq]
  refine ⟨parts, ranges, hps, ?_, ?_, hranges, hend, htemps, hfoots, hwrites, hcond, ?_⟩
  · rwa [Nat.zero_add, List.length_map] at hroom
  · rw [List.flatten_nil, List.append_nil, List.map_append] at hparts
    exact hparts
  · rw [hframe, Build.foldl_countWord]
    simp [Build.frame, Build.opened, Draft.begin, Draft.reset, isMarkedFrom, hanchor]

namespace Build.HasRead

variable {b b' : Build} {p : LiftedPacket isa} {es : List Entry} {ranges : List (List Entry)}

theorem packetPc_eq (h : b'.HasRead b p.pc p.after p.words es p.parts ranges) :
    b'.draft.packetPc = p.pc := congrArg (·.draft.packetPc) h.frame

theorem loopEnd_eq (h : b'.HasRead b p.pc p.after p.words es p.parts ranges) :
    b'.draft.loopEnd = p.loopEnd := congrArg (·.draft.loopEnd) h.frame

theorem closing_eq (h : b'.HasRead b p.pc p.after p.words es p.parts ranges) :
    b'.draft.roster.closing p.loopEnd p.order = p.info.closing := by
  simp only [Roster.closing, h.writes, h.conditional]
  rfl

/-- The ranges in the order of the packet have the operations of its parts. -/
theorem map_op_ranges (h : b'.HasRead b p.pc p.after p.words es p.parts ranges) :
    (p.order.flatMap (ranges.getD · [])).map Entry.op = p.order.flatMap p.partOps := by
  rw [List.map_flatMap]
  refine List.flatMap_congr fun i _ => ?_
  rw [LiftedPacket.partOps, ← List.getElem?_map, ← h.rangeOps, List.getElem?_map,
    List.getD_eq_getElem?_getD]
  cases ranges[i]? <;> rfl

/-- **Closing the packet** puts all its operations in their final places. -/
theorem closePacket_eq (h : b'.HasRead b p.pc p.after p.words es p.parts ranges)
    (horder : schedule p.footprints p.writes p.pc = .ok p.order) :
    ∃ listing new, closePacket b'.draft.roster (b'.draft.site p.lastPc) b'.listing =
        .ok (p.info.closing, listing) ∧
      listing.Represents (es ++ new) ∧ new.map Entry.op = p.ops b.listing.tempCount ∧
      listing.temps = b.listing.temps ++ p.temps.toArray := by
  let start : Entry := ⟨b.listing.nodes.size, .packetStart p.pc⟩
  have hanchor : b'.draft.anchor = ((es ++ [start]).map Entry.id).getLastD 0 := by
    have hstart : b'.draft.anchor = start.id := congrArg (·.draft.anchor) h.frame
    simp [hstart]
  have horder' : schedule (b'.draft.roster.records.map (·.footprint)) b'.draft.roster.writes
      (b'.draft.site p.lastPc).packetPc = .ok p.order := by
    rw [h.footprints, h.writes, Draft.site, h.packetPc_eq]
    exact horder
  obtain ⟨prime, epilogue, listing, hclosed, hrep, hprime, hepilogue, hlocals⟩ :=
    closePacket_represents h.covers.listing h.covers.records hanchor horder'
  have hcount : b'.listing.tempCount = b.listing.tempCount + p.partTemps.length := by
    simp [Listing.tempCount, h.temps, LiftedPacket.partTemps]
  have hloop : (b'.draft.site p.lastPc).loopEnd = p.loopEnd := h.loopEnd_eq
  refine ⟨listing, [start] ++ prime ++ p.order.flatMap (ranges.getD · []) ++ epilogue,
    ?_, by simpa using hrep, ?_, ?_⟩
  · rw [hloop] at hclosed
    exact hclosed.trans (congrArg (fun c => Except.ok (c, listing)) h.closing_eq)
  · rw [List.map_append, List.map_append, List.map_append, h.map_op_ranges, hprime, hepilogue]
    simp only [Build.progress, hloop, hcount, h.closing_eq, h.writes, h.conditional]
    rfl
  · apply Array.toList_inj.mp
    rw [hlocals]
    simp only [Build.progress, hloop, h.closing_eq, h.temps]
    simp [LiftedPacket.temps, LiftedPacket.partTemps, LiftedPacket.info]

end Build.HasRead

/-- **What lifting a packet came to**: its operations stand at the end of the listing. -/
theorem exists_packet_of_liftPacket (happ : isa.OnlyAppends) {fetch : Fetch} {pc : Word}
    {b b' : Build} {s s' : Session isa.State} (h : (liftPacket isa fetch pc b).Gives s b' s')
    {es : List Entry} (hes : b.listing.Represents es) :
    ∃ (p : LiftedPacket isa) (new : List Entry), p.pc = pc ∧
      p.LiftedFrom fetch (es.map Entry.op) b.listing.temps ∧
      b'.listing.Represents (es ++ new) ∧ new.map Entry.op = p.ops b.listing.tempCount ∧
      b'.listing.temps = b.listing.temps ++ p.temps.toArray ∧
      b'.packets = b.packets ++ [p.info] ∧ b'.words = b.words + BitVec.ofNat 32 p.words.length ∧
      b'.exit = p.exit? := by
  obtain ⟨nextPc, words, b₁, s₁, hnext, hwindow, hwords, hfinish⟩ := gives_liftPacket_iff.mp h
  obtain ⟨hextender, closing, listing, hclose, rfl⟩ :=
    exists_gives_finishPacket.mp ⟨s', hfinish⟩
  obtain ⟨parts, ranges, hread⟩ := exists_hasRead_of_liftWords happ hwords hextender hes
  -- the address behind the packet is looked up before its words are read, with a smaller limit
  obtain rfl : nextPc = pc + 4 * BitVec.ofNat 32 words.length := by
    rw [addressBehind_of_places hwindow hread.places (by simpa using hread.room)] at hnext
    exact (Except.ok.inj hnext).symm
  obtain ⟨order, horder⟩ := exists_schedule_of_closePacket hclose
  let p : LiftedPacket isa := ⟨pc, words, parts, order⟩
  have hread' : b₁.HasRead b p.pc p.after p.words es p.parts ranges := hread
  have horder' : schedule p.footprints p.writes p.pc = .ok p.order := by
    rw [hread.footprints, hread.writes, Draft.site, hread'.packetPc_eq] at horder
    exact horder
  obtain ⟨l', new, hclosed, hrep, hops, htemps⟩ := hread'.closePacket_eq horder'
  obtain ⟨rfl, rfl⟩ := Prod.mk.inj (Except.ok.inj (hclosed.symm.trans hclose))
  refine ⟨p, new, rfl, ⟨hwindow, hread.places, hread.room, hread.executed, horder'⟩, hrep, hops,
    htemps, ?_, congrArg (·.words) hread.frame, ?_⟩
  · have hinstructions : b₁.draft.roster.size = p.parts.length := by
      simpa [Roster.size] using congrArg List.length hread.footprints
    have hwordCount : b₁.draft.words = p.words.length := congrArg (·.draft.words) hread.frame
    have hpackets : b₁.packets = b.packets := congrArg (·.packets) hread.frame
    simp only [Build.finished, hinstructions, hwordCount, hpackets, hread'.packetPc_eq,
      hread'.loopEnd_eq]
    rfl
  · have htrap : b₁.draft.trap = hasTrapMark p.words := congrArg (·.draft.trap) hread.frame
    simp only [Build.finished, htrap]
    rfl

/-- **Lifting a packet succeeds** if its words keep the rules, its instructions fit, and their
footprints can be put in order. -/
theorem exists_liftPacket (happ : isa.OnlyAppends) {fetch : Fetch} {pc : Word} {words : List Word}
    {ps : List Place} {b : Build} {es : List Entry} (hes : b.listing.Represents es)
    (hwindow : window fetch pc readLimit = ⟨words, .closed⟩)
    (hps : places pc none words = some ps) (hroom : ps.length ≤ Roster.capacity)
    (horder : ∀ parts : List (Part isa), parts.map Part.place = ps →
      Parts isa pc (pc + 4 * BitVec.ofNat 32 words.length) (es.map Entry.op ++ [.packetStart pc])
        b.listing.temps .empty parts →
      ∃ order, schedule (parts.map Part.footprint)
        (unionOver Footprint.writes .empty (parts.map Part.footprint)) pc = .ok order)
    (s : Session isa.State) : ∃ b' s', (liftPacket isa fetch pc b).Gives s b' s' := by
  have hnext := addressBehind_of_places hwindow hps hroom
  have hroom' : (b.opened pc (pc + 4 * BitVec.ofNat 32 words.length)).draft.roster.size
      + ps.length ≤ Roster.capacity := (Nat.zero_add _).le.trans hroom
  obtain ⟨b₁, s₁, hwords, hextender⟩ := exists_liftWords hps hroom' s
  obtain ⟨parts, ranges, hread⟩ := exists_hasRead_of_liftWords happ hwords hextender hes
  have hplaces : parts.map Part.place = ps := by simpa [hps] using hread.places.symm
  obtain ⟨order, horder⟩ := horder parts hplaces hread.executed
  let p : LiftedPacket isa := ⟨pc, words, parts, order⟩
  have hread' : b₁.HasRead b p.pc p.after p.words es p.parts ranges := hread
  obtain ⟨listing, new, hclosed, -⟩ := hread'.closePacket_eq horder
  have hfinish : ∃ s',
      (finishPacket p.lastPc b₁).Gives s₁ (b₁.finished p.info.closing listing) s' :=
    exists_gives_finishPacket.mpr ⟨hextender, _, _, hclosed, rfl⟩
  obtain ⟨s', hfinish⟩ := hfinish
  exact ⟨_, s', gives_liftPacket_iff.mpr ⟨_, words, b₁, s₁, hnext, hwindow, hwords, hfinish⟩⟩

end PacketLift
