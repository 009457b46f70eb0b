import PacketLift.Proofs.Block.Effect

/-!
# Faults of the order

Of all faults only one comes from the footprints of the instructions: those of a packet may wait for
each other. Reading words cannot end in it, whatever the instruction set, and closing a packet does
so only if no order is found. In the scalar core an instruction waits for comparisons alone, and
these wait for nothing. So a packet of it always has an order, no block fails for the lack of one,
and the order that is told about a packet can be read off its instructions. It is the order of the
operations too.

## Main definitions

* `Fault.isCycle`: the records of a packet wait for each other
* `Lift.Avoids`: no run ends with such a fault
* `Packet.testsNewAt`, `Packet.comparesAt`: what the instruction at a place does with predicates
* `LiftedPacket.RunsBefore`: the operations of one instruction stand in front of those of another

## Main results

* `Lift.Avoids.bind` and its companions: one step behind the other
* `avoids_liftWords`, `avoids_finishPacket`: reading words and closing packets
* `avoids_liftBlock`: blocks of the scalar core
* `LiftedPacket.runsBefore_of_idxOf_lt`: what is earlier in the order runs first
* `liftReporting_never_deadlocks`: the packets of the scalar core have an order, and which it is
-/

namespace PacketLift

/-- Whether a fault is about records that wait for each other. -/
def Fault.isCycle : Fault → Bool
  | dependencyCycle _ _ => true
  | _ => false

namespace Lift

variable {State α β : Type} {bad : Fault → Bool}

/-- **No run ends with such a fault.** -/
def Avoids (bad : Fault → Bool) (x : Lift State α) : Prop :=
  ∀ s fault s', x.run s = (.error fault, s') → bad fault = false

namespace Avoids

theorem except {e : Except Fault α} (h : ∀ fault, e = .error fault → bad fault = false) :
    Avoids bad (liftM e : Lift State α) := by
  intro s fault s' hrun
  exact h fault (congrArg Prod.fst hrun)

theorem pure (a : α) : Avoids bad (Pure.pure a : Lift State α) := by
  intro s fault s' hrun
  cases hrun

theorem throw {fault : Fault} (h : bad fault = false) :
    Avoids bad (MonadExcept.throw fault : Lift State α) := by
  intro s fault' s' hrun
  cases hrun
  exact h

/-- What stands behind a fault does not run. -/
theorem throw_bind {fault : Fault} (h : bad fault = false) (f : α → Lift State β) :
    Avoids bad (MonadExcept.throw fault >>= f) := by
  intro s fault' s' hrun
  cases hrun
  exact h

theorem note (m : Message) : Avoids bad (Lift.note m : Lift State Unit) := by
  intro s fault s' hrun
  cases hrun

theorem withState (f : State → α × State) : Avoids bad (Lift.withState f) := by
  intro s fault s' hrun
  cases hrun

/-- **One step behind the other.** The second may rely on what the first gives. -/
theorem bind {x : Lift State α} {f : α → Lift State β} (hx : Avoids bad x)
    (hf : ∀ s a s', x.Gives s a s' → Avoids bad (f a)) : Avoids bad (x >>= f) := by
  intro s fault s' hrun
  have hbind : (x >>= f).run s = ExceptT.bindCont f (x.run s).1 (x.run s).2 := rfl
  rw [hbind] at hrun
  rcases hresult : x.run s with ⟨result, t⟩
  rw [hresult] at hrun
  cases result with
  | error fault' =>
    obtain ⟨hfault, -⟩ := Prod.mk.inj hrun
    exact Except.error.inj hfault ▸ hx s fault' t hresult
  | ok a => exact hf s a t hresult t fault s' hrun

theorem noteAll (ms : List Message) : Avoids bad (Lift.noteAll ms : Lift State Unit) := by
  induction ms with
  | nil => exact .pure ()
  | cons m ms ih => exact .bind (.note m) fun _ _ _ _ => ih

/-- What handles a fault has to do with those alone that are avoided. -/
theorem tryCatch {x : Lift State α} {handle : Fault → Lift State α} (hx : Avoids bad x)
    (hhandle : ∀ fault, bad fault = false → Avoids bad (handle fault)) :
    Avoids bad (MonadExcept.tryCatch x handle) := by
  intro s fault s' hrun
  rw [ExceptT.run_tryCatch] at hrun
  simp only [Bind.bind, StateT.bind] at hrun
  rcases hresult : x.run s with ⟨result, t⟩
  rw [hresult] at hrun
  cases result with
  | error fault' => exact hhandle fault' (hx s fault' t hresult) t fault s' hrun
  | ok a => cases hrun

end Avoids

end Lift

/-! ## Any instruction set -/

section Reading

variable {isa : InstructionSet}

theorem avoids_liftInstruction (i : isa.Insn) (word pc : Word) (extender : Option Word)
    (trace : Bool) (b : Build) :
    (liftInstruction isa i word pc extender trace b).Avoids Fault.isCycle := by
  unfold liftInstruction
  refine .bind (.withState _) fun _ done _ _ => ?_
  refine .bind (.noteAll _) fun _ _ _ _ => ?_
  refine .bind (.except fun fault hpush => ?_) fun _ place _ _ => .pure _
  rw [(Roster.push_fst_eq_error_iff.mp hpush).2]
  rfl

theorem avoids_readWord (w pc : Word) (b : Build) :
    (readWord isa w pc b).Avoids Fault.isCycle := by
  unfold readWord
  split_ifs
  · cases b.draft.extender with
    | some pending => exact .throw rfl
    | none => exact .pure _
  · refine .bind (.except fun fault hsplit => ?_) fun _ duplex _ _ => ?_
    · unfold Duplex.split at hsplit
      split at hsplit <;> cases hsplit
      rfl
    · refine .bind (.withState _) fun _ upper _ _ => ?_
      refine .bind (.withState _) fun _ lower _ _ => ?_
      refine .bind (avoids_liftInstruction _ _ _ _ _ _) fun _ b _ _ => ?_
      exact avoids_liftInstruction _ _ _ _ _ _
  · refine .bind (.withState _) fun _ i _ _ => ?_
    exact avoids_liftInstruction _ _ _ _ _ _

/-- **Reading words** is not about their order. -/
theorem avoids_liftWords (pc : Word) (b : Build) (words : List Word) :
    (liftWords isa pc b words).Avoids Fault.isCycle := by
  induction words generalizing pc b with
  | nil => exact .pure b
  | cons w words ih =>
    have hword : (liftWord isa w pc b).Avoids Fault.isCycle :=
      .bind (.note _) fun _ _ _ _ => avoids_readWord w pc _
    exact .bind hword fun _ b _ _ => ih _ b

end Reading

/-- **Closing a packet** succeeds if its records can be put in order. -/
theorem exists_closePacket_of_schedule {roster : Roster} {site : PacketSite} {order : List Nat}
    (h : schedule (roster.records.map (·.footprint)) roster.writes site.packetPc = .ok order)
    (l : Listing) : ∃ closed, closePacket roster site l = .ok closed := by
  rw [closePacket, h]
  exact ⟨_, rfl⟩

theorem avoids_finishPacket {State : Type} {pc : Word} {b : Build}
    (h : b.draft.extender = none → ∃ order,
      schedule (b.draft.roster.records.map (·.footprint)) b.draft.roster.writes
        b.draft.packetPc = .ok order) :
    (finishPacket pc b : Lift State Build).Avoids Fault.isCycle := by
  unfold finishPacket
  cases hextender : b.draft.extender with
  | some pending => exact .throw_bind rfl _
  | none =>
    obtain ⟨order, horder⟩ := h hextender
    have hordered : schedule (b.draft.roster.records.map (·.footprint)) b.draft.roster.writes
        (b.draft.site pc).packetPc = .ok order := horder
    refine .bind (.except fun fault hclose => ?_) fun _ closed _ _ => ?_
    · obtain ⟨closed, hclosed⟩ := exists_closePacket_of_schedule hordered b.listing
      cases hclosed.symm.trans hclose
    · exact .bind (.noteAll _) fun _ _ _ _ => .pure _

/-! ## The scalar core -/

variable {fetch : Fetch}

/-- The instructions that were read have an order. -/
theorem Build.HasRead.exists_schedule {b b' : Build} {pc nextPc : Word} {words : List Word}
    {es : List Entry} {parts : List (Part scalarCore)} {ranges : List (List Entry)}
    (h : b'.HasRead b pc nextPc words es parts ranges) :
    ∃ order, schedule (b'.draft.roster.records.map (·.footprint)) b'.draft.roster.writes
      b'.draft.packetPc = .ok order := by
  rw [h.footprints, h.writes, h.executed.map_footprint_eq]
  exact ⟨_, schedule_eq_arrangedPlaces Place.instruction (parts.map Part.place) _⟩

theorem avoids_liftPacket (pc : Word) {b : Build} {es : List Entry}
    (hes : b.listing.Represents es) : (liftPacket scalarCore fetch pc b).Avoids Fault.isCycle := by
  unfold liftPacket
  refine .bind (.except fun fault hbehind => ?_) fun _ nextPc _ _ => ?_
  · simp only [addressBehind] at hbehind
    split at hbehind <;> cases hbehind
    rfl
  · refine .bind (avoids_liftWords _ _ _) fun s b' s' hwords => ?_
    cases (window fetch pc readLimit).ending with
    | closed =>
      refine avoids_finishPacket fun hextender => ?_
      obtain ⟨parts, ranges, hread⟩ :=
        exists_hasRead_of_liftWords onlyAppends_scalarCore hwords hextender hes
      exact hread.exists_schedule
    | unmapped address => exact .throw rfl
    | unfinished => exact .throw rfl

theorem avoids_liftPackets (pc : Word) {b : Build} {es : List Entry}
    (hes : b.listing.Represents es) (budget : Nat) :
    (liftPackets scalarCore fetch pc b budget).Avoids Fault.isCycle := by
  induction budget generalizing pc b es with
  | zero => exact .bind (avoids_liftPacket pc hes) fun _ after _ _ => .pure _
  | succ budget ih =>
    refine .bind (avoids_liftPacket pc hes) fun s after s' hpacket => ?_
    cases hexit : after.exit with
    | some exit => exact .pure _
    | none =>
      -- the listing behind the packet is a proper one again, so the next packet can rely on it
      obtain ⟨-, new, -, -, hafter, -⟩ :=
        exists_packet_of_liftPacket onlyAppends_scalarCore hpacket hes
      exact ih _ hafter

/-- **No block of the scalar core fails for the lack of an order.** -/
theorem avoids_liftBlock (options : LiftOptions) (entry : Word) :
    (liftBlock scalarCore options fetch entry).Avoids Fault.isCycle := by
  unfold liftBlock
  split_ifs
  · exact .throw_bind rfl _
  · refine .bind (avoids_liftPackets entry (represents_forGuest options.layout) _) ?_
    rintro s ⟨b, exit, pc⟩ s' -
    exact .bind (.note _) fun _ _ _ _ => .pure _

theorem avoids_liftReporting (options : LiftOptions) (entry : Word) :
    (liftReporting scalarCore options fetch entry).Avoids Fault.isCycle :=
  .tryCatch (avoids_liftBlock options entry) fun _ hfault =>
    .bind (.note _) fun _ _ _ _ => .throw hfault

/-! ## What is told about the order -/

namespace Packet

/-- Whether the instruction at a place tests a new predicate. -/
def testsNewAt (p : Packet) (i : Nat) : Bool := p.places[i]?.any (·.instruction.isDotNew)

/-- Whether the instruction at a place sets a predicate. -/
def comparesAt (p : Packet) (i : Nat) : Bool := p.places[i]?.any (·.instruction.isCompare)

end Packet

namespace LiftedPacket.LiftedFrom

variable {p : LiftedPacket scalarCore} {done : List MicroOp} {temps : Array Temp}

theorem order_eq_arrangedPlaces (h : p.LiftedFrom fetch done temps) :
    p.order = arrangedPlaces Place.instruction p.packet.places := by
  have hschedule : schedule p.packet.footprints p.packet.writes p.packet.pc = _ :=
    schedule_eq_arrangedPlaces Place.instruction p.packet.places p.packet.pc
  have horder := h.order
  rw [h.footprints_eq, h.writes_eq] at horder
  exact Except.ok.inj (horder.symm.trans hschedule)

theorem mem_order_of_testsNewAt (h : p.LiftedFrom fetch done temps) {i : Nat}
    (hi : p.packet.testsNewAt i = true) : i ∈ p.order := by
  obtain ⟨x, hx, -⟩ := (Option.any_eq_true _ _).mp hi
  have hlt : i < p.packet.footprints.length := by
    rw [Packet.footprints, List.length_map]
    exact (List.getElem?_eq_some_iff.mp hx).1
  rw [(schedule_perm h.order).mem_iff, h.footprints_eq]
  exact List.mem_range.mpr hlt

end LiftedPacket.LiftedFrom

/-! ## The order of the operations -/

/-- Of two members of a list, the one with the smaller index stands in front of the other. -/
theorem exists_append_of_idxOf_lt {l : List Nat} {i j : Nat} (hj : j ∈ l)
    (h : l.idxOf i < l.idxOf j) :
    ∃ front between back, l = front ++ i :: between ++ j :: back := by
  have hi : i ∈ l := List.idxOf_lt_length_iff.mp (h.trans (List.idxOf_lt_length_of_mem hj))
  obtain ⟨front, rest, rfl, hfront⟩ := List.eq_append_cons_of_mem hi
  have hindex : (front ++ i :: rest).idxOf i = front.length := by
    rw [List.idxOf_append_of_notMem hfront, List.idxOf_cons_self, Nat.add_zero]
  have hrest : j ∈ rest := by
    rcases List.mem_append.mp hj with hbefore | hbehind
    · have hlt := List.idxOf_lt_length_of_mem hbefore
      rw [hindex, List.idxOf_append_of_mem hbefore] at h
      omega
    · rcases List.mem_cons.mp hbehind with rfl | hrest
      · exact absurd h (Nat.lt_irrefl _)
      · exact hrest
  obtain ⟨between, back, rfl, -⟩ := List.eq_append_cons_of_mem hrest
  exact ⟨front, between, back, by simp⟩

/-- **One instruction of a lifted packet runs before another**, both given by their places: in the
operations of the packet, with `n` temporaries before it, those of the one stand in front of those
of the other. -/
def LiftedPacket.RunsBefore {isa : InstructionSet} (p : LiftedPacket isa) (n : TempId)
    (i j : Nat) : Prop :=
  ∃ front between back, p.ops n = front ++ p.partOps i ++ between ++ p.partOps j ++ back

theorem LiftedPacket.runsBefore_of_idxOf_lt {isa : InstructionSet} {p : LiftedPacket isa}
    {i j : Nat} (hj : j ∈ p.order) (h : p.order.idxOf i < p.order.idxOf j) (n : TempId) :
    p.RunsBefore n i j := by
  obtain ⟨front, between, back, horder⟩ := exists_append_of_idxOf_lt hj h
  refine ⟨[.packetStart p.pc] ++ primeOps (p.conditional.erase .pc) ++ front.flatMap p.partOps,
    between.flatMap p.partOps, back.flatMap p.partOps ++
      epilogueOps (n + p.partTemps.length) (p.writes.erase .pc) p.loopEnd p.changesPc p.lastPc, ?_⟩
  rw [LiftedPacket.ops, horder]
  simp only [List.flatMap_append, List.flatMap_cons, List.append_assoc]

/-- **The packets of the scalar core never deadlock**, for any memory, entry and budget. No block is
refused because the instructions of a packet wait for each other. For each packet of a block that is
lifted, the order it is told to have is program order, except that the instructions which test a new
predicate come after all others, in program order, if the packet sets a predicate. So these run
behind every comparison of the packet, and not only in the order that is told: among the operations
of the block those of the packet stand in one piece, and in it the operations of the comparison
stand in front of those of the instruction that tests its result. The order is a new one if and only
if the packet sets a predicate and one of these instructions stands in front of one that is not. -/
theorem liftReporting_never_deadlocks (options : LiftOptions) (fetch : Fetch) (entry : Word)
    (s : Session Nat) :
    (∀ fault s', (liftReporting scalarCore options fetch entry).run s = (.error fault, s') →
      ∀ pc unplaced, fault ≠ .dependencyCycle pc unplaced) ∧
    ∀ block s', (liftReporting scalarCore options fetch entry).run s = (.ok block, s') →
      ∀ info ∈ block.packets, ∃ p, Packet.at? fetch info.pc = some p ∧
        info.instructions = p.places.length ∧
        info.closing.order =
          (if p.hasCompare then
            (List.range p.places.length).filter (!p.testsNewAt ·)
              ++ (List.range p.places.length).filter p.testsNewAt
          else List.range p.places.length) ∧
        (∀ i j, p.testsNewAt i = true → p.comparesAt j = true →
          info.closing.order.idxOf j < info.closing.order.idxOf i) ∧
        (∃ (lifted : LiftedPacket scalarCore) (before behind : List MicroOp) (temps : Array Temp),
          lifted.packet = p ∧ lifted.LiftedFrom fetch before temps ∧
          block.listing.ops = before ++ lifted.ops temps.size ++ behind ∧
          ∀ i j, p.testsNewAt i = true → p.comparesAt j = true →
            lifted.RunsBefore temps.size j i) ∧
        (info.closing.reordered = true ↔ p.hasCompare = true ∧
          ∃ i j, i < j ∧ j < p.places.length ∧ p.testsNewAt i = true ∧
            p.testsNewAt j = false) := by
  constructor
  · rintro fault s' h pc unplaced rfl
    cases avoids_liftReporting options entry s _ s' h
  · intro block s' h info hinfo
    obtain ⟨lifted, before, behind, temps, rfl, hlifted, hops⟩ :=
      exists_liftedFrom_of_mem_packets onlyAppends_scalarCore
        (gives_liftBlock_of_liftReporting h) hinfo
    have horder : lifted.info.closing.order = _ := hlifted.order_eq_arrangedPlaces
    have hbehind : ∀ i j, lifted.packet.testsNewAt i = true → lifted.packet.comparesAt j = true →
        lifted.info.closing.order.idxOf j < lifted.info.closing.order.idxOf i := by
      intro i j hi hj
      rw [horder]
      exact idxOf_arrangedPlaces_lt hi hj
    refine ⟨lifted.packet, hlifted.at?_eq, congrArg (·.instructions) hlifted.info_eq, horder,
      hbehind, ⟨lifted, before, behind, temps, rfl, hlifted, hops, fun i j hi hj => ?_⟩, ?_⟩
    · exact LiftedPacket.runsBefore_of_idxOf_lt (hlifted.mem_order_of_testsNewAt hi)
        (hbehind i j hi hj) temps.size
    · rw [Closing.reordered, horder]
      exact isReordered_arrangedPlaces_iff

/-- A packet with a comparison between two additions that test what it sets. -/
def lateAdditions : Fetch := fun address =>
  let words : List Word :=
    [0xFB006102, 0xF3024203, -- if (p0.new) r2 = add(r0, r1); r3 = add(r2, r2)
      0xF2004100, 0xFB00E104] -- p0 = cmp.eq(r0, r1); if (p0.new) r4 = add(r0, r1)
  if address &&& 3 = 0 then words[address.toNat / 4]? else none

theorem liftReporting_never_deadlocks_lateAdditions :
    let start : Session Nat := ⟨0, #[]⟩
    (∃ block s' p, (liftReporting scalarCore { maxPackets := 1 } lateAdditions 0).run start =
        (.ok block, s') ∧
      block.packets.map (fun info => (info.pc, info.closing.order)) = [(0, [1, 2, 0, 3])] ∧
      Packet.at? lateAdditions 0 = some p ∧ p.hasCompare = true ∧
      ∃ i j, i < j ∧ j < p.places.length ∧ p.testsNewAt i = true ∧ p.testsNewAt j = false) ∧
    -- there is no word behind the packet, so a larger budget ends in a fault
    ∃ fault s', (liftReporting scalarCore { maxPackets := 2 } lateAdditions 0).run start =
        (.error fault, s') ∧
      ∀ pc unplaced, fault ≠ .dependencyCycle pc unplaced := by
  intro start
  constructor
  · have hlift : ((liftReporting scalarCore { maxPackets := 1 } lateAdditions 0).run
        start).1.toOption.map (·.packets.map fun info => (info.pc, info.closing.order)) =
          some [(0, [1, 2, 0, 3])] := by
      decide +kernel
    obtain ⟨block, s', h, horders⟩ := Lift.exists_of_toOption hlift
    obtain ⟨-, htold⟩ :=
      liftReporting_never_deadlocks { maxPackets := 1 } lateAdditions 0 start
    obtain ⟨info, hinfos, hinfo⟩ := List.map_eq_singleton_iff.mp horders
    obtain ⟨hpc, horder⟩ := Prod.mk.inj hinfo
    obtain ⟨p, hp, -, -, -, -, hreordered⟩ := htold block s' h info (by simp [hinfos])
    have hnew : info.closing.reordered = true := by
      rw [Closing.reordered, horder]
      decide
    rw [hpc] at hp
    exact ⟨block, s', p, h, horders, hp, hreordered.mp hnew⟩
  · rcases hrun : (liftReporting scalarCore { maxPackets := 2 } lateAdditions 0).run start with
      ⟨result, s'⟩
    have hfails : ((liftReporting scalarCore { maxPackets := 2 } lateAdditions 0).run
        start).1.toOption.isNone = true := by
      decide +kernel
    rw [hrun] at hfails
    cases result with
    | ok block => cases hfails
    | error fault =>
      exact ⟨fault, s', rfl,
        (liftReporting_never_deadlocks { maxPackets := 2 } lateAdditions 0 start).1 fault s' hrun⟩

end PacketLift
