import PacketLift.Proofs.Block.Steps

/-!
# What an instruction set is asked

Lifting asks the instruction set to execute one instruction after the other, each with what it may
know about its place. To speak about these calls, the set is replaced by one that also writes them
down. Lifting with it gives the same block, and what is written down is known from the words of the
packets: each call is for a place of the packet, and is told whether a footprint that was reported
before has the predicates in it.

## Main definitions

* `Call`, `InstructionSet.watched`: a call of `execute`, and the set that writes them down
* `Session.watching`: a session with the calls so far
* `Calls`: the calls for the instructions of a packet

## Main results

* `exists_calls_of_liftWords`: the calls while the words of a packet are read
* `exists_calls_of_liftPacket`: the calls of one packet
* `exists_calls_of_liftBlock`: the calls of a block, packet by packet
-/

namespace PacketLift

/-- One call of `execute`: where the instruction stands, and the footprint that was reported. -/
structure Call where
  site : Site
  footprint : Footprint

/-- **An instruction set that writes down how it is called**, and does the same otherwise. -/
def InstructionSet.watched (isa : InstructionSet) : InstructionSet where
  Insn := isa.Insn
  State := isa.State × List Call
  decode w s := ((isa.decode w s.1).1, (isa.decode w s.1).2, s.2)
  decodeSub h s := ((isa.decodeSub h s.1).1, (isa.decodeSub h s.1).2, s.2)
  execute i site l s :=
    let done := isa.execute i site l s.1
    { footprint := done.footprint, listing := done.listing, messages := done.messages
      state := (done.state, s.2 ++ [⟨site, done.footprint⟩]) }

variable {isa : InstructionSet}

/-- The session of a watched set, with the calls so far. -/
def Session.watching (s : Session isa.State) (calls : List Call) : Session isa.watched.State :=
  ⟨(s.state, calls), s.journal⟩

/-- **The calls for the instructions at some places** of the packet from `packetPc` to `nextPc`.
The registers that footprints have reported before and afterwards stand around them. -/
inductive Calls (packetPc nextPc : Word) :
    RegisterSet → List Place → List Call → RegisterSet → Prop where
  | nil {written : RegisterSet} : Calls packetPc nextPc written [] [] written
  | cons {written written' : RegisterSet} {place : Place} {ps : List Place} {calls : List Call}
      (call : Call) :
      call.site = place.site packetPc nextPc (written.contains .p) →
      Calls packetPc nextPc (written.union call.footprint.writes) ps calls written' →
      Calls packetPc nextPc written (place :: ps) (call :: calls) written'

namespace Calls

variable {packetPc nextPc : Word} {w w' w'' : RegisterSet} {ps qs : List Place}
  {calls calls' : List Call}

theorem append (h : Calls packetPc nextPc w ps calls w')
    (h' : Calls packetPc nextPc w' qs calls' w'') :
    Calls packetPc nextPc w (ps ++ qs) (calls ++ calls') w'' := by
  induction h with
  | nil => exact h'
  | cons call hsite _ ih => exact .cons call hsite (ih h')

theorem length_eq (h : Calls packetPc nextPc w ps calls w') : calls.length = ps.length := by
  induction h with
  | nil => rfl
  | cons call _ _ ih => rw [List.length_cons, List.length_cons, ih]

/-- All calls for a packet are told the same two addresses. -/
theorem addresses_eq (h : Calls packetPc nextPc w ps calls w') {call : Call}
    (hcall : call ∈ calls) :
    call.site.packetPc = packetPc ∧ call.site.nextPc = nextPc := by
  induction h with
  | nil => cases hcall
  | cons first hsite _ ih =>
    rcases List.mem_cons.mp hcall with rfl | hrest
    · rw [hsite]
      exact ⟨rfl, rfl⟩
    · exact ih hrest

end Calls

/-! ## One word -/

/-- The calls while instructions at some places are lifted, seen from the build. -/
structure Build.Called (b : Build) (here : List Place) (calls : List Call) (b' : Build) :
    Prop where
  calls : Calls b.draft.packetPc b.draft.nextPc b.draft.roster.writes here calls
    b'.draft.roster.writes
  packetPc : b'.draft.packetPc = b.draft.packetPc
  nextPc : b'.draft.nextPc = b.draft.nextPc

theorem Build.Called.append {b b₁ b' : Build} {ps qs : List Place} {calls calls' : List Call}
    (h : b.Called ps calls b₁) (h' : b₁.Called qs calls' b') :
    b.Called (ps ++ qs) (calls ++ calls') b' where
  calls := by
    have htail := h'.calls
    rw [h.packetPc, h.nextPc] at htail
    exact h.calls.append htail
  packetPc := h'.packetPc.trans h.packetPc
  nextPc := h'.nextPc.trans h.nextPc

/-- Decoding leaves the calls as they are. -/
theorem gives_watched_withState {α : Type} {f : isa.State → α × isa.State} {a : α}
    {s s' : Session isa.State} (h : (Lift.withState f).Gives s a s') (log : List Call) :
    (Lift.withState fun t : isa.watched.State => ((f t.1).1, (f t.1).2, t.2)).Gives
      (s.watching log) a (s'.watching log) := by
  obtain ⟨rfl, rfl⟩ := Lift.gives_withState.mp h
  exact Lift.gives_withState.mpr ⟨rfl, rfl⟩

/-- **Lifting an instruction is one call.** -/
theorem exists_call_of_liftInstruction {i : isa.Insn} (place : Place) {b b' : Build}
    {s s' : Session isa.State} {trace : Bool}
    (h : (liftInstruction isa i place.code.word place.pc place.extender trace b).Gives s b' s')
    (log : List Call) :
    ∃ call, b.Called [place] [call] b' ∧
      (liftInstruction isa.watched i place.code.word place.pc place.extender trace b).Gives
        (s.watching log) b' (s'.watching (log ++ [call])) := by
  simp only [liftInstruction, Lift.gives_bind, Lift.gives_withState, Lift.gives_noteAll,
    Lift.gives_pure, Lift.gives_except, Roster.push_fst_eq_ok_iff] at h ⊢
  obtain ⟨done, t, ⟨rfl, rfl⟩, -, t', rfl, place, t'', ⟨⟨hroom, rfl⟩, rfl⟩, rfl, rfl⟩ := h
  refine ⟨⟨_, _⟩, ⟨?_, rfl, rfl⟩, _, _, ⟨rfl, rfl⟩, (), _, rfl, _, _, ⟨⟨hroom, rfl⟩, rfl⟩, rfl, rfl⟩
  rw [Roster.push_of_lt _ _ hroom]
  exact .cons _ rfl .nil

/-- **Reading a word** that is no extender is one call for each instruction in it, and an extender
causes none. -/
theorem exists_calls_of_readWord {w pc : Word} {b b' : Build} {s s' : Session isa.State}
    (h : (readWord isa w pc b).Gives s b' s') (log : List Call) :
    ∃ calls,
      (readWord isa.watched w pc b).Gives (s.watching log) b' (s'.watching (log ++ calls)) ∧
      ∀ here, (if w.isExtender then some [] else
          wordPlaces w pc (b.draft.extender.map (·.value))) = some here →
        b.Called here calls b' := by
  unfold readWord at h
  simp only [readWord]
  split_ifs at h ⊢ with hx hrole
  · cases hpending : b.draft.extender with
    | some pending =>
      rw [hpending] at h
      exact absurd h Lift.not_gives_throw
    | none =>
      rw [hpending] at h
      obtain ⟨rfl, rfl⟩ := Lift.gives_pure.mp h
      refine ⟨[], Lift.gives_pure.mpr ⟨rfl, by rw [List.append_nil]⟩, ?_⟩
      rintro here ⟨⟩
      exact ⟨.nil, rfl, rfl⟩
  · -- both halves of a duplex word are decoded before the first of them is executed
    obtain ⟨d, t, hd, h⟩ := Lift.gives_bind.mp h
    obtain ⟨hsplit, rfl⟩ := Lift.gives_except.mp hd
    obtain ⟨upper, t, hupper, h⟩ := Lift.gives_bind.mp h
    obtain ⟨lower, t', hlower, h⟩ := Lift.gives_bind.mp h
    obtain ⟨b₁, t₁, h₁, h₂⟩ := Lift.gives_bind.mp h
    let first : Place := ⟨.half d.upper, pc, b.draft.extender.map (·.value)⟩
    let second : Place := ⟨.half d.lower, pc, none⟩
    have hfirst : (liftInstruction isa upper first.code.word first.pc first.extender true
      b.takeExtender.2).Gives t' b₁ t₁ := h₁
    have hsecond : (liftInstruction isa lower second.code.word second.pc second.extender false
      b₁).Gives t₁ b' s' := h₂
    obtain ⟨call₁, hcalled₁, hwatched₁⟩ := exists_call_of_liftInstruction first hfirst log
    obtain ⟨call₂, hcalled₂, hwatched₂⟩ :=
      exists_call_of_liftInstruction second hsecond (log ++ [call₁])
    refine ⟨[call₁, call₂], ?_, ?_⟩
    · rw [List.append_assoc] at hwatched₂
      refine Lift.gives_bind.mpr ⟨d, s.watching log, Lift.gives_except.mpr ⟨hsplit, rfl⟩, ?_⟩
      refine Lift.gives_bind.mpr ⟨upper, _, gives_watched_withState hupper log, ?_⟩
      refine Lift.gives_bind.mpr ⟨lower, _, gives_watched_withState hlower log, ?_⟩
      exact Lift.gives_bind.mpr ⟨b₁, _, hwatched₁, hwatched₂⟩
    · intro here hhere
      obtain rfl : [_, _] = here := by
        simpa [wordPlaces, hrole, hsplit, Except.toOption] using hhere
      have hcalled := hcalled₁.append hcalled₂
      exact ⟨hcalled.calls, hcalled.packetPc, hcalled.nextPc⟩
  · obtain ⟨i, t, hi, h⟩ := Lift.gives_bind.mp h
    let place : Place := ⟨.whole w, pc, b.draft.extender.map (·.value)⟩
    have hplace : (liftInstruction isa i place.code.word place.pc place.extender true
      b.takeExtender.2).Gives t b' s' := h
    obtain ⟨call, hcalled, hwatched⟩ := exists_call_of_liftInstruction place hplace log
    refine ⟨[call], Lift.gives_bind.mpr ⟨i, _, gives_watched_withState hi log, hwatched⟩, ?_⟩
    intro here hhere
    obtain rfl : [_] = here := by simpa [wordPlaces, hrole] using hhere
    exact ⟨hcalled.calls, hcalled.packetPc, hcalled.nextPc⟩

/-! ## One packet -/

/-- **The calls while words are read.** -/
theorem exists_calls_of_liftWords {ws : List Word} {pc : Word} {b b' : Build}
    {s s' : Session isa.State} (h : (liftWords isa pc b ws).Gives s b' s') {ps : List Place}
    (hps : places pc (b.draft.extender.map (·.value)) ws = some ps) (log : List Call) :
    ∃ calls, b.Called ps calls b' ∧
      (liftWords isa.watched pc b ws).Gives (s.watching log) b' (s'.watching (log ++ calls)) := by
  induction ws generalizing pc b s ps log with
  | nil =>
    obtain ⟨rfl, rfl⟩ := Lift.gives_pure.mp h
    obtain ⟨-, rfl⟩ : b.draft.extender = none ∧ [] = ps := by simpa [places] using hps
    exact ⟨[], ⟨.nil, rfl, rfl⟩, Lift.gives_pure.mpr ⟨rfl, by rw [List.append_nil]⟩⟩
  | cons w ws ih =>
    obtain ⟨b₁, t₁, hword, hrest⟩ := Lift.gives_bind.mp h
    obtain ⟨_, t, hnote, hread⟩ := Lift.gives_bind.mp hword
    obtain rfl := Lift.gives_note.mp hnote
    obtain ⟨calls, hwatched, hcalled⟩ := exists_calls_of_readWord hread log
    have hwatchedWord : (liftWord isa.watched w pc b).Gives (s.watching log) b₁
        (t₁.watching (log ++ calls)) :=
      Lift.gives_bind.mpr ⟨(), _, Lift.gives_note.mpr rfl, hwatched⟩
    obtain ⟨here, rest, hhere, htail, rfl⟩ : ∃ here rest,
        (if w.isExtender then some [] else
          wordPlaces w pc ((b.countWord w).draft.extender.map (·.value))) = some here ∧
        places (pc + 4) (b₁.draft.extender.map (·.value)) ws = some rest ∧ ps = here ++ rest := by
      rcases readWord_cases hread with ⟨hx, hnone, rfl⟩ | ⟨hx, here, hhere, hlifted⟩
      · rw [b.extender_countWord] at hnone
        exact ⟨[], ps, by simp [hx], by simpa [places, hx, hnone] using hps, rfl⟩
      · have hpending : b₁.draft.extender = none := hlifted.extender
        rw [b.extender_countWord] at hhere ⊢
        rw [places, hx, hhere] at hps
        obtain ⟨rest, htail, rfl⟩ : ∃ rest, places (pc + 4) none ws = some rest ∧
            here ++ rest = ps := by simpa using hps
        exact ⟨here, rest, by simpa [hx] using hhere, by rw [hpending]; exact htail, rfl⟩
    obtain ⟨more, hmore, hwatchedRest⟩ := ih hrest htail (log ++ calls)
    have hfirst : b.Called here calls b₁ := by
      have hcounted := hcalled here hhere
      have hwrites : (b.countWord w).draft.roster.writes = b.draft.roster.writes :=
        congrArg (·.roster.writes) (b.progress_countWord w)
      refine ⟨?_, hcounted.packetPc.trans (b.packetPc_countWord w),
        hcounted.nextPc.trans (b.nextPc_countWord w)⟩
      have hcalls := hcounted.calls
      rwa [b.packetPc_countWord, b.nextPc_countWord, hwrites] at hcalls
    rw [List.append_assoc] at hwatchedRest
    exact ⟨calls ++ more, hfirst.append hmore,
      Lift.gives_bind.mpr ⟨b₁, _, hwatchedWord, hwatchedRest⟩⟩

/-- Closing a packet calls nothing. -/
theorem gives_watched_finishPacket {pc : Word} {b b' : Build} {s s' : Session isa.State}
    (h : (finishPacket pc b).Gives s b' s') (log : List Call) :
    (finishPacket pc b).Gives (s.watching log) b' (s'.watching log) := by
  unfold finishPacket at h ⊢
  cases hextender : b.draft.extender with
  | some pending =>
    rw [hextender] at h
    obtain ⟨_, _, hthrow, -⟩ := Lift.gives_bind.mp h
    exact absurd hthrow Lift.not_gives_throw
  | none =>
    rw [hextender] at h
    simp only [Lift.gives_bind, Lift.gives_noteAll, Lift.gives_pure, Lift.gives_except] at h ⊢
    obtain ⟨⟨closing, listing⟩, t, ⟨hclose, rfl⟩, -, t', rfl, rfl, rfl⟩ := h
    exact ⟨(closing, listing), _, ⟨hclose, rfl⟩, (), _, rfl, rfl, rfl⟩

/-- **The calls of one packet**: one for each of its instructions in program order, with the
address of the packet and the address behind it. -/
theorem exists_calls_of_liftPacket {fetch : Fetch} {pc : Word} {b b' : Build}
    {s s' : Session isa.State} (h : (liftPacket isa fetch pc b).Gives s b' s')
    {p : Packet} (hp : Packet.at? fetch pc = some p) (log : List Call) :
    ∃ calls written, Calls p.pc p.after .empty p.places calls written ∧
      (liftPacket isa.watched fetch pc b).Gives (s.watching log) b'
        (s'.watching (log ++ calls)) := by
  obtain ⟨rfl, hwindow, hps, -⟩ := Packet.at?_eq_some_iff.mp hp
  obtain ⟨nextPc, words, b₁, s₁, hnext, hwords, hread, hfinish⟩ := gives_liftPacket_iff.mp h
  obtain rfl : p.words = words := congrArg Window.words (hwindow.symm.trans hwords)
  obtain rfl : p.after = nextPc := Except.ok.inj ((Packet.addressBehind_eq hp).symm.trans hnext)
  obtain ⟨calls, hcalled, hwatched⟩ := exists_calls_of_liftWords hread hps log
  exact ⟨calls, _, hcalled.calls, gives_liftPacket_iff.mpr
    ⟨p.after, p.words, b₁, _, hnext, hwindow, hwatched, gives_watched_finishPacket hfinish _⟩⟩

/-! ## All packets -/

/-- **The calls for a packet** that was told about: it is the packet that memory has at its address,
and its instructions were called for in program order. -/
def PacketInfo.CalledFor (fetch : Fetch) (info : PacketInfo) (calls : List Call) : Prop :=
  ∃ p written, Packet.at? fetch info.pc = some p ∧ info.Counts p ∧
    Calls info.pc info.after .empty p.places calls written

theorem exists_calledFor_of_liftPacket {fetch : Fetch} {pc : Word} {b b' : Build}
    {s s' : Session isa.State} (h : (liftPacket isa fetch pc b).Gives s b' s') (log : List Call) :
    ∃ info calls, b'.packets = b.packets ++ [info] ∧ info.CalledFor fetch calls ∧
      (liftPacket isa.watched fetch pc b).Gives (s.watching log) b'
        (s'.watching (log ++ calls)) := by
  obtain ⟨p, info, hp, hgains⟩ := exists_gains_of_liftPacket h
  obtain ⟨calls, written, hcalls, hwatched⟩ := exists_calls_of_liftPacket h hp log
  have hpc : info.pc = pc := hgains.info.pc.trans (Packet.at?_eq_some_iff.mp hp).1
  rw [← hgains.info.pc, ← hgains.info.after_eq] at hcalls
  exact ⟨info, calls, hgains.packets, ⟨p, written, by rwa [hpc], hgains.info, hcalls⟩, hwatched⟩

/-- **The calls of packets lifted one behind the other.** -/
theorem LiftsPackets.exists_calls {fetch : Fetch} {budget : Nat} {pc : Word} {b : Build}
    {result : Build × BlockExit × Word} {s s' : Session isa.State}
    (h : LiftsPackets isa fetch budget pc b s result s') (log : List Call) :
    ∃ infos groups, result.1.packets = b.packets ++ infos ∧
      List.Forall₂ (PacketInfo.CalledFor fetch) infos groups ∧
      LiftsPackets isa.watched fetch budget pc b (s.watching log) result
        (s'.watching (log ++ groups.flatten)) := by
  induction h generalizing log with
  | last hgives hbudget =>
    obtain ⟨info, calls, hinfo, hcalled, hwatched⟩ := exists_calledFor_of_liftPacket hgives log
    refine ⟨[info], [calls], hinfo, .cons hcalled .nil, ?_⟩
    rw [List.flatten_cons, List.flatten_nil, List.append_nil]
    exact .last hwatched hbudget
  | cons hgives hexit _ ih =>
    obtain ⟨info, calls, hinfo, hcalled, hwatched⟩ := exists_calledFor_of_liftPacket hgives log
    obtain ⟨infos, groups, hinfos, hgroups, hrest⟩ := ih (log ++ calls)
    refine ⟨info :: infos, calls :: groups, ?_, .cons hcalled hgroups, ?_⟩
    · rw [hinfos, hinfo, List.append_assoc]
      rfl
    · rw [List.append_assoc] at hrest
      exact .cons hwatched hexit hrest

/-- **The calls of a block.** -/
theorem exists_calls_of_liftBlock {options : LiftOptions} {fetch : Fetch} {entry : Word}
    {block : Block} {s s' : Session isa.State}
    (h : (liftBlock isa options fetch entry).Gives s block s') :
    ∃ groups, List.Forall₂ (PacketInfo.CalledFor fetch) block.packets groups ∧
      (liftBlock isa.watched options fetch entry).Gives (s.watching []) block
        (s'.watching groups.flatten) := by
  obtain ⟨haligned, b, exit, after, t, hpackets, rfl, rfl⟩ := gives_liftBlock_iff.mp h
  obtain ⟨infos, groups, hinfos, hgroups, hwatched⟩ := hpackets.exists_calls []
  have hall : b.packets = infos := hinfos.trans (List.nil_append _)
  refine ⟨groups, ?_, gives_liftBlock_iff.mpr ⟨haligned, b, exit, after, _, hwatched, rfl, rfl⟩⟩
  rw [Build.block, hall]
  exact hgroups

end PacketLift
