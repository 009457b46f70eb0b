import PacketLift.Proofs.Block.Success
import PacketLift.Proofs.Packet.Places

/-!
# Reading the words of a packet

Reading words does two things that do not depend on each other. It counts them, with their marks,
and it lifts the instructions in them, one after the other. This module separates the two: the
count is a fold over the words, and the instructions are those of `places`, lifted in a chain of
steps on a listing and a roster.

## Main definitions

* `Progress`, `Progress.lift`: a listing and a roster, and one more instruction in them
* `LiftsPlaces`: instructions lifted one after the other
* `Build.frame`: the part of a build that the instructions do not touch

## Main results

* `exists_places_of_liftWords`: what reading words came to, if it succeeded
* `exists_liftWords`: reading succeeds if the rules are kept and the roster has room
-/

namespace PacketLift

variable {isa : InstructionSet}

/-- The instruction in some bits, and the state of the set behind it. -/
def InstructionSet.read (isa : InstructionSet) : Code → isa.State → isa.Insn × isa.State
  | .whole w => isa.decode w
  | .half s => isa.decodeSub s

/-- What instructions change while a packet is read. -/
structure Progress where
  listing : Listing
  roster : Roster

/-- **One more instruction lifted**: the address is stored if `trace` holds, the operations are
appended, and the record is entered. -/
def Progress.lift (p : Progress) (isa : InstructionSet) (i : isa.Insn) (site : Site) (trace : Bool)
    (s : isa.State) : Progress :=
  let traced := if trace then p.listing.append (.set Global.pcTrace site.pc) else p.listing
  let done := isa.execute i site traced s
  { listing := done.listing
    roster := p.roster.add
      { pc := site.pc, footprint := done.footprint
        ops := done.listing.spanSince p.listing.lastId } }

/-- **Instructions lifted one after the other** in the packet from `packetPc` to `nextPc`. The
roster has room for each of them. -/
inductive LiftsPlaces (isa : InstructionSet) (packetPc nextPc : Word) :
    Progress → List Place → Progress → Prop where
  | nil {p : Progress} : LiftsPlaces isa packetPc nextPc p [] p
  | cons {p q : Progress} {place : Place} {rest : List Place} (s s' : isa.State) :
      p.roster.size < Roster.capacity →
      LiftsPlaces isa packetPc nextPc
        (p.lift isa (isa.read place.code s).1
          (place.site packetPc nextPc p.roster.predicatesWritten) place.code.isTraced s') rest q →
      LiftsPlaces isa packetPc nextPc p (place :: rest) q

theorem LiftsPlaces.append {packetPc nextPc : Word} {p q r : Progress} {ps qs : List Place}
    (h : LiftsPlaces isa packetPc nextPc p ps q) (h' : LiftsPlaces isa packetPc nextPc q qs r) :
    LiftsPlaces isa packetPc nextPc p (ps ++ qs) r := by
  induction h with
  | nil => exact h'
  | cons s s' hroom _ ih => exact .cons s s' hroom (ih h')

/-- All lifted instructions have found room. -/
theorem LiftsPlaces.length_le {packetPc nextPc : Word} {p q : Progress} {ps : List Place}
    (h : LiftsPlaces isa packetPc nextPc p ps q) (hp : p.roster.size ≤ Roster.capacity) :
    p.roster.size + ps.length ≤ Roster.capacity := by
  induction h with
  | nil => exact hp
  | @cons p q place rest t s hroom _ ih =>
    have hsize : (p.lift isa (isa.read place.code t).1 (place.site packetPc nextPc
        p.roster.predicatesWritten) place.code.isTraced s).roster.size = p.roster.size + 1 :=
      Roster.size_add _ _
    rw [hsize] at ih
    have hrest := ih hroom
    rw [List.length_cons]
    omega

/-- Counting a word sets the two marks by position. -/
theorem Draft.countWord_eq (d : Draft) (w : Word) :
    d.countWord w = { d with
      words := d.words + 1
      mark0 := d.mark0 || (w.role = .loopMark && d.words = 0)
      mark1 := d.mark1 || (w.role = .loopMark && d.words = 1)
      trap := d.trap || w == Word.trapMark } := by
  unfold countWord
  split_ifs with hrole
  · match hwords : d.words with
    | 0 => simp [markLoop, hrole]
    | 1 => simp [markLoop, hrole]
    | n + 2 => simp [markLoop, hrole]
  · simp [hrole]

namespace Build

/-- The part of a build that instructions change. -/
def progress (b : Build) : Progress := ⟨b.listing, b.draft.roster⟩

/-- The build with that part replaced. -/
def withProgress (b : Build) (p : Progress) : Build :=
  { b with listing := p.listing, draft := { b.draft with roster := p.roster } }

/-- The part of a build that neither instructions nor extenders touch. -/
def frame (b : Build) : Build :=
  { b with listing := .empty, draft := { b.draft with extender := none, roster := .empty } }

theorem frame_countWord (b : Build) (w : Word) : (b.countWord w).frame = b.frame.countWord w := by
  simp only [countWord, Draft.countWord_eq]
  rfl

theorem extender_countWord (b : Build) (w : Word) :
    (b.countWord w).draft.extender = b.draft.extender := by
  simp only [countWord, Draft.countWord_eq]

theorem progress_countWord (b : Build) (w : Word) : (b.countWord w).progress = b.progress := by
  simp only [countWord, Draft.countWord_eq]
  rfl

theorem packetPc_countWord (b : Build) (w : Word) :
    (b.countWord w).draft.packetPc = b.draft.packetPc := by
  simp only [countWord, Draft.countWord_eq]

theorem nextPc_countWord (b : Build) (w : Word) :
    (b.countWord w).draft.nextPc = b.draft.nextPc := by
  simp only [countWord, Draft.countWord_eq]

end Build

/-! ## One word -/

/-- Lifting an instruction succeeds if there is room, and changes the progress alone. -/
theorem exists_gives_liftInstruction {i : isa.Insn} {word pc : Word} {extender : Option Word}
    {trace : Bool} {b b' : Build} {s : Session isa.State} :
    (∃ s', (liftInstruction isa i word pc extender trace b).Gives s b' s') ↔
      b.draft.roster.size < Roster.capacity ∧
      b.withProgress (b.progress.lift isa i
        { word, pc, packetPc := b.draft.packetPc, nextPc := b.draft.nextPc, extender
          predicatesWritten := b.draft.roster.predicatesWritten } trace s.state) = b' := by
  simp only [liftInstruction, Lift.gives_bind, Lift.gives_withState, Lift.gives_noteAll,
    Lift.gives_pure, Lift.gives_except, Roster.push_fst_eq_ok_iff]
  constructor
  · rintro ⟨s', done, t, ⟨rfl, -⟩, -, -, -, place, -, ⟨⟨hroom, -⟩, -⟩, rfl, -⟩
    rw [Roster.push_of_lt _ _ hroom]
    exact ⟨hroom, rfl⟩
  · rintro ⟨hroom, rfl⟩
    refine ⟨_, _, _, ⟨rfl, rfl⟩, (), _, rfl, _, _, ⟨⟨hroom, rfl⟩, rfl⟩, ?_, rfl⟩
    rw [Roster.push_of_lt _ _ hroom]
    rfl

/-- The instructions of a word have been lifted, and nothing else has changed. -/
structure Build.Lifted (isa : InstructionSet) (b : Build) (here : List Place) (b' : Build) :
    Prop where
  places : LiftsPlaces isa b.draft.packetPc b.draft.nextPc b.progress here b'.progress
  extender : b'.draft.extender = b.draft.extender
  frame : b'.frame = b.frame

theorem Build.Lifted.append {b b₁ b' : Build} {ps qs : List Place} (h : b.Lifted isa ps b₁)
    (h' : b₁.Lifted isa qs b') : b.Lifted isa (ps ++ qs) b' where
  places := by
    have hpc : b₁.draft.packetPc = b.draft.packetPc := congrArg (·.draft.packetPc) h.frame
    have hnext : b₁.draft.nextPc = b.draft.nextPc := congrArg (·.draft.nextPc) h.frame
    have htail := h'.places
    rw [hpc, hnext] at htail
    exact h.places.append htail
  extender := h'.extender.trans h.extender
  frame := h'.frame.trans h.frame

theorem lifted_of_liftInstruction {t : isa.State} {place : Place} {b b' : Build}
    {s s' : Session isa.State}
    (h : (liftInstruction isa (isa.read place.code t).1 place.code.word place.pc place.extender
      place.code.isTraced b).Gives s b' s') : b.Lifted isa [place] b' := by
  obtain ⟨hroom, rfl⟩ := exists_gives_liftInstruction.mp ⟨s', h⟩
  exact ⟨.cons t s.state hroom .nil, rfl, rfl⟩

/-- Only the upper half of a duplex word stores its address. -/
theorem Duplex.isTraced_of_split {w pc : Word} {d : Duplex} (h : Duplex.split w pc = .ok d) :
    (Code.half d.upper).isTraced = true ∧ (Code.half d.lower).isTraced = false := by
  unfold split at h
  split at h
  · cases h
  · cases h
    exact ⟨rfl, rfl⟩

/-- **What reading a word came to**: an extender is kept, and any other word has its instructions
lifted, the first of them with the extender that was waiting. -/
theorem readWord_cases {w pc : Word} {b b' : Build} {s s' : Session isa.State}
    (h : (readWord isa w pc b).Gives s b' s') :
    w.isExtender = true ∧ b.draft.extender = none ∧
        b' = { b with draft := { b.draft with extender := some ⟨w.extension, pc⟩ } } ∨
      w.isExtender = false ∧
        ∃ here, wordPlaces w pc (b.draft.extender.map (·.value)) = some here ∧
          b.takeExtender.2.Lifted isa here b' := by
  unfold readWord at h
  split_ifs at h with hx hrole
  · cases hpending : b.draft.extender with
    | some pending =>
      rw [hpending] at h
      exact absurd h Lift.not_gives_throw
    | none =>
      rw [hpending] at h
      exact .inl ⟨hx, rfl, (Lift.gives_pure.mp h).1.symm⟩
  · -- a duplex word: both halves are decoded before the first of them is lifted
    obtain ⟨d, t, hd, h⟩ := Lift.gives_bind.mp h
    obtain ⟨hsplit, rfl⟩ := Lift.gives_except.mp hd
    obtain ⟨upper, t, hupper, h⟩ := Lift.gives_bind.mp h
    obtain ⟨rfl, rfl⟩ := Lift.gives_withState.mp hupper
    obtain ⟨lower, t, hlower, h⟩ := Lift.gives_bind.mp h
    obtain ⟨rfl, rfl⟩ := Lift.gives_withState.mp hlower
    obtain ⟨b₁, t, h₁, h₂⟩ := Lift.gives_bind.mp h
    obtain ⟨htraced, huntraced⟩ := Duplex.isTraced_of_split hsplit
    rw [← htraced] at h₁
    rw [← huntraced] at h₂
    have hfirst : b.takeExtender.2.Lifted isa
        [⟨.half d.upper, pc, b.draft.extender.map (·.value)⟩] b₁ := lifted_of_liftInstruction h₁
    have hsecond : b₁.Lifted isa [⟨.half d.lower, pc, none⟩] b' := lifted_of_liftInstruction h₂
    refine .inr ⟨by simpa using hx, _, ?_, hfirst.append hsecond⟩
    simp [wordPlaces, hrole, hsplit, Except.toOption]
  · obtain ⟨i, t, hi, h⟩ := Lift.gives_bind.mp h
    obtain ⟨rfl, rfl⟩ := Lift.gives_withState.mp hi
    have hwhole : b.takeExtender.2.Lifted isa
        [⟨.whole w, pc, b.draft.extender.map (·.value)⟩] b' := lifted_of_liftInstruction h
    refine .inr ⟨by simpa using hx, _, ?_, hwhole⟩
    simp [wordPlaces, hrole]

theorem exists_liftInstruction (i : isa.Insn) (place : Place) {b : Build}
    (hroom : b.draft.roster.size < Roster.capacity) (s : Session isa.State) :
    ∃ b' s', (liftInstruction isa i place.code.word place.pc place.extender place.code.isTraced
        b).Gives s b' s' ∧ b'.draft.roster.size = b.draft.roster.size + 1 := by
  obtain ⟨s', h⟩ := exists_gives_liftInstruction.mpr ⟨hroom, rfl⟩
  exact ⟨_, s', h, Roster.size_add _ _⟩

/-- Reading a word that is no extender succeeds if the roster has room for its instructions. -/
theorem exists_readWord {w pc : Word} {b : Build} {here : List Place} (hx : w.isExtender = false)
    (hhere : wordPlaces w pc (b.draft.extender.map (·.value)) = some here)
    (hroom : b.draft.roster.size + here.length ≤ Roster.capacity) (s : Session isa.State) :
    ∃ b' s', (readWord isa w pc b).Gives s b' s' ∧
      b'.draft.roster.size = b.draft.roster.size + here.length := by
  unfold wordPlaces at hhere
  simp only [readWord, hx, Bool.false_eq_true, if_false]
  split_ifs at hhere ⊢ with hrole
  · obtain ⟨d, hd, rfl⟩ := Option.map_eq_some_iff.mp hhere
    have hsplit : Duplex.split w pc = .ok d := by
      cases h : Duplex.split w pc <;> simp_all [Except.toOption]
    obtain ⟨htraced, huntraced⟩ := Duplex.isTraced_of_split hsplit
    have hroom₁ : b.takeExtender.2.draft.roster.size + 2 ≤ Roster.capacity := hroom
    obtain ⟨b₁, t₁, h₁, hsize₁⟩ := exists_liftInstruction
      (isa.decodeSub d.upper s.state).1 ⟨.half d.upper, pc, b.draft.extender.map (·.value)⟩
      (Nat.lt_of_lt_of_le (Nat.lt_add_of_pos_right Nat.two_pos) hroom₁)
      ⟨(isa.decodeSub d.lower (isa.decodeSub d.upper s.state).2).2, s.journal⟩
    obtain ⟨b₂, t₂, h₂, hsize₂⟩ := exists_liftInstruction
      (isa.decodeSub d.lower (isa.decodeSub d.upper s.state).2).1 ⟨.half d.lower, pc, none⟩
      (by omega : b₁.draft.roster.size < Roster.capacity) t₁
    rw [htraced] at h₁
    rw [huntraced] at h₂
    refine ⟨b₂, t₂, ?_, by rw [hsize₂, hsize₁]; rfl⟩
    refine Lift.gives_bind.mpr ⟨d, s, Lift.gives_except.mpr ⟨hsplit, rfl⟩, ?_⟩
    refine Lift.gives_bind.mpr ⟨_, _, Lift.gives_withState.mpr ⟨rfl, rfl⟩, ?_⟩
    refine Lift.gives_bind.mpr ⟨_, _, Lift.gives_withState.mpr ⟨rfl, rfl⟩, ?_⟩
    exact Lift.gives_bind.mpr ⟨b₁, t₁, h₁, h₂⟩
  · cases hhere
    obtain ⟨b₁, t₁, h₁, hsize₁⟩ := exists_liftInstruction (b := b.takeExtender.2)
      (isa.decode w s.state).1 ⟨.whole w, pc, b.draft.extender.map (·.value)⟩ hroom
      ⟨(isa.decode w s.state).2, s.journal⟩
    refine ⟨b₁, t₁, ?_, hsize₁⟩
    exact Lift.gives_bind.mpr ⟨_, _, Lift.gives_withState.mpr ⟨rfl, rfl⟩, h₁⟩

/-! ## All words -/

/-- **What reading words came to**: their instructions are lifted one after the other, and the
words are counted. -/
theorem exists_places_of_liftWords {ws : List Word} {pc : Word} {b b' : Build}
    {s s' : Session isa.State} (h : (liftWords isa pc b ws).Gives s b' s')
    (hend : b'.draft.extender = none) :
    ∃ ps, places pc (b.draft.extender.map (·.value)) ws = some ps ∧
      LiftsPlaces isa b.draft.packetPc b.draft.nextPc b.progress ps b'.progress ∧
      b'.frame = ws.foldl Build.countWord b.frame := by
  induction ws generalizing pc b s with
  | nil =>
    obtain ⟨rfl, -⟩ := Lift.gives_pure.mp h
    exact ⟨[], by simp [places, hend], .nil, rfl⟩
  | cons w ws ih =>
    obtain ⟨b₁, t₁, hword, hrest⟩ := Lift.gives_bind.mp h
    obtain ⟨-, t, -, hread⟩ := Lift.gives_bind.mp hword
    have hcases := readWord_cases hread
    rw [b.extender_countWord] at hcases
    rcases hcases with ⟨hx, hnone, rfl⟩ | ⟨hx, here, hhere, hlifted⟩
    · obtain ⟨ps, hps, hplaces, hframe⟩ := ih hrest
      have hplaces' : LiftsPlaces isa (b.countWord w).draft.packetPc (b.countWord w).draft.nextPc
          (b.countWord w).progress ps b'.progress := hplaces
      rw [b.packetPc_countWord, b.nextPc_countWord, b.progress_countWord] at hplaces'
      refine ⟨ps, ?_, hplaces', hframe.trans ?_⟩
      · simpa [places, hx, hnone] using hps
      · rw [List.foldl_cons, ← b.frame_countWord]
        rfl
    · obtain ⟨ps, hps, hplaces, hframe⟩ := ih hrest
      have hnone : b₁.draft.extender = none := hlifted.extender
      rw [hnone] at hps
      have hpc : b₁.draft.packetPc = (b.countWord w).draft.packetPc :=
        congrArg (·.draft.packetPc) hlifted.frame
      have hnext : b₁.draft.nextPc = (b.countWord w).draft.nextPc :=
        congrArg (·.draft.nextPc) hlifted.frame
      have hfirst : LiftsPlaces isa (b.countWord w).draft.packetPc (b.countWord w).draft.nextPc
          (b.countWord w).progress here b₁.progress := hlifted.places
      rw [hpc, hnext] at hplaces
      have hall := hfirst.append hplaces
      rw [b.packetPc_countWord, b.nextPc_countWord, b.progress_countWord] at hall
      refine ⟨here ++ ps, ?_, hall, hframe.trans ?_⟩
      · rw [places, hx, hhere]
        simpa using hps
      · rw [List.foldl_cons, ← b.frame_countWord, hlifted.frame]
        rfl

/-- **Reading succeeds** if the words keep the rules and the roster has room for all their
instructions. -/
theorem exists_liftWords {ws : List Word} {pc : Word} {b : Build} {ps : List Place}
    (hps : places pc (b.draft.extender.map (·.value)) ws = some ps)
    (hroom : b.draft.roster.size + ps.length ≤ Roster.capacity) (s : Session isa.State) :
    ∃ b' s', (liftWords isa pc b ws).Gives s b' s' ∧ b'.draft.extender = none := by
  induction ws generalizing pc b ps s with
  | nil =>
    refine ⟨b, s, Lift.gives_pure.mpr ⟨rfl, rfl⟩, ?_⟩
    cases hx : b.draft.extender with
    | none => rfl
    | some pending => simp [places, hx] at hps
  | cons w ws ih =>
    let counted : Session isa.State := { s with journal := s.journal.push (wordMessage w pc) }
    have hnoted : (Lift.note (wordMessage w pc)).Gives s () counted := Lift.gives_note.mpr rfl
    have hsize : (b.countWord w).draft.roster.size = b.draft.roster.size :=
      congrArg (·.roster.size) (b.progress_countWord w)
    rw [places] at hps
    split_ifs at hps with hx hnone
    · have hextender : (b.countWord w).draft.extender = none := by
        rw [b.extender_countWord]
        simpa using hnone
      let b₁ : Build := { b.countWord w with
        draft := { (b.countWord w).draft with extender := some ⟨w.extension, pc⟩ } }
      have hread : (readWord isa w pc (b.countWord w)).Gives counted b₁ counted := by
        rw [readWord, if_pos hx, hextender]
        exact Lift.gives_pure.mpr ⟨rfl, rfl⟩
      have hroom₁ : b₁.draft.roster.size + ps.length ≤ Roster.capacity := by
        rwa [← hsize] at hroom
      obtain ⟨b', s', hrest, hend⟩ := ih hps hroom₁ counted
      exact ⟨b', s', Lift.gives_bind.mpr ⟨b₁, counted,
        Lift.gives_bind.mpr ⟨(), counted, hnoted, hread⟩, hrest⟩, hend⟩
    · obtain ⟨here, hhere, hrest⟩ := Option.bind_eq_some_iff.mp hps
      obtain ⟨rest, htail, rfl⟩ := Option.map_eq_some_iff.mp hrest
      rw [← b.extender_countWord w] at hhere
      rw [List.length_append] at hroom
      have hx' : w.isExtender = false := by simpa using hx
      obtain ⟨b₁, t₁, hread, hsize₁⟩ := exists_readWord hx' hhere (by omega) counted
      have hnone : b₁.draft.extender = none := by
        rcases readWord_cases hread with ⟨hyes, -⟩ | ⟨-, _, -, hlifted⟩
        · exact absurd hyes hx
        · exact hlifted.extender
      have hpending : b₁.draft.extender.map (·.value) = none := by rw [hnone, Option.map_none]
      rw [← hpending] at htail
      obtain ⟨b', s', hrest, hend⟩ := ih htail (by omega) t₁
      exact ⟨b', s', Lift.gives_bind.mpr ⟨b₁, t₁,
        Lift.gives_bind.mpr ⟨(), counted, hnoted, hread⟩, hrest⟩, hend⟩

end PacketLift
