import PacketLift.Proofs.Machine.Words

/-!
# What runs depend on and what they leave alone

A run looks at the temporaries that its operations mention, and it changes the words that their
outputs are bound to. So operations that mention globals of lifted code and their own locals act on
the guest behind any temporaries, and a word that no output is bound to stays.

## Main definitions

* `mentioned`: the temporaries that operations write or read

## Main results

* `Machine.run_congr_temps`: runs depend on the temporaries that are mentioned
* `Machine.Fits.run_behind`: operations that act on the guest, behind any temporaries
* `Machine.words_run`, `Machine.words_run_of_outputs`: words that no output is bound to
* `Machine.exists_run_of_outcome`: what was observed before does not matter
-/

namespace PacketLift

/-- The temporaries that operations write or read. -/
def mentioned (ops : List MicroOp) : List TempId :=
  ops.flatMap fun op => op.output?.toList ++ op.inputs

theorem mem_mentioned_of_output {ops : List MicroOp} {op : MicroOp} (hop : op ∈ ops) {t : TempId}
    (ht : t ∈ op.output?) : t ∈ mentioned ops :=
  List.mem_flatMap.mpr ⟨op, hop, List.mem_append_left _ (Option.mem_toList.mpr ht)⟩

theorem mentioned_append (ops ops' : List MicroOp) :
    mentioned (ops ++ ops') = mentioned ops ++ mentioned ops' :=
  List.flatMap_append

theorem WritesBelow.of_mentioned {n : Nat} {ops : List MicroOp}
    (h : ∀ t : Nat, t ∈ mentioned ops → t < n) : WritesBelow n ops :=
  fun _ hop t ht => h t (mem_mentioned_of_output hop ht)

namespace Layout

variable {layout : Layout} {t : Nat}

theorem offset?_live (layout : Layout) (r : Register) :
    layout.offset? (.of (Global.live r)) = some (layout.live r) := by
  rw [Cell.of_live]
  exact congrArg some (layout.offset_ofSlot r).1

theorem offset?_staged (layout : Layout) (r : Register) :
    layout.offset? (.of (Global.staged r)) = some (layout.staged r) := by
  rw [Cell.of_staged]
  exact congrArg some (layout.offset_ofSlot r).2

/-- The globals of lifted code have words. -/
theorem exists_offset (layout : Layout) (h : t < 130) : ∃ o, layout.offset? (.of t) = some o := by
  cases ho : layout.offset? (.of t) with
  | some o => exact ⟨o, rfl⟩
  | none =>
    have hscratch := of_eq_scratch ho
    unfold Cell.of at hscratch
    split_ifs at hscratch
    omega

/-- Temporaries that begin with the globals of lifted code have these bound to their words. -/
theorem exists_global {temps : Array Temp} (h : guestTemps layout <+: temps.toList) {o : Nat}
    (ho : layout.offset? (.of t) = some o) : ∃ name, temps[t]? = some (.global name o) := by
  obtain ⟨rest, hrest⟩ := h
  obtain ⟨name, htemp⟩ := layout.binds_toArray_guestTemps.global ho
  rw [List.getElem?_toArray] at htemp
  refine ⟨name, ?_⟩
  rw [← Array.getElem?_toList, ← hrest,
    List.getElem?_append_left (List.getElem?_eq_some_iff.mp htemp).1, htemp]

end Layout

namespace Machine

variable {m : Machine} {temps temps' : Array Temp} {ops : List MicroOp}

theorem step_congr_temps {op : MicroOp}
    (h : ∀ t ∈ op.output?.toList ++ op.inputs, temps[t]? = temps'[t]?) :
    m.step temps op = m.step temps' op := by
  have hread : ∀ t ∈ op.inputs, m.read temps t = m.read temps' t := by
    intro t ht
    rw [read, read, h t (List.mem_append_right _ ht)]
  have hwrite : ∀ t ∈ op.output?, ∀ x, m.write temps t x = m.write temps' t x := by
    intro t ht x
    rw [write, write, h t (List.mem_append_left _ (Option.mem_toList.mpr ht))]
  have heffect : m.effect temps op = m.effect temps' op := by
    cases op with
    | packetStart pc => rfl
    | exitBlock => rfl
    | callTrap arguments =>
      cases arguments with
      | nil => rfl
      | cons t ts =>
        simp only [effect, List.head?_cons, Option.map_some]
        rw [hread t List.mem_cons_self]
    | _ =>
      simp [MicroOp.inputs] at hread
      simp only [effect, hread, hwrite _ rfl]
  rw [step, heffect, step]

/-- **A run depends on the temporaries that its operations mention**, and on no others. -/
theorem run_congr_temps (hinner : ∀ op ∈ ops, op ≠ .exitBlock)
    (h : ∀ t ∈ mentioned ops, temps[t]? = temps'[t]?) : m.run temps ops = m.run temps' ops := by
  induction ops generalizing m with
  | nil => rfl
  | cons op ops ih =>
    have hop := hinner op List.mem_cons_self
    rw [mentioned, List.flatMap_cons, List.forall_mem_append] at h
    rw [run_cons hop, run_cons hop, step_congr_temps h.1]
    exact ih (fun op' hop' => hinner op' (List.mem_cons_of_mem _ hop')) h.2

/-- **Operations that act on the guest, behind any temporaries**: they mention globals of lifted
code and locals of their own, and what stands between these does not matter. -/
theorem Fits.run_behind {layout : Layout} {base : Array Temp} {k : Nat} {f : Guest → Guest}
    (h : m.Fits layout (base ++ (List.replicate k Temp.scratch).toArray)) (hsep : layout.Separate)
    (hbase : guestTemps layout <+: base.toList) (hinner : ∀ op ∈ ops, op ≠ .exitBlock)
    (hown : ∀ t : Nat, t ∈ mentioned ops → t < 130 ∨ base.size ≤ t ∧ t < base.size + k)
    (hacts : Acts ops f) :
    let after := m.run (base ++ (List.replicate k Temp.scratch).toArray) ops
    after.cpu.guest after.outcome.traps = f (m.cpu.guest m.outcome.traps) ∧
      m.cpu.SameElsewhere after.cpu := by
  intro after
  have hlength := Layout.length_guestTemps layout
  have hbase_le : 130 ≤ base.size := by
    simpa [hlength] using hbase.length_le
  -- the temporaries between the globals and the operations' own can be taken for locals
  let temps := (guestTemps layout).toArray ++
    (List.replicate (base.size + k - 130) Temp.scratch).toArray
  have hsize : temps.size = base.size + k := by
    simp only [temps, Array.size_append, List.size_toArray, hlength, List.length_replicate]
    omega
  have hagree : ∀ t ∈ mentioned ops,
      (base ++ (List.replicate k Temp.scratch).toArray)[t]? = temps[t]? := by
    intro t ht
    obtain ⟨rest, hrest⟩ := hbase
    have hguest : (guestTemps layout).toArray.size = 130 := hlength
    rcases hown t ht with hglobal | ⟨hle, hlt⟩
    · rw [Array.getElem?_append_left (by omega), Array.getElem?_append_left (by omega),
        ← Array.getElem?_toList, ← hrest, List.getElem?_append_left (by omega),
        List.getElem?_toArray]
    · have hlocal : (List.replicate k Temp.scratch)[t - base.size]? = some .scratch :=
        List.getElem?_replicate_of_lt (by omega)
      have hpad : (List.replicate (base.size + k - 130) Temp.scratch)[t - 130]? =
          some .scratch := List.getElem?_replicate_of_lt (by omega)
      rw [Array.getElem?_append_right hle, Array.getElem?_append_right (by omega), hguest,
        List.getElem?_toArray, List.getElem?_toArray, hlocal, hpad]
  have hrun : after = m.run temps ops := run_congr_temps hinner hagree
  have hfits : m.Fits layout temps := ⟨h.cpu, by rw [h.locals, hsize]; simp⟩
  have hbelow : WritesBelow temps.size ops := by
    refine .of_mentioned fun t ht => ?_
    have := hown t ht
    omega
  have hbinds : layout.Binds temps :=
    layout.binds_guestTemps fun t ht => List.eq_of_mem_replicate ht
  rw [hrun]
  exact hfits.run_of_acts hsep hbinds hinner hbelow hacts

/-! ## Words that stay -/

theorem words_write {t : TempId} {i : Nat}
    (h : ∀ name o, temps[t]? = some (.global name o) → o / 4 ≠ i) (x : Word) :
    (m.write temps t x).cpu.words[i]? = m.cpu.words[i]? := by
  unfold write
  split
  · next name o htemp =>
    exact Array.getElem?_setIfInBounds_ne (h name o htemp)
  · rfl

theorem words_step {op : MicroOp} {i : Nat}
    (h : ∀ t ∈ op.output?, ∀ name o, temps[t]? = some (.global name o) → o / 4 ≠ i) :
    (m.step temps op).cpu.words[i]? = m.cpu.words[i]? := by
  cases op with
  | packetStart pc => rfl
  | callTrap arguments => rfl
  | exitBlock => rfl
  | _ => exact words_write (h _ rfl) _

/-- **A word that no output is bound to** stays. -/
theorem words_run {i : Nat} (h : ∀ op ∈ ops, ∀ t ∈ op.output?, ∀ name o,
    temps[t]? = some (.global name o) → o / 4 ≠ i) :
    (m.run temps ops).cpu.words[i]? = m.cpu.words[i]? := by
  induction ops generalizing m with
  | nil => rfl
  | cons op ops ih =>
    have hstep := words_step (m := m) (h op List.mem_cons_self)
    by_cases hop : op = .exitBlock
    · subst hop
      exact hstep
    · rw [run_cons hop]
      exact (ih fun op' hop' => h op' (List.mem_cons_of_mem _ hop')).trans hstep

/-- **A word that belongs to no output** stays, when outputs are globals of lifted code or
locals. -/
theorem words_run_of_outputs {layout : Layout} (hglobals : guestTemps layout <+: temps.toList)
    (hbound : ∀ op ∈ ops, ∀ t ∈ op.output?, temps[t]? = some .scratch ∨ t < 130) {i : Nat}
    (hi : ∀ op ∈ ops, ∀ t ∈ op.output?, layout.word? (.of t) ≠ some i) :
    (m.run temps ops).cpu.words[i]? = m.cpu.words[i]? := by
  refine words_run fun op hop t ht name o htemp hoi => ?_
  rcases hbound op hop t ht with hscratch | hlt
  · rw [hscratch] at htemp
    cases htemp
  · obtain ⟨o', ho'⟩ := layout.exists_offset hlt
    obtain ⟨name', hglobal⟩ := Layout.exists_global hglobals ho'
    rw [hglobal] at htemp
    cases htemp
    exact hi op hop t ht (by rw [Layout.word?, ho', Option.map_some, hoi])

/-! ## What was observed -/

theorem exists_step_of_outcome (temps : Array Temp) (m : Machine) (o : Outcome) (op : MicroOp) :
    ∃ o', { m with outcome := o }.step temps op = { m.step temps op with outcome := o' } := by
  have hwrite : ∀ t x, { m with outcome := o }.write temps t x =
      { m.write temps t x with outcome := o } := by
    intro t x
    unfold write
    split <;> rfl
  cases op with
  | packetStart pc => exact ⟨_, rfl⟩
  | callTrap arguments => exact ⟨_, rfl⟩
  | exitBlock => exact ⟨_, rfl⟩
  | _ =>
    simp only [step, effect, hwrite]
    exact ⟨_, rfl⟩

/-- **What was observed before does not matter** to the values that a run leaves. -/
theorem exists_run_of_outcome (temps : Array Temp) (m : Machine) (o : Outcome)
    (ops : List MicroOp) :
    ∃ o', { m with outcome := o }.run temps ops = { m.run temps ops with outcome := o' } := by
  induction ops generalizing m o with
  | nil => exact ⟨o, rfl⟩
  | cons op ops ih =>
    obtain ⟨o', hstep⟩ := exists_step_of_outcome temps m o op
    by_cases hop : op = .exitBlock
    · subst hop
      exact ⟨o', hstep⟩
    · rw [run_cons hop, run_cons hop, hstep]
      exact ih _ o'

end Machine

end PacketLift
