import PacketLift.Proofs.Block.Effect

/-!
# When blocks of the scalar core can be lifted

Lifting a packet of the scalar core never fails for its footprints, since its instructions can
always be put in order. So a block can be lifted if and only if its entry is aligned and its packets
are in memory, and this does not depend on what was lifted before.

## Main results

* `exists_liftPackets`: lifting succeeds if memory has the packets
* `exists_liftBlock_iff`: when a block can be lifted
-/

namespace PacketLift

/-- **Lifting a packet succeeds** if it is in memory. -/
theorem exists_liftPacket_of_at? {fetch : Fetch} {pc : Word} {p : Packet}
    (h : Packet.at? fetch pc = some p) {b : Build} {es : List Entry}
    (hes : b.listing.Represents es) (s : Session Nat) :
    ∃ b' s', (liftPacket scalarCore fetch pc b).Gives s b' s' := by
  obtain ⟨rfl, hwindow, hplaces, hroom⟩ := Packet.at?_eq_some_iff.mp h
  refine exists_liftPacket onlyAppends_scalarCore hes hwindow hplaces hroom ?_ s
  intro parts hparts hexecuted
  obtain ⟨order, horder, -⟩ := p.exists_schedule
  refine ⟨order, ?_⟩
  rw [hexecuted.map_footprint_eq, hparts]
  exact horder

theorem exists_liftPackets {fetch : Fetch} {budget : Nat} {pc : Word} {packets : List Packet}
    (h : packetsAt? fetch budget pc = some packets) {b : Build} {es : List Entry}
    (hes : b.listing.Represents es) (s : Session Nat) :
    ∃ result s', LiftsPackets scalarCore fetch budget pc b s result s' := by
  induction budget generalizing pc packets b es s with
  | zero =>
    obtain ⟨p, hp, -⟩ := Option.map_eq_some_iff.mp h
    obtain ⟨b', s', hgives⟩ := exists_liftPacket_of_at? hp hes s
    exact ⟨_, s', .last hgives fun _ => rfl⟩
  | succ budget ih =>
    obtain ⟨p, hp, hrest⟩ := Option.bind_eq_some_iff.mp h
    obtain ⟨b', s', hgives⟩ := exists_liftPacket_of_at? hp hes s
    obtain ⟨q, new, rfl, hlifted, hrep, -, -, -, hwords, hexit⟩ :=
      exists_packet_of_liftPacket onlyAppends_scalarCore hgives hes
    obtain rfl : q.packet = p := Option.some.inj (hlifted.at?_eq.symm.trans hp)
    have hafter : q.pc + 4 * (b'.words - b.words) = q.packet.after :=
      Build.add_sub_words hwords q.pc
    cases hq : q.exit? with
    | some exit => exact ⟨_, s', .last hgives (by simp [hexit, hq])⟩
    | none =>
      have hgoes : q.packet.endsBlock = false := by
        rw [← hlifted.isSome_exit?_eq, hq]
        rfl
      rw [hgoes] at hrest
      obtain ⟨rest, hrest, -⟩ := Option.map_eq_some_iff.mp hrest
      obtain ⟨result, s'', hresult⟩ := ih hrest hrep s'
      rw [← hafter] at hresult
      exact ⟨result, s'', .cons hgives (hexit.trans hq) hresult⟩

/-- **A block of the scalar core can be lifted** if and only if its entry is aligned and memory has
its packets. -/
theorem exists_liftBlock_iff {options : LiftOptions} {fetch : Fetch} {entry : Word}
    {s : Session Nat} :
    (∃ block s', (liftBlock scalarCore options fetch entry).Gives s block s') ↔
      entry &&& 3 = 0 ∧ (packetsAt? fetch (options.maxPackets - 1) entry).isSome = true := by
  constructor
  · rintro ⟨block, s', h⟩
    obtain ⟨packets, es, hfrom, -⟩ := exists_packets_of_liftBlock onlyAppends_scalarCore h
    refine ⟨(gives_liftBlock_iff.mp h).1, ?_⟩
    rw [hfrom.packetsAt?_eq]
    rfl
  · rintro ⟨haligned, hsome⟩
    obtain ⟨packets, hpackets⟩ := Option.isSome_iff_exists.mp hsome
    obtain ⟨⟨b, exit, after⟩, t, hgives⟩ :=
      exists_liftPackets hpackets (b := { listing := .forGuest options.layout })
        (represents_forGuest options.layout) s
    exact ⟨_, _, gives_liftBlock_iff.mpr ⟨haligned, b, exit, after, t, hgives, rfl, rfl⟩⟩

end PacketLift
