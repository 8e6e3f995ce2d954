import Tabletop.Snapshot.State
import Tabletop.Proofs.Snapshot.Expr

/-!
# Snapshots give their states back

A snapshot holds a state with nothing lost and nothing added.  Every part of a state finds its own
end, so a snapshot that has been cut short, wherever it was cut, is refused and never taken for
another state.

Lengths are written in eight bytes.  The statements are about states whose texts and collections
have lengths that fit there, as they all do where addresses have eight bytes.

Main statements: `State.restores`, and `State.ofBytes_append` and `State.ofBytes_truncated`, from
which it follows.
-/

namespace Tabletop

open Snapshot

instance {α : Type} [Atomic α] [Restorable α] [LawfulRestorable α] :
    LawfulRestorable (PerSeat α) where
  reads p fuel := (reads p.data fuel).map fun _ => rfl

instance : LawfulRestorable Token where
  reads t k := (reads t.id k).bind ((reads t.type k).bind ((reads t.props k).last fun _ => rfl))

instance : LawfulRestorable Store where
  reads s fuel := (reads s.zones fuel).map fun _ => rfl

instance : LawfulRestorable Duration where
  reads
    | .turn, _ => .choice 0 (.pure fun _ => rfl)
    | .phase, _ => .choice 1 (.pure fun _ => rfl)

instance : LawfulRestorable Usage where
  reads u k := (reads u.turn k).bind ((reads u.phase k).bind ((reads u.game k).last fun _ => rfl))

instance : LawfulRestorable ActiveLasting where
  reads l k := (reads l.id k).bind ((reads l.action k).bind
    ((reads l.duration k).bind ((reads l.executor k).last fun _ => rfl)))

instance : LawfulRestorable Grant where
  reads g k := (reads g.id k).bind ((reads g.seat k).bind ((reads g.operationClass k).bind
    ((reads g.actions k).bind ((reads g.zoneFilter k).bind ((reads g.batch k).bind
      ((reads g.sequenceIndex k).bind ((reads g.remaining k).last fun _ => rfl)))))))

instance : LawfulRestorable Override where
  reads o k := (reads o.seat k).bind ((reads o.eligible k).last fun _ => rfl)

instance : LawfulRestorable CardState where
  reads c k := (reads c.seatOrder k).bind ((reads c.ineligible k).bind ((reads c.acted k).bind
    ((reads c.passed k).bind ((reads c.grants k).bind ((reads c.overrides k).bind
      ((reads c.cardIndex k).bind ((reads c.nextGrant k).last fun _ => rfl)))))))

instance : LawfulRestorable Tracker where
  reads
    | .roundRobin, _ => .choice 0 (.pure fun _ => rfl)
    | .fixed index, _ => .choice 1 ((reads index _).last fun _ => rfl)
    | .cardDriven card, _ => .choice 2 ((reads card _).last fun _ => rfl)
    | .simultaneous submitted, _ => .choice 3 ((reads submitted _).last fun _ => rfl)

instance : LawfulRestorable RandomState where
  reads r k := (reads r.seed k).bind ((reads r.position k).last fun _ => rfl)

instance : LawfulRestorable State where
  reads s k := (reads s.globalVars k).bind ((reads s.seatVars k).bind ((reads s.zoneVars k).bind
    ((reads s.store k).bind ((reads s.nextToken k).bind ((reads s.phase k).bind
      ((reads s.suspended k).bind ((reads s.active k).bind ((reads s.turn k).bind
        ((reads s.order k).bind ((reads s.usage k).bind ((reads s.markers k).bind
          ((reads s.lasting k).bind ((reads s.random k).bind
            ((reads s.fingerprint k).last fun _ => rfl))))))))))))))

/-! ## Snapshots -/

namespace State

/-- That the length of every text and every collection in a state fits in eight bytes. -/
def Fits (s : State) : Prop := ∀ a ∈ atoms s, a.Fits

instance (s : State) : Decidable s.Fits := inferInstanceAs (Decidable (∀ a ∈ atoms s, a.Fits))

variable {s s' : State}

/-- The snapshot of a state, and anything behind it, is read back as the state. -/
theorem ofBytes_append (hs : s.Fits) (rest : Bytes) : ofBytes (s.toBytes ++ rest) = .ok s := by
  have hback := (reads s s.toBytes.length hs).back (Nat.le_refl _) rest
  rw [ofBytes]
  change restore (s.toBytes ++ rest) = some (s, rest) at hback
  rw [hback]

/-- What is left of a snapshot that has been cut short is no snapshot. -/
theorem ofBytes_truncated (hs : s.Fits) {front : Bytes} (h : front <+: s.toBytes)
    (ne : front ≠ s.toBytes) : ofBytes front = .error .serialization := by
  have hnone := (reads s 0 hs).truncated front h ne
  rw [ofBytes, hnone]

/-- A snapshot that begins with that of another state is that of the same state. -/
theorem eq_of_beginning (hs : s.Fits) (hs' : s'.Fits) (h : s'.toBytes <+: s.toBytes) : s' = s := by
  obtain ⟨rest, hrest⟩ := h
  have hread : ofBytes s.toBytes = .ok s' := hrest ▸ ofBytes_append hs' rest
  have hself : ofBytes s.toBytes = .ok s := by
    simpa only [List.append_nil] using ofBytes_append hs []
  exact Except.ok.inj (hread.symm.trans hself)

/-- **Snapshots are faithful.**  A snapshot is read back as its state; whatever is cut off its end,
what is left is refused; and different states have different snapshots, none of which begins with
the other. -/
theorem restores (s : State) (hs : s.Fits) :
    ofBytes s.toBytes = .ok s ∧
      (∀ front, front <+: s.toBytes → front ≠ s.toBytes →
        ofBytes front = .error .serialization) ∧
      ∀ s' : State, s'.Fits → s' ≠ s → s'.toBytes ≠ s.toBytes ∧ ¬s'.toBytes <+: s.toBytes := by
  refine ⟨?whole, fun front h ne => ofBytes_truncated hs h ne, fun s' hs' ne => ?distinct⟩
  case whole => simpa only [List.append_nil] using ofBytes_append hs []
  case distinct =>
    have hbeginning : ¬s'.toBytes <+: s.toBytes := fun h => ne (eq_of_beginning hs hs' h)
    exact ⟨fun heq => hbeginning (heq ▸ List.prefix_refl _), hbeginning⟩

/-- A state with tokens, props and a free operation that waits for a place that is named "ford". -/
def campaign : State :=
  { (default : State) with
    globalVars := .ofList [("supply", -3)]
    store := ⟨.ofList [("camp", [{
      id := "scout-0", type := "scout"
      props := .ofList [("rank", .int 2), ("ready", .bool true), ("name", .str "Ida")] }])]⟩
    order := .cardDriven {
      seatOrder := [⟨0⟩, ⟨1⟩]
      grants := [{
        id := "grant-0", seat := ⟨1⟩, remaining := 1
        zoneFilter := some (.and [.compare .eq (.ref (.binding "space")) (.str "ford")]) }] }
    lasting := [{ id := "rain", action := "wait", duration := .turn, executor := ⟨0⟩ }] }

/-- The snapshot of that state with its last byte missing is refused, and no other state has it. -/
theorem restores_campaign :
    campaign.Fits ∧ ofBytes campaign.toBytes = .ok campaign ∧
      ofBytes campaign.toBytes.dropLast = .error .serialization ∧
      (campaign.recordUsage "wait").toBytes ≠ campaign.toBytes := by
  have hfits : campaign.Fits := by decide +kernel
  have hused : (campaign.recordUsage "wait").Fits := by decide +kernel
  obtain ⟨hwhole, htruncated, hdistinct⟩ := restores campaign hfits
  refine ⟨hfits, hwhole, htruncated _ (List.dropLast_prefix _) ?_, (hdistinct _ hused ?_).1⟩
  · intro heq
    have hlength := congrArg List.length heq
    rw [List.length_dropLast] at hlength
    have hpos : 0 < campaign.toBytes.length := by decide +kernel
    omega
  · intro heq
    have husage := congrArg (fun s => (s.usageOf "wait").turn) heq
    revert husage
    decide +kernel

end State

end Tabletop
