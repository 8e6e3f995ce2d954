import Tabletop.Atom.Expr
import Tabletop.State.Basic

/-!
# The atoms of a state

Every part of a state has atoms, its parts in the order of their declaration.

Main definition: the instance `Atomic State`.
-/

namespace Tabletop

instance {α : Type} [Atomic α] : Atomic (PerSeat α) := ⟨fun p => atoms p.data⟩

instance : Atomic Token := ⟨fun t => atoms t.id ++ (atoms t.type ++ atoms t.props)⟩

instance : Atomic Store := ⟨fun s => atoms s.zones⟩

instance : Atomic Duration where
  atoms
    | .turn => [.choice 0]
    | .phase => [.choice 1]

instance : Atomic Usage := ⟨fun u => atoms u.turn ++ (atoms u.phase ++ atoms u.game)⟩

instance : Atomic ActiveLasting where
  atoms l := atoms l.id ++ (atoms l.action ++ (atoms l.duration ++ atoms l.executor))

instance : Atomic Grant where
  atoms g :=
    atoms g.id ++ (atoms g.seat ++ (atoms g.operationClass ++ (atoms g.actions ++
      (atoms g.zoneFilter ++ (atoms g.batch ++ (atoms g.sequenceIndex ++ atoms g.remaining))))))

instance : Atomic Override := ⟨fun o => atoms o.seat ++ atoms o.eligible⟩

instance : Atomic CardState where
  atoms c :=
    atoms c.seatOrder ++ (atoms c.ineligible ++ (atoms c.acted ++ (atoms c.passed ++
      (atoms c.grants ++ (atoms c.overrides ++ (atoms c.cardIndex ++ atoms c.nextGrant))))))

instance : Atomic Tracker where
  atoms
    | .roundRobin => [.choice 0]
    | .fixed index => .choice 1 :: atoms index
    | .cardDriven card => .choice 2 :: atoms card
    | .simultaneous submitted => .choice 3 :: atoms submitted

instance : Atomic RandomState := ⟨fun r => atoms r.seed ++ atoms r.position⟩

instance : Atomic State where
  atoms s :=
    atoms s.globalVars ++ (atoms s.seatVars ++ (atoms s.zoneVars ++ (atoms s.store ++
      (atoms s.nextToken ++ (atoms s.phase ++ (atoms s.suspended ++ (atoms s.active ++
        (atoms s.turn ++ (atoms s.order ++ (atoms s.usage ++ (atoms s.markers ++
          (atoms s.lasting ++ (atoms s.random ++ atoms s.fingerprint)))))))))))))

end Tabletop
