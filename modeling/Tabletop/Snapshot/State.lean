import Tabletop.Snapshot.Expr
import Tabletop.Atom.State

/-!
# Snapshots of states

A state can be put away as bytes and taken out again.  `State.toBytes` writes every part of a state
in the order of its declaration; `State.ofBytes` reads them in that order and does not look at what
comes after.

Main definitions: `State.toBytes` and `State.ofBytes`.
-/

namespace Tabletop

open Snapshot

instance {α : Type} [Restorable α] : Restorable (PerSeat α) where
  restore bs := (restore bs).map (fun r => (PerSeat.mk r.1, r.2))

instance : Restorable Token where
  restore bs := do
    let (id, bs) ← restore bs
    let (type, bs) ← restore bs
    let (props, bs) ← restore bs
    return ({ id, type, props }, bs)

instance : Restorable Store where
  restore bs := (restore bs).map (fun r => (Store.mk r.1, r.2))

instance : Restorable Duration where
  restore bs := do
    let (n, bs) ← decodeChoice bs
    match n with
    | 0 => return (.turn, bs)
    | 1 => return (.phase, bs)
    | _ => none

instance : Restorable Usage where
  restore bs := do
    let (turn, bs) ← restore bs
    let (phase, bs) ← restore bs
    let (game, bs) ← restore bs
    return ({ turn, phase, game }, bs)

instance : Restorable ActiveLasting where
  restore bs := do
    let (id, bs) ← restore bs
    let (action, bs) ← restore bs
    let (duration, bs) ← restore bs
    let (executor, bs) ← restore bs
    return ({ id, action, duration, executor }, bs)

instance : Restorable Grant where
  restore bs := do
    let (id, bs) ← restore bs
    let (seat, bs) ← restore bs
    let (operationClass, bs) ← restore bs
    let (actions, bs) ← restore bs
    let (zoneFilter, bs) ← restore bs
    let (batch, bs) ← restore bs
    let (sequenceIndex, bs) ← restore bs
    let (remaining, bs) ← restore bs
    return ({ id, seat, operationClass, actions, zoneFilter, batch, sequenceIndex, remaining }, bs)

instance : Restorable Override where
  restore bs := do
    let (seat, bs) ← restore bs
    let (eligible, bs) ← restore bs
    return ({ seat, eligible }, bs)

instance : Restorable CardState where
  restore bs := do
    let (seatOrder, bs) ← restore bs
    let (ineligible, bs) ← restore bs
    let (acted, bs) ← restore bs
    let (passed, bs) ← restore bs
    let (grants, bs) ← restore bs
    let (overrides, bs) ← restore bs
    let (cardIndex, bs) ← restore bs
    let (nextGrant, bs) ← restore bs
    return ({ seatOrder, ineligible, acted, passed, grants, overrides, cardIndex, nextGrant }, bs)

instance : Restorable Tracker where
  restore bs := do
    let (n, bs) ← decodeChoice bs
    match n with
    | 0 => return (.roundRobin, bs)
    | 1 => do let (index, bs) ← restore bs; return (.fixed index, bs)
    | 2 => do let (card, bs) ← restore bs; return (.cardDriven card, bs)
    | 3 => do let (submitted, bs) ← restore bs; return (.simultaneous submitted, bs)
    | _ => none

instance : Restorable RandomState where
  restore bs := do
    let (seed, bs) ← restore bs
    let (position, bs) ← restore bs
    return ({ seed, position }, bs)

instance : Restorable State where
  restore bs := do
    let (globalVars, bs) ← restore bs
    let (seatVars, bs) ← restore bs
    let (zoneVars, bs) ← restore bs
    let (store, bs) ← restore bs
    let (nextToken, bs) ← restore bs
    let (phase, bs) ← restore bs
    let (suspended, bs) ← restore bs
    let (active, bs) ← restore bs
    let (turn, bs) ← restore bs
    let (order, bs) ← restore bs
    let (usage, bs) ← restore bs
    let (markers, bs) ← restore bs
    let (lasting, bs) ← restore bs
    let (random, bs) ← restore bs
    let (fingerprint, bs) ← restore bs
    return ({ globalVars, seatVars, zoneVars, store, nextToken, phase, suspended, active, turn,
              order, usage, markers, lasting, random, fingerprint }, bs)

namespace State

/-- The snapshot of a state. -/
def toBytes (s : State) : Bytes := Snapshot.encode s

/-- The state of a snapshot. -/
def ofBytes (bytes : Bytes) : Result State :=
  match restore bytes with
  | some (s, _) => .ok s
  | none => .error .serialization

end State

end Tabletop
