import Tabletop.Play.Resolve

/-!
# Listing the legal moves

Every action is explored depth first from the move without selections.  An open decision branches
over its choices in a fixed order: the order of the domain where one option is asked for, and else
all combinations, the smaller before the larger and, of one size, by the positions of their members.
A branch ends where the move is complete or illegal.

While grants are pending, actions are explored as free operations.  Moves with a special activity
are explored from the complete moves without one.

A move answers a decision for good, so a branch is never longer than there are declared params and
operations; that many levels are explored.

Main definitions: `Rules.explore` and `Rules.legalMoves`.
-/

namespace Tabletop

/-! ## Choices -/

/-- The combinations of `n` items, each in the order of the items. -/
def combinations {α : Type} : Nat → List α → List (List α)
  | 0, _ => [[]]
  | _ + 1, [] => []
  | n + 1, x :: xs => (combinations n xs).map (x :: ·) ++ combinations (n + 1) xs

/-- The selections that answer a decision, in a fixed order. -/
def Decision.choices (d : Decision) : List Selection :=
  let options := d.domain.filterMap Value.identity?
  match d.kind with
  | .chooseOne => options.map Selection.one
  | .chooseN =>
    let most := Min.min d.max options.length
    let sizes := (List.range (most + 1 - d.min)).map (d.min + ·)
    (sizes.flatMap (fun n => combinations n options)).map Selection.many

/-- The move with an answer to a request. -/
def Move.answer (m : Move) (q : Request) (x : Selection) : Move :=
  match m.compound, q.special with
  | some c, true =>
    { m with compound := some { c with special := c.special.select q.decision.name x } }
  | _, _ => m.select q.decision.name x

namespace Rules

/-! ## Moves without a special activity -/

/-- Adds the complete moves that a move can be made into, as long as there are fewer than `cap`. -/
def explore (r : Rules) (s : State) (cap : Nat) : Nat → Move → Array Move → Result (Array Move)
  | 0, _, found => .ok found
  | fuel + 1, m, found =>
    if cap ≤ found.size then .ok found
    else
      match r.resolve s m with
      | .ok _ => .ok (found.push m)
      | .error (.pending q) =>
        q.decision.choices.foldlM (fun found x => explore r s cap fuel (m.answer q x) found) found
      | .error (.refused _) => .ok found
      | .error (.fault fault) => .error fault

/-- The number of levels below which no branch goes. -/
def depthOf (r : Rules) (m : Move) : Nat :=
  let declared (action : ActionId) : Nat :=
    match r.definition.action? action with
    | some a => a.params.length
    | none => 0
  let special :=
    match m.compound with
    | some c => declared c.special.action
    | none => 0
  declared m.action + special + r.limits.maxOps.toNat + 1

/-- The move from which an action is explored. -/
def bareMove (r : Rules) (s : State) (action : ActionId) : Move :=
  { action, free := s.order.inGrantWindow && !r.definition.isPass action }

/-- Adds the complete moves that several moves can be made into. -/
def exploreAll (r : Rules) (s : State) (cap : Nat) : List Move → Array Move → Result (Array Move)
  | [], found => .ok found
  | m :: ms, found => do
    let found ← r.explore s cap (r.depthOf m) m found
    r.exploreAll s cap ms found

/-! ## Moves with a special activity -/

/-- The number of stages after which a special activity is tried. -/
def stagesOf (r : Rules) (host : ActionId) : Nat :=
  (r.definition.pipelinesOf host).foldl (fun n p => max n p.stages.length) 1

/-- The actions that say that they may accompany a host, each once. -/
def specialsOf (r : Rules) (host : ActionId) : List ActionId :=
  ((r.definition.pipelines.filter (fun p => p.accompanies.any (·.contains host))).map
    (·.action)).eraseDups

/-- The times at which a special activity is tried.  A move numbers the stages of its host with 64
bits, and no list of stages is longer than that. -/
def timings (stages : Nat) : List (Timing × Option UInt64) :=
  [(.before, none), (.after, none)] ++
    (List.range (min stages UInt64.size)).map (fun k => (.during, some (UInt64.ofNat k)))

/-- The moves with a special activity that are explored for a host. -/
def compoundsOf (r : Rules) (host : Move) : List Move :=
  (r.specialsOf host.action).flatMap (fun special =>
    (timings (r.stagesOf host.action)).map (fun t =>
      host.accompaniedBy { action := special, free := host.free } t.1 t.2))

/-! ## The list -/

/-- The legal moves of the active seat. -/
def legalMoves (r : Rules) (s : State) (cap : Nat) (compounds : Bool) : Result (List Move) := do
  if (← r.game.outcome? s).isSome then return []
  else
    let found ← r.exploreAll s cap (r.definition.actions.map (fun a => r.bareMove s a.id)) #[]
    if compounds then
      return (← r.exploreAll s cap (found.toList.flatMap r.compoundsOf) found).toList
    else return found.toList

/-- Whether the active seat has a legal move. -/
def hasLegalMove (r : Rules) (s : State) : Result Bool := do
  return !(← r.legalMoves s 1 false).isEmpty

end Rules

/-- The legal moves of the active seat, as many as a listing asks for. -/
def Game.legalMoves (g : Game) (s : State) (l : Listing) : Result (List Move) :=
  Rules.legalMoves { game := g, limits := l.limits } s l.maxMoves l.compounds

end Tabletop
