import Tabletop.Board.Adjacency
import Tabletop.Proofs.Board.Contents
import Tabletop.Proofs.Repeats

/-!
# Who is next to whom

The neighbours of zones are gathered edge by edge: first those that the zones list, then those that
the spaces of the map list, and an edge may be listed several times, from both of its ends, and with
itself.  None of that shows in what comes out.  The neighbours of a zone ascend strictly, which is
what a search by halving needs to find them, and they are the zones that are listed from either
side.

`NeighbourLists.Holds` relates lists of neighbours to sets of them: every edge preserves it, so does
putting the lists in order, and ordered lists that hold a set are the set's list.

Main statement: `Adjacency.links_exactly`.
-/

namespace Tabletop

/-! ## What a definition lists -/

namespace Definition

variable (d : Definition)

/-- A zone, or a space of the map, lists another as a neighbour. -/
def Lists (a b : ZoneId) : Prop :=
  (∃ z ∈ d.zones, z.id = a ∧ b ∈ z.adjacentTo) ∨
    ∃ m, d.map = some m ∧ ∃ s ∈ m.spaces, s.id = a ∧ b ∈ s.adjacentTo

/-- One of two different zones lists the other. -/
def Linked (a b : ZoneId) : Prop := a ≠ b ∧ (d.Lists a b ∨ d.Lists b a)

variable {d} {a b : ZoneId}

/-- Links go both ways. -/
theorem Linked.symm (h : d.Linked a b) : d.Linked b a := ⟨h.1.symm, h.2.symm⟩

/-- No zone is linked to itself. -/
theorem not_linked_self : ¬d.Linked a a := fun h => h.1 rfl

end Definition

/-! ## Looking by halves -/

/-- Sorted and listed once each, ids ascend strictly. -/
theorem ZoneId.pairwise_sortedOnce (ids : List ZoneId) : (sortedOnce ids).Pairwise (· < ·) := by
  have hsorted : (ids.mergeSort (· ≤ ·)).Pairwise (fun a b => decide (a ≤ b) = true) := by
    apply List.pairwise_mergeSort
    · intro a b c hab hbc
      exact decide_eq_true (String.le_trans (of_decide_eq_true hab) (of_decide_eq_true hbc))
    · intro a b
      simpa using String.le_total a b
  refine pairwise_eraseReps ?_ ?_ hsorted
  · intro a b hle hne
    exact Dict.lt_of_not_lt_of_ne (String.not_lt.2 (of_decide_eq_true hle)) (Ne.symm hne)
  · intro a b c hab hbc
    exact String.lt_trans hab hbc

/-- Sorting ids and listing them once each keeps every one of them and adds none. -/
theorem ZoneId.mem_sortedOnce {id : ZoneId} {ids : List ZoneId} : id ∈ sortedOnce ids ↔ id ∈ ids :=
  mem_eraseReps.trans (List.mergeSort_perm ids _).mem_iff

/-- Strictly ascending lists of the same ids are the same. -/
theorem ZoneId.eq_of_ascending {ids ids' : List ZoneId} (h : ids.Pairwise (· < ·))
    (h' : ids'.Pairwise (· < ·)) (hmem : ∀ id, id ∈ ids ↔ id ∈ ids') : ids = ids' :=
  have : Std.Irrefl (α := ZoneId) (· < ·) := ⟨String.lt_irrefl⟩
  h.eq_of_mem_iff h' hmem

/-- The search finds what is there, provided that the ids ascend. -/
theorem ZoneId.foundByHalves_iff (id : ZoneId) {ids : List ZoneId} (h : ids.Pairwise (· < ·)) :
    foundByHalves id ids = true ↔ id ∈ ids := by
  fun_induction foundByHalves id ids with
  | case1 ids hdrop =>
    have hshort : ids.length ≤ ids.length / 2 := List.drop_eq_nil_iff.1 hdrop
    have hnil : ids = [] := List.length_eq_zero_iff.1 (by omega)
    simp [hnil]
  | case2 ids above hdrop =>
    have hmem : id ∈ ids := List.mem_of_mem_drop (hdrop ▸ List.mem_cons_self)
    simp [hmem]
  | case3 ids middle above hdrop hne hlt ih =>
    have hsplit : ids = ids.take (ids.length / 2) ++ middle :: above := by
      rw [← hdrop, List.take_append_drop]
    obtain ⟨hbelow, habove, -⟩ := List.pairwise_append.1 (hsplit ▸ h)
    have hnot : id ∉ middle :: above := by
      intro hmem
      rcases List.mem_cons.1 hmem with rfl | hmem
      · exact hne rfl
      · exact String.lt_asymm hlt ((List.pairwise_cons.1 habove).1 id hmem)
    rw [ih hbelow]
    conv_rhs => rw [hsplit]
    rw [List.mem_append]
    exact ⟨.inl, fun hmem => hmem.resolve_right hnot⟩
  | case4 ids middle above hdrop hne hlt ih =>
    have hsplit : ids = ids.take (ids.length / 2) ++ middle :: above := by
      rw [← hdrop, List.take_append_drop]
    obtain ⟨-, habove, hacross⟩ := List.pairwise_append.1 (hsplit ▸ h)
    have hnot : id ∉ ids.take (ids.length / 2) := fun hmem =>
      hlt (hacross id hmem middle List.mem_cons_self)
    rw [ih (List.pairwise_cons.1 habove).2]
    conv_rhs => rw [hsplit]
    rw [List.mem_append, List.mem_cons]
    exact ⟨fun hmem => .inr (.inr hmem), fun hmem => (hmem.resolve_left hnot).resolve_left hne⟩

namespace Adjacency

variable {g : Adjacency} {a b c e : ZoneId}

/-! ## One edge after the other -/

/-- The neighbours of a zone are the zones that are adjacent to it. -/
theorem mem_neighbours_iff : b ∈ g.neighbours a ↔ g.adjacent a b = true := Dict.mem_keys_iff

/-- The neighbours of a zone ascend strictly. -/
theorem pairwise_neighbours (g : Adjacency) (a : ZoneId) : (g.neighbours a).Pairwise (· < ·) :=
  (g.set a).pairwise_keys

/-- A zone that is listed as a neighbour is adjacent, and nothing else changes. -/
theorem adjacent_addNeighbour_iff :
    (g.addNeighbour a b).adjacent c e = true ↔ c = a ∧ e = b ∨ g.adjacent c e = true := by
  unfold adjacent set addNeighbour
  rw [Dict.get?_insert]
  by_cases hc : c = a
  · subst hc
    rw [if_pos rfl, Option.getD_some, Dict.contains, Dict.get?_insert]
    by_cases he : e = b
    · simp [he]
    · simp [he, Dict.contains, set]
  · simp [hc]

/-- An edge links its two ends, in both directions, unless they are the same. -/
theorem adjacent_addEdge_iff :
    (g.addEdge a b).adjacent c e = true ↔
      (a ≠ b ∧ (c = a ∧ e = b ∨ c = b ∧ e = a)) ∨ g.adjacent c e = true := by
  unfold addEdge
  by_cases hab : a = b
  · simp [hab]
  · rw [if_neg hab, adjacent_addNeighbour_iff, adjacent_addNeighbour_iff, ← or_assoc]
    simp [hab, or_comm]

/-- After several edges, two zones are adjacent if they were before or if one of the edges links
them. -/
theorem adjacent_foldl_iff (edges : List (ZoneId × ZoneId)) :
    (edges.foldl (fun g e => g.addEdge e.1 e.2) g).adjacent a b = true ↔
      g.adjacent a b = true ∨ a ≠ b ∧ ((a, b) ∈ edges ∨ (b, a) ∈ edges) := by
  induction edges generalizing g with
  | nil => simp
  | cons edge edges ih =>
    obtain ⟨c, e⟩ := edge
    rw [List.foldl_cons, ih, adjacent_addEdge_iff]
    simp only [List.mem_cons, Prod.mk.injEq]
    constructor
    · rintro ((⟨hne, ⟨rfl, rfl⟩ | ⟨rfl, rfl⟩⟩ | h) | ⟨hne, h⟩)
      · exact .inr ⟨hne, .inl (.inl ⟨rfl, rfl⟩)⟩
      · exact .inr ⟨hne.symm, .inr (.inl ⟨rfl, rfl⟩)⟩
      · exact .inl h
      · exact .inr ⟨hne, h.imp .inr .inr⟩
    · rintro (h | ⟨hne, (⟨rfl, rfl⟩ | h) | (⟨rfl, rfl⟩ | h)⟩)
      · exact .inl (.inr h)
      · exact .inl (.inl ⟨hne, .inl ⟨rfl, rfl⟩⟩)
      · exact .inr ⟨hne, .inl h⟩
      · exact .inl (.inl ⟨hne.symm, .inr ⟨rfl, rfl⟩⟩)
      · exact .inr ⟨hne, .inr h⟩

/-- The edges of a definition are the pairs of which the first one lists the second. -/
theorem mem_declared_iff {d : Definition} : (a, b) ∈ declared d ↔ d.Lists a b := by
  unfold declared Definition.Lists
  rw [List.mem_append]
  refine or_congr ?_ ?_
  · simp only [List.mem_flatMap, List.mem_map, Prod.mk.injEq]
    exact exists_congr fun z => by grind
  · simp only [List.mem_flatMap, List.mem_map, Prod.mk.injEq, Option.mem_toList]
    grind

/-- Two zones of a definition are adjacent exactly if they are different and one lists the other. -/
theorem adjacent_ofDefinition_iff (d : Definition) :
    (ofDefinition d).adjacent a b = true ↔ d.Linked a b := by
  have hempty : (⟨∅⟩ : Adjacency).adjacent a b = false := rfl
  rw [ofDefinition, adjacent_foldl_iff, hempty, mem_declared_iff, mem_declared_iff]
  simp [Definition.Linked]

end Adjacency

/-! ## Lists beside sets -/

namespace NeighbourLists

variable {l : NeighbourLists} {g : Adjacency} {a b c : ZoneId}

/-- Lists hold what sets hold: entries for the same zones, with the same neighbours. -/
structure Holds (l : NeighbourLists) (g : Adjacency) : Prop where
  contains_iff : ∀ a, l.lists.contains a = true ↔ g.neighbourSets.contains a = true
  mem_iff : ∀ a b, b ∈ l.neighbours a ↔ g.adjacent a b = true

/-- The neighbours of a zone after one more is noted. -/
theorem neighbours_push :
    (l.push a b).neighbours c = if c = a then l.neighbours a ++ [b] else l.neighbours c := by
  unfold neighbours push
  rw [Dict.get?_insert]
  by_cases hc : c = a
  · rw [if_pos hc, if_pos hc]
    rfl
  · rw [if_neg hc, if_neg hc]

/-- What is noted in a list goes to the set too. -/
theorem Holds.push (h : l.Holds g) : (l.push a b).Holds (g.addNeighbour a b) where
  contains_iff c := by
    unfold NeighbourLists.push Adjacency.addNeighbour
    by_cases hc : c = a
    · simp [Dict.contains, hc]
    · simpa [Dict.contains, Dict.get?_insert, hc] using h.contains_iff c
  mem_iff c e := by
    rw [neighbours_push, Adjacency.adjacent_addNeighbour_iff, ← h.mem_iff]
    by_cases hc : c = a
    · subst hc
      rw [if_pos rfl, List.mem_append, List.mem_singleton]
      simp [or_comm]
    · rw [if_neg hc]
      simp [hc]

/-- An edge is noted in lists as in sets. -/
theorem Holds.addEdge (h : l.Holds g) : (l.addEdge a b).Holds (g.addEdge a b) := by
  unfold NeighbourLists.addEdge Adjacency.addEdge
  split
  · exact h
  · exact h.push.push

/-- Edges are noted in lists as in sets, one after the other. -/
theorem Holds.foldl {edges : List (ZoneId × ZoneId)} (h : l.Holds g) :
    (edges.foldl (fun l e => l.addEdge e.1 e.2) l).Holds
      (edges.foldl (fun g e => g.addEdge e.1 e.2) g) := by
  induction edges generalizing l g with
  | nil => exact h
  | cons e edges ih => exact ih h.addEdge

/-- The neighbours of a zone, once the lists are in order. -/
theorem neighbours_finish : l.finish.neighbours a = ZoneId.sortedOnce (l.neighbours a) := by
  unfold neighbours finish
  rw [Dict.get?_map]
  cases l.lists.get? a with
  | none => simp [ZoneId.sortedOnce, List.eraseReps, List.eraseRepsBy]
  | some ids => rfl

/-- Putting the lists in order changes neither the zones nor who their neighbours are. -/
theorem Holds.finish (h : l.Holds g) : l.finish.Holds g where
  contains_iff a := by
    rw [← h.contains_iff, NeighbourLists.finish, Dict.contains, Dict.contains, Dict.get?_map,
      Option.isSome_map]
  mem_iff a b := by rw [neighbours_finish, ZoneId.mem_sortedOnce, h.mem_iff]

/-- The lists of a definition hold its sets of neighbours. -/
theorem holds_ofDefinition (d : Definition) : (ofDefinition d).Holds (Adjacency.ofDefinition d) :=
  have hempty : Holds ⟨∅⟩ ⟨∅⟩ :=
    { contains_iff := fun _ => Iff.rfl
      mem_iff := fun _ _ => ⟨nofun, nofun⟩ }
  hempty.foldl.finish

/-- The neighbours that are noted, sorted and rid of repeats are the neighbours in the set. -/
theorem neighbours_ofDefinition (d : Definition) (a : ZoneId) :
    (ofDefinition d).neighbours a = (Adjacency.ofDefinition d).neighbours a := by
  refine ZoneId.eq_of_ascending ?_ (Adjacency.pairwise_neighbours _ a) fun b => ?_
  · rw [ofDefinition, neighbours_finish]
    exact ZoneId.pairwise_sortedOnce _
  · rw [(holds_ofDefinition d).mem_iff, Adjacency.mem_neighbours_iff]

/-- The search by halving answers as the look-up in the set does. -/
theorem adjacent_ofDefinition (d : Definition) (a b : ZoneId) :
    (ofDefinition d).adjacent a b = (Adjacency.ofDefinition d).adjacent a b := by
  rw [adjacent, neighbours_ofDefinition, Bool.eq_iff_iff,
    ZoneId.foundByHalves_iff b (Adjacency.pairwise_neighbours _ a), Adjacency.mem_neighbours_iff]

/-- As many zones have lists of neighbours as have sets of them. -/
theorem size_ofDefinition (d : Definition) :
    (ofDefinition d).size = (Adjacency.ofDefinition d).size := by
  have hkeys : (ofDefinition d).lists.keys = (Adjacency.ofDefinition d).neighbourSets.keys := by
    refine ZoneId.eq_of_ascending (Dict.pairwise_keys _) (Dict.pairwise_keys _) fun a => ?_
    rw [Dict.mem_keys_iff, Dict.mem_keys_iff, (holds_ofDefinition d).contains_iff]
  simpa [size, Adjacency.size, Dict.keys] using congrArg List.length hkeys

end NeighbourLists

/-! ## The whole map -/

namespace Adjacency

/-- Two zones of a definition are adjacent exactly if they differ and one of them lists the other,
as a zone or as a space of the map.  So adjacency goes both ways and no zone is adjacent to itself.
The neighbours of a zone ascend strictly, they are the zones that are adjacent to it, and a search
by halving tells them from all others.  It all comes out of lists in which the neighbours are noted
edge by edge, then sorted and rid of repeats. -/
theorem links_exactly (d : Definition) :
    (∀ a b, (ofDefinition d).adjacent a b = true ↔ a ≠ b ∧ (d.Lists a b ∨ d.Lists b a)) ∧
    (∀ a b, (ofDefinition d).adjacent a b = (ofDefinition d).adjacent b a) ∧
    (∀ a, (ofDefinition d).adjacent a a = false) ∧
    (∀ a, ((ofDefinition d).neighbours a).Pairwise (· < ·) ∧
      (∀ b, b ∈ (ofDefinition d).neighbours a ↔ a ≠ b ∧ (d.Lists a b ∨ d.Lists b a)) ∧
      ∀ b, ZoneId.foundByHalves b ((ofDefinition d).neighbours a) = (ofDefinition d).adjacent a b) ∧
    (NeighbourLists.ofDefinition d).size = (ofDefinition d).size ∧
    ∀ a, (NeighbourLists.ofDefinition d).neighbours a = (ofDefinition d).neighbours a ∧
      ∀ b, (NeighbourLists.ofDefinition d).adjacent a b = (ofDefinition d).adjacent a b := by
  refine ⟨fun a b => adjacent_ofDefinition_iff d, fun a b => ?_, fun a => ?_, fun a => ?_,
    NeighbourLists.size_ofDefinition d, fun a => ?_⟩
  · rw [Bool.eq_iff_iff, adjacent_ofDefinition_iff, adjacent_ofDefinition_iff]
    exact ⟨.symm, .symm⟩
  · rw [Bool.eq_false_iff, ne_eq, adjacent_ofDefinition_iff]
    exact Definition.not_linked_self
  · have hascend := (ofDefinition d).pairwise_neighbours a
    refine ⟨hascend, fun b => ?_, fun b => ?_⟩
    · exact mem_neighbours_iff.trans (adjacent_ofDefinition_iff d)
    · rw [Bool.eq_iff_iff, ZoneId.foundByHalves_iff b hascend, mem_neighbours_iff]
  · exact ⟨NeighbourLists.neighbours_ofDefinition d a, NeighbourLists.adjacent_ofDefinition d a⟩

/-- A pass is listed by both of its valleys, a ferry by a space of the map, and a lake by itself. -/
example : (ofDefinition { Definition.minimal "alps" with
    zones := [
      { id := "west", adjacentTo := ["pass", "east", "pass"] },
      { id := "east", adjacentTo := ["pass"] },
      { id := "lake", adjacentTo := ["lake"] }]
    map := some { spaces := [{ id := "ferry", adjacentTo := ["lake", "east"] }] } }
    ).neighbours "east" = ["ferry", "pass", "west"] := by
  decide +kernel

end Adjacency

end Tabletop
