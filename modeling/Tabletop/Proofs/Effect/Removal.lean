import Tabletop.Proofs.Effect.Moves

/-!
# Removal by priority

A removal by priority visits one group after the other.  It moves the tokens of a group to the top
of the group's target, in the order of the query, until the budget is spent; which tokens these are
is asked only when the group is visited, so the moves of the groups before it count.  A token may
come up in several groups, or several times in one, and it moves each time.

What a run does is told as the list of its visits.  Only the last of them may have stopped early,
and only because the budget was spent; where budget is left, every group has been visited.

Main statements: `Site.removeItems_tops` for one group, `Site.removeGroups_visits` for all of them,
and `Site.removes_by_priority`.
-/

namespace Tabletop

/-- A token that moves to the top ends there: in front, or at the back of a queue. -/
theorem Session.MovesToken.top {d : Definition} {source target : ZoneId} {t : Token}
    {before after amid : List Token} {x y : Session}
    (h : x.MovesToken d source target .top t before after amid y) :
    y.state.store.tokens? target =
      some (if d.orderOf target = .queue then amid ++ [t] else t :: amid) := by
  obtain ⟨depth, rfl, -, hjoined⟩ := h.joined
  rw [hjoined, InsertAt.depth]
  split
  · rw [List.take_length, List.drop_length]
  · rfl

/-- Tokens that move to the top of a zone one after the other, each from where it is at its time. -/
inductive Session.Tops (d : Definition) (target : ZoneId) :
    List TokenId → Session → Session → Prop where
  | nil (x : Session) : Tops d target [] x x
  | cons {source : ZoneId} {t : Token} {before after amid : List Token} {ids : List TokenId}
      {x y z : Session} (hmoves : MovesToken d source target .top t before after amid x y)
      (htop : y.state.store.tokens? target =
        some (if d.orderOf target = .queue then amid ++ [t] else t :: amid))
      (hrest : Tops d target ids y z) :
      Tops d target (t.id :: ids) x z

/-- A group that is visited. -/
structure Visit where
  group : PriorityGroup
  /-- The zone that the group's target means. -/
  target : ZoneId
  /-- What the group's query comes to. -/
  items : List Value
  /-- The tokens that are moved, each as often as it is. -/
  moved : List TokenId
  start : Session
  finish : Session

namespace Visit

/-- Everything that the query came to has been moved. -/
def Full (v : Visit) : Prop := v.moved.length = v.items.length

/-- The query and the target are those of the group when the visit starts, and the tokens that are
moved are the first ones of the query, in its order. -/
structure Made (s : Site) (v : Visit) : Prop where
  items : v.group.source.eval (s.view v.start) = .ok v.items
  target : v.group.target.resolve (s.view v.start) = .ok v.target
  first : v.moved.map some <+: v.items.map Value.str?
  moves : Session.Tops s.definition v.target v.moved v.start v.finish

/-- Visits that lead from one session to another, each starting where the one before has
finished. -/
def Lead : List Visit → Session → Session → Prop
  | [], x, y => x = y
  | v :: visits, x, y => v.start = x ∧ Lead visits v.finish y

/-- How many relocations visits make. -/
def total (visits : List Visit) : Nat := (visits.flatMap (·.moved)).length

/-- Visits make the relocations of the first one and those of the others. -/
theorem total_cons (v : Visit) (visits : List Visit) :
    total (v :: visits) = v.moved.length + total visits := by
  rw [total, List.flatMap_cons, List.length_append, total]

end Visit

namespace Site

variable {s : Site}

/-- The tokens of a group move as long as the budget lasts. -/
theorem removeItems_tops {target : ZoneId} :
    ∀ {items : List Value} {budget left : Nat} {x y : Session},
    s.removeItems target items budget x = .ok (left, y) →
      ∃ moved : List TokenId, moved.map some <+: items.map Value.str? ∧
        Session.Tops s.definition target moved x y ∧ budget = left + moved.length ∧
        (0 < left → moved.length = items.length)
  | items, 0, left, x, y, h => by
    obtain ⟨rfl, rfl⟩ : 0 = left ∧ x = y := by simpa [removeItems] using h
    exact ⟨[], List.nil_prefix, .nil x, rfl, fun h => absurd h (Nat.lt_irrefl 0)⟩
  | [], budget + 1, left, x, y, h => by
    obtain ⟨rfl, rfl⟩ : budget + 1 = left ∧ x = y := by simpa [removeItems] using h
    exact ⟨[], List.nil_prefix, .nil x, rfl, fun _ => rfl⟩
  | item :: items, budget + 1, left, x, y, h => by
    rw [removeItems] at h
    obtain ⟨id, hid, h⟩ := bind_eq_ok h
    obtain ⟨⟨source, index⟩, hlocated, h⟩ := bind_eq_ok h
    obtain ⟨z, hz, h⟩ := bind_eq_ok h
    obtain ⟨moved, hfirst, htops, hbudget, hfull⟩ := removeItems_tops h
    have hid := orFault_eq_ok (mapError_eq_ok hid)
    have hlocated := (s.locate_settled x id).of_ok hlocated
    obtain ⟨t, before, after, amid, rfl, hmoves⟩ := movesToken_of_relocate hlocated hz
    refine ⟨t.id :: moved, ?_, .cons hmoves hmoves.top htops, ?_, fun hleft => ?_⟩
    · rw [List.map_cons, List.map_cons, hid]
      exact (List.prefix_cons_inj _).2 hfirst
    · rw [List.length_cons]
      omega
    · rw [List.length_cons, List.length_cons, hfull hleft]

/-- The groups are visited in their order as long as the budget lasts. -/
theorem removeGroups_visits : ∀ {groups : List PriorityGroup} {budget left : Nat} {x y : Session},
    s.removeGroups groups budget x = .ok (left, y) →
      ∃ visits : List Visit, visits.map (·.group) <+: groups ∧ Visit.Lead visits x y ∧
        (∀ v ∈ visits, v.Made s) ∧ budget = left + Visit.total visits ∧
        (visits ≠ [] → 0 < budget) ∧
        (∀ v ∈ visits.dropLast, v.Full) ∧
        (0 < left → visits.map (·.group) = groups ∧ ∀ v ∈ visits, v.Full)
  | groups, 0, left, x, y, h => by
    obtain ⟨rfl, rfl⟩ : 0 = left ∧ x = y := by simpa [removeGroups] using h
    exact ⟨[], List.nil_prefix, rfl, List.forall_mem_nil _, rfl, fun h => absurd rfl h,
      List.forall_mem_nil _, fun h => absurd h (Nat.lt_irrefl 0)⟩
  | [], budget + 1, left, x, y, h => by
    obtain ⟨rfl, rfl⟩ : budget + 1 = left ∧ x = y := by simpa [removeGroups] using h
    exact ⟨[], List.nil_prefix, rfl, List.forall_mem_nil _, rfl, fun h => absurd rfl h,
      List.forall_mem_nil _, fun _ => ⟨rfl, List.forall_mem_nil _⟩⟩
  | g :: groups, budget + 1, left, x, y, h => by
    rw [removeGroups] at h
    obtain ⟨items, hitems, h⟩ := bind_eq_ok h
    obtain ⟨target, htarget, h⟩ := bind_eq_ok h
    obtain ⟨⟨rest, z⟩, hz, h⟩ := bind_eq_ok h
    obtain ⟨moved, hfirst, htops, hbudget, hfull⟩ := removeItems_tops hz
    obtain ⟨visits, hgroups, hlead, hmade, hrest, hspare, hearlier, hall⟩ := removeGroups_visits h
    let v : Visit := ⟨g, target, items, moved, x, z⟩
    have hv : v.Made s := ⟨mapError_eq_ok hitems, mapError_eq_ok htarget, hfirst, htops⟩
    refine ⟨v :: visits, (List.prefix_cons_inj _).2 hgroups, ⟨rfl, hlead⟩,
      List.forall_mem_cons.2 ⟨hv, hmade⟩, ?_, fun _ => Nat.succ_pos _, ?_, fun hleft => ?_⟩
    · have htotal : Visit.total (v :: visits) = moved.length + Visit.total visits :=
        Visit.total_cons v visits
      omega
    · -- Another group is visited only with budget left over, so this one has been moved in full.
      by_cases hlast : visits = []
      · rw [hlast]
        exact List.forall_mem_nil _
      · rw [List.dropLast_cons_of_ne_nil hlast]
        exact List.forall_mem_cons.2 ⟨hfull (hspare hlast), hearlier⟩
    · obtain ⟨hsame, hfulls⟩ := hall hleft
      refine ⟨congrArg (g :: ·) hsame, List.forall_mem_cons.2 ⟨hfull ?_, hfulls⟩⟩
      omega

end Site

/-- What a removal by priority does whose moves succeed.  It makes as many relocations as its visits
do, which are no more than the budget, and runs its body with their number bound. -/
theorem Site.removes_by_priority {s : Site} {x y : Session} {budget : Expr}
    {groups : List PriorityGroup} {n : Int64} {r : Nat}
    (hbudget : budget.evalInt (s.view x) = .ok n)
    (h : s.removeByPriority x budget groups = .ok (r, y)) :
    (∃ visits : List Visit, visits.map (·.group) <+: groups ∧ Visit.Lead visits x y ∧
        (∀ v ∈ visits, v.Made s) ∧ Visit.total visits = r ∧ (∀ v ∈ visits.dropLast, v.Full) ∧
        (r < n.toInt → visits.map (·.group) = groups ∧ ∀ v ∈ visits, v.Full)) ∧
      r ≤ n.toInt ∧ (Int64.ofNat r).toInt = r ∧
      ∀ countBind body, Effect.run (.removeByPriority budget groups countBind body) s x =
        (do
          let inner := countBind.elim s fun name => s.bind name (.int (Int64.ofNat r))
          let (z, _) ← Effect.runAll body (inner.enter "in") 0 y
          return (z, s.bindings)) := by
  have hremoved := h
  unfold removeByPriority at h
  rw [hbudget] at h
  by_cases hneg : n < 0
  · replace h := (if_pos hneg).symm.trans h
    cases h
  · replace h := (if_neg hneg).symm.trans h
    obtain ⟨⟨left, z⟩, hgroups, h⟩ := bind_eq_ok h
    cases h
    obtain ⟨visits, hprefix, hlead, hmade, hspent, -, hearlier, hall⟩ := removeGroups_visits hgroups
    have hnonneg : 0 ≤ n.toInt := by
      rw [Int64.lt_iff_toInt_lt] at hneg
      exact Int.not_lt.1 hneg
    have hlt := n.toInt_lt
    have htotal : Visit.total visits = n.toInt.toNat - left := by omega
    refine ⟨⟨visits, hprefix, hlead, hmade, htotal, hearlier, fun hr => hall ?_⟩, ?_, ?_, ?_⟩
    · omega
    · omega
    · exact Int64.toInt_ofNat_of_lt (by omega)
    · intro countBind body
      rw [Effect.run, hremoved]
      cases countBind <;> rfl

/-- An evacuation: who is on the coast goes to the camp, and who is in the camp goes on board. -/
def Definition.evacuation : Definition :=
  { Definition.minimal "evacuation" with
    zones := [{ id := "coast" }, { id := "camp" }, { id := "ship", order := .queue }]
    tokenTypes := [{ id := "family" }]
    setup := [.create "family" (.id "coast"), .create "family" (.id "coast"),
      .create "family" (.id "camp")] }

/-- Where it is carried out. -/
def Site.evacuation : Site where
  setting := { game := .ofDefinition .evacuation, actor := ⟨0⟩ }
  path := "harbour"
  bindings := ∅

/-- The families before. -/
def Session.evacuation : Session where
  state := (Site.evacuation.setting.game.start 1 0).toOption.getD default

/-- The coast first, then the camp. -/
def boarding : List PriorityGroup :=
  [⟨.tokens (.id "coast"), .id "camp"⟩, ⟨.tokens (.id "camp"), .id "ship"⟩]

/-- There are nine places for three families.  Those from the coast move twice, so five moves are
made, and both groups are visited. -/
theorem Site.removes_by_priority_evacuation :
    Expr.evalInt (.int 9) (Site.evacuation.view .evacuation) = .ok 9 ∧
      ∃ y, Site.evacuation.removeByPriority .evacuation (.int 9) boarding = .ok (5, y) ∧
        ∃ visits : List Visit, visits.map (·.group) = boarding ∧ Visit.Lead visits .evacuation y ∧
          Visit.total visits = 5 ∧ ∀ v ∈ visits, v.Full := by
  have hbudget : Expr.evalInt (.int 9) (Site.evacuation.view .evacuation) = .ok 9 := rfl
  obtain ⟨⟨r, y⟩, hy⟩ : ∃ p, Site.evacuation.removeByPriority .evacuation (.int 9) boarding =
      .ok p :=
    exists_ok_of_isOk (by decide +kernel)
  have hcount : (Site.evacuation.removeByPriority .evacuation (.int 9) boarding).toOption.map
    (·.1) =
      some 5 := by
    decide +kernel
  rw [hy] at hcount
  obtain rfl : r = 5 := Option.some.inj hcount
  obtain ⟨⟨visits, -, hlead, -, htotal, -, hall⟩, -⟩ := Site.removes_by_priority hbudget hy
  obtain ⟨hgroups, hfull⟩ := hall (by decide)
  exact ⟨hbudget, y, hy, visits, hgroups, hlead, htotal, hfull⟩

end Tabletop
