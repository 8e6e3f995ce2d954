import Tabletop.Proofs.Play.Compound
import Tabletop.Proofs.TurnOrder.Coverage

/-!
# While grants are pending

While grants are pending nothing is to go on but free operations and passing.  This is asked of the
host of a move and of nothing else: what a pass carries along is an action of its own, which pays
its cost and runs its effects in turn like any other, and no grant is asked for.

Main statement: `Rules.breachesWindow_iff`, with a foray that breaches it.
-/

namespace Tabletop

namespace Rules

variable {r : Rules} {s : State} {m : Move} {x : Resolution} {host : Plan}
  {special : Option (Accompaniment Plan)}

/-- A resolved move does what may be done while grants are pending: it is a free operation that a
pending grant authorises, or all that it carries out is passing. -/
def KeepsToWindow (r : Rules) (s : State) (m : Move) (x : Resolution) : Prop :=
  (m.free = true ∧ ∃ grant : Grant, x.grant = some grant.id ∧ grant.Authorises r s m) ∨
    ∀ host special, r.CarriesOut s m x host special →
      r.definition.isPass host.action.id = true ∧
        ∀ c, special = some c → r.definition.isPass c.special.action.id = true

/-- The host is planned for the action of the move. -/
theorem CarriesOut.host_id (h : r.CarriesOut s m x host special) : host.action.id = m.action := by
  obtain ⟨a, ha, hhost⟩ := h.hostPlanned
  have hfor : host.For m a false := (Plan.make_asks r.game s m a m.free false).of_ok hhost
  rw [hfor.action]
  simpa using List.find?_some ha

/-- A special activity is planned only if the move carries one, and then for the action that it
names. -/
theorem CarriesOut.special_id (h : r.CarriesOut s m x host special) {c : Accompaniment Plan}
    (hc : special = some c) :
    ∃ c', m.compound = some c' ∧ c.special.action.id = c'.special.action := by
  obtain ⟨c', hc', -, -⟩ := planCompound_eq_ok h.specialPlanned hc
  obtain ⟨a, plan, ha, hplan, hspecial, -⟩ := h.special_runs hc'
  have hfor : plan.For c'.special a true :=
    (Plan.make_asks r.game s c'.special a m.free true).of_ok hplan
  obtain rfl := Option.some.inj (hc.symm.trans hspecial)
  refine ⟨c', hc', ?_⟩
  rw [hfor.action]
  simpa using List.find?_some ha

/-- Whatever a move carries along is carried out as a whole. -/
theorem exists_special_runs (h : r.resolve s m = .ok x) {c : Accompaniment Move}
    (hc : m.compound = some c) :
    ∃ plan : Plan, r.definition.action? c.special.action = some plan.action ∧
      plan.RunsBetween r { state := s } x.session := by
  obtain ⟨host, special, hcarries⟩ := exists_carriesOut h
  obtain ⟨a, plan, ha, hplan, -, hruns⟩ := hcarries.special_runs hc
  have hfor : plan.For c.special a true :=
    (Plan.make_asks r.game s c.special a m.free true).of_ok hplan
  refine ⟨plan, ?_, hruns⟩
  rw [hfor.action]
  exact ha

/-- While grants are pending, a move that can be made does what it may not exactly if it is a pass
in turn that carries along an action other than passing.  Whatever a move carries along is carried
out as a whole. -/
theorem breachesWindow_iff (hwindow : s.order.inGrantWindow = true) (h : r.resolve s m = .ok x) :
    (¬ r.KeepsToWindow s m x ↔ m.free = false ∧ r.definition.isPass m.action = true ∧
      ∃ c, m.compound = some c ∧ r.definition.isPass c.special.action = false) ∧
      ∀ c, m.compound = some c → ∃ plan : Plan,
        r.definition.action? c.special.action = some plan.action ∧
          plan.RunsBetween r { state := s } x.session := by
  refine ⟨⟨fun hbreaches => ?_, ?_⟩, fun c hc => exists_special_runs h hc⟩
  · cases hfree : m.free with
    | true =>
      -- A free operation has been authorised before it was planned.
      exact absurd (.inl ⟨hfree, authorised_of_resolve h hfree⟩) hbreaches
    | false =>
      have hpass := (inTurn_of_resolve h hfree).2 hwindow
      refine ⟨rfl, hpass, ?_⟩
      by_contra hnone
      apply hbreaches
      right
      intro host special hcarries
      refine ⟨?_, fun c hc => ?_⟩
      · rw [hcarries.host_id]
        exact hpass
      · obtain ⟨c', hc', hid⟩ := hcarries.special_id hc
        rw [hid]
        by_contra hother
        exact hnone ⟨c', hc', Bool.eq_false_iff.2 hother⟩
  · rintro ⟨hfree, -, c, hc, hother⟩ (⟨hfree', -⟩ | hpasses)
    · rw [hfree] at hfree'
      cases hfree'
    · obtain ⟨host, special, hcarries⟩ := exists_carriesOut h
      obtain ⟨a, plan, -, -, hspecial, -⟩ := hcarries.special_runs hc
      obtain ⟨c', hc', hid⟩ := hcarries.special_id hspecial
      obtain rfl : c = c' := Option.some.inj (hc.symm.trans hc')
      have hpass := (hpasses host special hcarries).2 _ hspecial
      rw [hid, hother] at hpass
      cases hpass

end Rules

/-! ## A foray -/

/-- A game whose first seat is granted a free operation to begin with.  A raid has its price. -/
def Definition.foray : Definition :=
  { Definition.minimal "foray" with
    globalVars := [.ofInt "price" 0 0 9, .ofInt "spoils" 0 0 9]
    order := .cardDriven { seats := [⟨0⟩, ⟨1⟩], passAction := some "pass" }
    setup := [.grantFreeOperation { seat := .id ⟨0⟩ }]
    actions := [
      { id := "pass" },
      { id := "raid", cost := [.setGlobal "price" (.int 1)]
        effects := [.setGlobal "spoils" (.int 1)] }] }

/-- The rules of that game, under the usual limits. -/
def Rules.foray : Rules := { game := .ofDefinition .foray }

/-- Where two seats start that game. -/
def State.foray : State := (Rules.foray.game.start 2 0).toOption.getD default

/-- A pass with a raid that comes first. -/
def Move.foray : Move := (Move.named "pass").accompaniedBy (.named "raid") .before none

/-- A raid in turn cannot be made on its own while the grant is pending, but along with a pass it
can. -/
theorem Rules.breachesWindow_foray :
    State.foray.order.inGrantWindow = true ∧
      (Rules.foray.resolve .foray (.named "raid")).isOk = false ∧
      ∃ x, Rules.foray.resolve .foray .foray = .ok x ∧
        ¬ Rules.foray.KeepsToWindow .foray .foray x ∧
        x.session.state.globalVar? "price" = some 1 ∧
        x.session.state.globalVar? "spoils" = some 1 := by
  have hwindow : State.foray.order.inGrantWindow = true := by decide +kernel
  obtain ⟨x, hx⟩ : ∃ x, Rules.foray.resolve .foray .foray = .ok x :=
    exists_ok_of_isOk (by decide +kernel)
  have hspoils : (Rules.foray.resolve .foray .foray).toOption.map (fun x =>
      (x.session.state.globalVar? "price", x.session.state.globalVar? "spoils")) =
        some (some 1, some 1) := by decide +kernel
  rw [hx] at hspoils
  obtain ⟨hprice, hspoils⟩ := Prod.mk.inj (Option.some.inj hspoils)
  have hbreaches : ¬ Rules.foray.KeepsToWindow .foray .foray x := by
    rw [(Rules.breachesWindow_iff hwindow hx).1]
    exact ⟨rfl, by decide, _, rfl, by decide⟩
  exact ⟨hwindow, by decide +kernel, x, hx, hbreaches, hprice, hspoils⟩

end Tabletop
