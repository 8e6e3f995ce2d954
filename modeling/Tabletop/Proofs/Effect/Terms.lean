import Tabletop.Proofs.Effect.Alteration

/-!
# The terms of a run

A run is on terms: how a decision without a fitting selection is treated, and how many operations
may be spent.  Only choices look at the first, and only the payment for an effect at the second.  An
effect that neither asks nor holds others is plain: it comes to the same on all terms.

Main statements: `Effect.Plain.run_onTerms` and `Effect.Plain.run_settled`.
-/

namespace Tabletop

/-- The setting on other terms. -/
def Setting.onTerms (s : Setting) (mode : DecisionMode) (n : UInt32) : Setting :=
  { s with mode, maxOps := n }

namespace Site

/-- The site on other terms. -/
def onTerms (s : Site) (mode : DecisionMode) (n : UInt32) : Site :=
  { s with setting := s.setting.onTerms mode n }

variable (s : Site) (mode : DecisionMode) (n : UInt32) (x : Session)

/-! ## What comes to the same -/

/-- Other terms leave the bindings. -/
theorem bindings_onTerms : (s.onTerms mode n).bindings = s.bindings := rfl

/-- Parting tokens by a filter is the same on all terms. -/
theorem part_onTerms (filter : Filter) :
    ∀ ts, (s.onTerms mode n).part x filter ts = s.part x filter ts
  | [] => rfl
  | t :: ts => by
    rw [part, part, part_onTerms filter ts]
    rfl

/-- The props of a new token are the same on all terms. -/
theorem newProps_onTerms (type : TokenType) :
    ∀ es props, (s.onTerms mode n).newProps x type es props = s.newProps x type es props
  | [], _ => rfl
  | (name, value) :: es, props => by
    simp only [newProps, newProps_onTerms type es]
    rfl

/-- Folding over items is the same on all terms. -/
theorem foldItems_onTerms (item acc : String) (next : Expr) :
    ∀ items value, (s.onTerms mode n).foldItems x item acc next items value =
      s.foldItems x item acc next items value
  | [], _ => rfl
  | i :: is, value => by
    simp only [foldItems, foldItems_onTerms item acc next is]
    rfl

/-- Removing items one by one is the same on all terms. -/
theorem removeItems_onTerms (target : ZoneId) :
    ∀ items budget x, (s.onTerms mode n).removeItems target items budget x =
      s.removeItems target items budget x
  | _, 0, _ => by simp only [removeItems]
  | [], _ + 1, _ => rfl
  | item :: items, budget + 1, x => by
    simp only [removeItems, removeItems_onTerms target items]
    rfl

/-- Removing from groups in turn is the same on all terms. -/
theorem removeGroups_onTerms :
    ∀ groups budget x,
      (s.onTerms mode n).removeGroups groups budget x = s.removeGroups groups budget x
  | _, 0, _ => by simp only [removeGroups]
  | [], _ + 1, _ => rfl
  | g :: groups, budget + 1, x => by
    simp only [removeGroups, removeGroups_onTerms groups, removeItems_onTerms]
    rfl

/-- Moving all tokens that a filter keeps is the same on all terms. -/
theorem moveAll_onTerms (source target : ZoneRef) (filter : Filter) :
    (s.onTerms mode n).moveAll x source target filter = s.moveAll x source target filter := by
  simp only [moveAll, part_onTerms]
  rfl

/-- Creating a token is the same on all terms. -/
theorem createToken_onTerms (type : String) (zone : ZoneRef) (props : Dict Expr) :
    (s.onTerms mode n).createToken x type zone props = s.createToken x type zone props := by
  simp only [createToken, newProps_onTerms]
  rfl

/-- Folding over a query is the same on all terms. -/
theorem foldQuery_onTerms (source : Query) (item acc : String) (initial next : Expr) :
    (s.onTerms mode n).foldQuery x source item acc initial next =
      s.foldQuery x source item acc initial next := by
  simp only [foldQuery, foldItems_onTerms]
  rfl

/-- Removing by priority is the same on all terms. -/
theorem removeByPriority_onTerms (budget : Expr) (groups : List PriorityGroup) :
    (s.onTerms mode n).removeByPriority x budget groups = s.removeByPriority x budget groups := by
  simp only [removeByPriority, removeGroups_onTerms]
  rfl

end Site

/-! ## Plain effects -/

namespace Effect

/-- An effect that neither asks nor holds others. -/
def Plain : Effect → Prop
  | ifThenElse .. | forEach .. | letIn .. | reduce .. | rollRandom .. | removeByPriority .. => False
  | chooseOne .. | chooseN .. => False
  | _ => True

variable {e : Effect} (s : Site) (x : Session)

/-- A plain effect comes to the same on all terms. -/
theorem Plain.run_onTerms (h : e.Plain) (mode : DecisionMode) (n : UInt32) :
    e.run (s.onTerms mode n) x = e.run s x := by
  cases e with
  | moveAll source target filter =>
    simp only [run, s.moveAll_onTerms]
    rfl
  | createToken type zone props =>
    simp only [run, s.createToken_onTerms]
    rfl
  | ifThenElse _ _ _ | forEach _ _ _ _ | letIn _ _ _ | reduce _ _ _ _ _ _ _ | rollRandom _ _ _ _
  | removeByPriority _ _ _ _ | chooseOne _ _ | chooseN _ _ _ => exact h.elim
  | _ => rfl

/-- A plain effect asks for nothing, and only alters the session. -/
theorem Plain.run_settled (h : e.Plain) :
    Settled (fun y : Session × Bindings => Altered s.setting x y.1 ∧ y.2 = s.bindings)
      (e.run s x) := by
  have keep {a : Attempt Session} (ha : Settled (Altered s.setting x) a) :
      Settled (fun y : Session × Bindings => Altered s.setting x y.1 ∧ y.2 = s.bindings)
        (keepBindings s a) := ha.bind (fun _ hy => .pure ⟨hy, rfl⟩)
  cases e with
  | setVar target name value => exact keep (.lift (fun _ => s.setVar_altered x))
  | addVar target name delta => exact keep (.lift (fun _ => s.addVar_altered x))
  | moveToken token source target place =>
    exact keep (s.moveToken_altered x token source target place)
  | moveAll source target filter => exact keep (s.moveAll_altered x source target filter)
  | moveTokenAdjacent token source target place =>
    exact keep (s.moveTokenAdjacent_altered x token source target place)
  | draw source target count => exact keep (s.draw_altered x source target count)
  | shuffle zone => exact keep (.lift (fun _ => s.shuffle_altered x))
  | createToken type zone props => exact keep (.lift (fun _ => s.createToken_altered x))
  | destroyToken token => exact keep (s.destroyToken_altered x token)
  | setTokenProp token prop value => exact keep (s.setTokenProp_altered x token prop value)
  | setMarker space marker state => exact keep (s.setMarker_altered x space marker state)
  | grantFreeOperation offer => exact keep (s.grantFreeOperation_altered x offer)
  | setEligibilityOverride seat eligible =>
    exact keep (s.setEligibilityOverride_altered x seat eligible)
  | pushInterruptPhase phase => exact keep (s.pushInterruptPhase_altered x phase)
  | ifThenElse _ _ _ | forEach _ _ _ _ | letIn _ _ _ | reduce _ _ _ _ _ _ _ | rollRandom _ _ _ _
  | removeByPriority _ _ _ _ | chooseOne _ _ | chooseN _ _ _ => exact h.elim

end Effect

end Tabletop
