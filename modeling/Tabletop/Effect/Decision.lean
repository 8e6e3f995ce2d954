import Tabletop.Value

/-!
# Decisions

A decision is what a partial move has not settled yet: the name under which a selection is missing,
what may be selected, and how many.

Main definition: `Decision`.
-/

namespace Tabletop

open Json

/-- Whether one option is asked for or several. -/
inductive DecisionKind where
  | chooseOne
  | chooseN
  deriving DecidableEq, Repr, Inhabited

instance : Coded DecisionKind where
  toJson
    | .chooseOne => .str "chooseOne"
    | .chooseN => .str "chooseN"
  ofJson?
    | .str "chooseOne" => some .chooseOne
    | .str "chooseN" => some .chooseN
    | _ => none

/-- An open question. -/
structure Decision where
  /-- Where the question comes up. -/
  id : String
  /-- The param under which the move has to answer it. -/
  name : String
  kind : DecisionKind
  domain : List Value
  min : Nat
  max : Nat
  deriving DecidableEq, Repr, Inhabited

namespace Decision

/-- The question for one of several values. -/
def one (id name : String) (domain : List Value) : Decision :=
  { id, name, kind := .chooseOne, domain, min := 1, max := 1 }

end Decision

instance : Coded Decision where
  toJson d := .obj
    [("decision_id", toJson d.id), ("name", toJson d.name), ("kind", toJson d.kind),
      ("domain", toJson d.domain), ("min", .int d.min), ("max", .int d.max)]
  ofJson? j := do
    let fs ← j.fields?
    return {
      id := ← fs.required "decision_id"
      name := ← fs.required "name"
      kind := ← fs.required "kind"
      domain := ← fs.required "domain"
      min := ← fs.requiredBy count? "min"
      max := ← fs.requiredBy count? "max" }

end Tabletop
