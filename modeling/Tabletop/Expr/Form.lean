import Tabletop.Expr.Basic

/-!
# The JSON form of expressions, conditions and queries

Each alternative is written under its name.  Reading recurses on how deeply the form nests; every
tree that a form holds is one level further in, so the depth of the form is always enough.

Main definitions: `Expr.write`, `Cond.write` and `Query.write`; `Expr.read`, `Cond.read` and
`Query.read`.
-/

namespace Tabletop

open Json

/-! ## References and operators -/

instance : Coded SeatRef where
  toJson
    | .active => .str "active"
    | .actor => .str "actor"
    | .id seat => .variant "id" (toJson seat)
    | .binding name => .variant "binding" (toJson name)
  ofJson? j :=
    match j.variant? with
    | some ("active", none) => some .active
    | some ("actor", none) => some .actor
    | some ("id", some x) => (ofJson? x).map SeatRef.id
    | some ("binding", some x) => (ofJson? x).map SeatRef.binding
    | _ => none

instance : Coded ZoneRef where
  toJson
    | .id zone => .variant "id" (toJson zone)
    | .binding name => .variant "binding" (toJson name)
    | .owned base owner => .variant "owned" (.obj [("base", toJson base), ("owner", toJson owner)])
  ofJson? j :=
    match j.variant? with
    | some ("id", some x) => (ofJson? x).map ZoneRef.id
    | some ("binding", some x) => (ofJson? x).map ZoneRef.binding
    | some ("owned", some x) => do
      let fs ← x.fields?
      return .owned (← fs.required "base") (← fs.required "owner")
    | _ => none

instance : Coded ArithOp where
  toJson
    | .add => .str "add"
    | .sub => .str "sub"
    | .mul => .str "mul"
    | .div => .str "div"
    | .min => .str "min"
    | .max => .str "max"
  ofJson?
    | .str "add" => some .add
    | .str "sub" => some .sub
    | .str "mul" => some .mul
    | .str "div" => some .div
    | .str "min" => some .min
    | .str "max" => some .max
    | _ => none

instance : Coded AggregateOp where
  toJson
    | .count => .str "count"
    | .sum => .str "sum"
    | .min => .str "min"
    | .max => .str "max"
  ofJson?
    | .str "count" => some .count
    | .str "sum" => some .sum
    | .str "min" => some .min
    | .str "max" => some .max
    | _ => none

instance : Coded CompareOp where
  toJson
    | .eq => .str "=="
    | .ne => .str "!="
    | .lt => .str "<"
    | .le => .str "<="
    | .gt => .str ">"
    | .ge => .str ">="
  ofJson?
    | .str "==" => some .eq
    | .str "!=" => some .ne
    | .str "<" => some .lt
    | .str "<=" => some .le
    | .str ">" => some .gt
    | .str ">=" => some .ge
    | _ => none

/-! ## Writing trees -/

mutual

/-- The form of a reference. -/
def Ref.write : Ref → Json
  | .binding name => .variant "binding" (.str name)
  | .globalVar name => .variant "globalVar" (.str name)
  | .seatVar seat name => .variant "playerVar" (.obj [("player", toJson seat), ("var", .str name)])
  | .zoneVar zone name => .variant "zoneVar" (.obj [("zone", toJson zone), ("var", .str name)])
  | .tokenProp token prop =>
    .variant "tokenProp" (.obj [("token", .str token), ("prop", .str prop)])
  | .constant name => .variant "constant" (.str name)
  | .activeSeat => .str "activePlayer"
  | .actor => .str "actor"
  | .turnCount => .str "turnCount"
  | .currentPhase => .str "currentPhase"
  | .tokenCount zone => .variant "zoneTokenCount" (toJson zone)
  | .marker space name =>
    .variant "marker" (.obj [("space", toJson space), ("marker", .str name)])
  | .tableEntry table key field =>
    .variant "tableLookup"
      (.obj [("table", .str table), ("key", key.write), ("field", .str field)])

/-- The form of an expression. -/
def Expr.write : Expr → Json
  | .int n => .variant "int" (toJson n)
  | .bool b => .variant "bool" (.bool b)
  | .str s => .variant "str" (.str s)
  | .ref r => .variant "ref" r.write
  | .arith op left right =>
    .variant "arith" (.obj [("op", toJson op), ("left", left.write), ("right", right.write)])
  | .aggregate op query bind value =>
    .variant "aggregate"
      (.obj [("op", toJson op), ("query", query.write), ("bind", .str bind),
        ("value", match value with
          | some e => e.write
          | none => .null)])
  | .ifThenElse when yes no =>
    .variant "ifThenElse"
      (.obj [("when", when.write), ("then", yes.write), ("otherwise", no.write)])

/-- The form of a condition. -/
def Cond.write : Cond → Json
  | .const b => .variant "const" (.bool b)
  | .and parts => .variant "and" (.arr (Cond.writeAll parts))
  | .or parts => .variant "or" (.arr (Cond.writeAll parts))
  | .not part => .variant "not" part.write
  | .compare op left right =>
    .variant "compare" (.obj [("op", toJson op), ("left", left.write), ("right", right.write)])
  | .mem item set => .variant "in" (.obj [("item", item.write), ("set", set.write)])
  | .adjacent source target =>
    .variant "adjacent" (.obj [("from", toJson source), ("to", toJson target)])
  | .tokenInZone token zone =>
    .variant "tokenInZone" (.obj [("token", .str token), ("zone", toJson zone)])
  | .truthy value => .variant "truthy" value.write

/-- The forms of several conditions. -/
def Cond.writeAll : List Cond → List Json
  | [] => []
  | c :: cs => c.write :: Cond.writeAll cs

/-- The form of a filter. -/
def Filter.write : Filter → Json
  | .all => .null
  | .satisfying bind condition =>
    .obj [("bind", .str bind), ("condition", condition.write)]

/-- The form of a query. -/
def Query.write : Query → Json
  | .tokensInZone zone filter =>
    .variant "tokensInZone" (.obj [("zone", toJson zone), ("filter", filter.write)])
  | .zones category filter =>
    .variant "zones" (.obj [("category", toJson category), ("filter", filter.write)])
  | .adjacentZones zone filter =>
    .variant "adjacentZones" (.obj [("zone", toJson zone), ("filter", filter.write)])
  | .intRange min max => .variant "intRange" (.obj [("min", min.write), ("max", max.write)])
  | .enums names => .variant "enums" (toJson names)
  | .seats => .str "players"
  | .binding name => .variant "binding" (.str name)
  | .tableColumn table field =>
    .variant "tableColumn" (.obj [("table", .str table), ("field", .str field)])
  | .concat parts => .variant "concat" (.arr (Query.writeAll parts))

/-- The forms of several queries. -/
def Query.writeAll : List Query → List Json
  | [] => []
  | q :: qs => q.write :: Query.writeAll qs

end

/-! ## Reading trees -/

mutual

/-- Reads a reference whose form nests at most as deep as the first argument says. -/
def Ref.read : Nat → Json → Option Ref
  | 0, _ => none
  | n + 1, j =>
    match j.variant? with
    | some ("activePlayer", none) => some .activeSeat
    | some ("actor", none) => some .actor
    | some ("turnCount", none) => some .turnCount
    | some ("currentPhase", none) => some .currentPhase
    | some ("binding", some x) => (ofJson? x).map Ref.binding
    | some ("globalVar", some x) => (ofJson? x).map Ref.globalVar
    | some ("constant", some x) => (ofJson? x).map Ref.constant
    | some ("zoneTokenCount", some x) => (ofJson? x).map Ref.tokenCount
    | some ("playerVar", some x) => do
      let fs ← x.fields?
      return .seatVar (← fs.required "player") (← fs.required "var")
    | some ("zoneVar", some x) => do
      let fs ← x.fields?
      return .zoneVar (← fs.required "zone") (← fs.required "var")
    | some ("tokenProp", some x) => do
      let fs ← x.fields?
      return .tokenProp (← fs.required "token") (← fs.required "prop")
    | some ("marker", some x) => do
      let fs ← x.fields?
      return .marker (← fs.required "space") (← fs.required "marker")
    | some ("tableLookup", some x) => do
      let fs ← x.fields?
      return .tableEntry (← fs.required "table") (← fs.requiredBy (Expr.read n) "key")
        (← fs.required "field")
    | _ => none

/-- Reads an expression whose form nests at most as deep as the first argument says. -/
def Expr.read : Nat → Json → Option Expr
  | 0, _ => none
  | n + 1, j =>
    match j.variant? with
    | some ("int", some x) => (ofJson? x).map Expr.int
    | some ("bool", some x) => (ofJson? x).map Expr.bool
    | some ("str", some x) => (ofJson? x).map Expr.str
    | some ("ref", some x) => (Ref.read n x).map Expr.ref
    | some ("arith", some x) => do
      let fs ← x.fields?
      return .arith (← fs.required "op") (← fs.requiredBy (Expr.read n) "left")
        (← fs.requiredBy (Expr.read n) "right")
    | some ("aggregate", some x) => do
      let fs ← x.fields?
      return .aggregate (← fs.required "op") (← fs.requiredBy (Query.read n) "query")
        (← fs.required "bind") (← fs.withDefaultBy (optionBy (Expr.read n)) "value" none)
    | some ("ifThenElse", some x) => do
      let fs ← x.fields?
      return .ifThenElse (← fs.requiredBy (Cond.read n) "when")
        (← fs.requiredBy (Expr.read n) "then") (← fs.requiredBy (Expr.read n) "otherwise")
    | _ => none

/-- Reads a condition whose form nests at most as deep as the first argument says. -/
def Cond.read : Nat → Json → Option Cond
  | 0, _ => none
  | n + 1, j =>
    match j.variant? with
    | some ("const", some x) => (ofJson? x).map Cond.const
    | some ("and", some x) => (listBy (Cond.read n) x).map Cond.and
    | some ("or", some x) => (listBy (Cond.read n) x).map Cond.or
    | some ("not", some x) => (Cond.read n x).map Cond.not
    | some ("truthy", some x) => (Expr.read n x).map Cond.truthy
    | some ("compare", some x) => do
      let fs ← x.fields?
      return .compare (← fs.required "op") (← fs.requiredBy (Expr.read n) "left")
        (← fs.requiredBy (Expr.read n) "right")
    | some ("in", some x) => do
      let fs ← x.fields?
      return .mem (← fs.requiredBy (Expr.read n) "item") (← fs.requiredBy (Query.read n) "set")
    | some ("adjacent", some x) => do
      let fs ← x.fields?
      return .adjacent (← fs.required "from") (← fs.required "to")
    | some ("tokenInZone", some x) => do
      let fs ← x.fields?
      return .tokenInZone (← fs.required "token") (← fs.required "zone")
    | _ => none

/-- Reads a filter whose form nests at most as deep as the first argument says. -/
def Filter.read : Nat → Json → Option Filter
  | 0, _ => none
  | n + 1, j =>
    match j with
    | .null => some .all
    | j => do
      let fs ← j.fields?
      return .satisfying (← fs.required "bind") (← fs.requiredBy (Cond.read n) "condition")

/-- Reads a query whose form nests at most as deep as the first argument says. -/
def Query.read : Nat → Json → Option Query
  | 0, _ => none
  | n + 1, j =>
    match j.variant? with
    | some ("players", none) => some .seats
    | some ("enums", some x) => (ofJson? x).map Query.enums
    | some ("binding", some x) => (ofJson? x).map Query.binding
    | some ("concat", some x) => (listBy (Query.read n) x).map Query.concat
    | some ("tokensInZone", some x) => do
      let fs ← x.fields?
      return .tokensInZone (← fs.required "zone")
        (← fs.withDefaultBy (Filter.read n) "filter" .all)
    | some ("zones", some x) => do
      let fs ← x.fields?
      return .zones (← fs.withDefault "category" none)
        (← fs.withDefaultBy (Filter.read n) "filter" .all)
    | some ("adjacentZones", some x) => do
      let fs ← x.fields?
      return .adjacentZones (← fs.required "zone")
        (← fs.withDefaultBy (Filter.read n) "filter" .all)
    | some ("intRange", some x) => do
      let fs ← x.fields?
      return .intRange (← fs.requiredBy (Expr.read n) "min")
        (← fs.requiredBy (Expr.read n) "max")
    | some ("tableColumn", some x) => do
      let fs ← x.fields?
      return .tableColumn (← fs.required "table") (← fs.required "field")
    | _ => none

end

instance : Coded Expr := ⟨Expr.write, fun j => Expr.read j.depth j⟩
instance : Coded Cond := ⟨Cond.write, fun j => Cond.read j.depth j⟩
instance : Coded Filter := ⟨Filter.write, fun j => Filter.read j.depth j⟩
instance : Coded Query := ⟨Query.write, fun j => Query.read j.depth j⟩

end Tabletop
