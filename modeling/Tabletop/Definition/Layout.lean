import Tabletop.Value

/-!
# The layout of a table

What a definition declares about the things on the table: its zones, the types of tokens, the map,
the markers that lie on spaces, data tables, and limits on how many tokens a zone may hold.

Main definitions: `Zone`, `TokenType`, `StackingLimit`, `Lattice` and `DataTable`.
-/

namespace Tabletop

/-- Which end of a zone is its top. -/
inductive ZoneOrder where
  /-- The top is the front. -/
  | stack
  /-- The top is the back; draws still take from the front. -/
  | queue
  /-- The order carries no meaning; the top is the front. -/
  | set
  deriving DecidableEq, Repr, Inhabited

instance : Coded ZoneOrder where
  toJson
    | .stack => .str "stack"
    | .queue => .str "queue"
    | .set => .str "set"
  ofJson?
    | .str "stack" => some .stack
    | .str "queue" => some .queue
    | .str "set" => some .set
    | _ => none

/-- The declaration of a zone. -/
structure Zone where
  id : ZoneId
  /-- The owner, where the id does not tell it. -/
  declaredOwner : Option Seat := none
  order : ZoneOrder := .stack
  adjacentTo : List ZoneId := []
  category : Option String := none
  attributes : Dict Scalar := ∅
  deriving Inhabited

/-- The owning seat: the declared one, or the one in the id. -/
def Zone.owner? (z : Zone) : Option Seat := z.declaredOwner.or (ZoneId.owner? z.id)

instance : Coded Zone where
  toJson z := .obj
    [("id", toJson z.id), ("owner", toJson z.declaredOwner), ("ordering", toJson z.order),
      ("adjacent_to", toJson z.adjacentTo), ("category", toJson z.category),
      ("attributes", toJson z.attributes)]
  ofJson? j := do
    let fs ← j.fields?
    return {
      id := ← fs.required "id"
      declaredOwner := ← fs.withDefault "owner" none
      order := ← fs.withDefault "ordering" .stack
      adjacentTo := ← fs.withDefault "adjacent_to" []
      category := ← fs.withDefault "category" none
      attributes := ← fs.withDefault "attributes" ∅ }

/-- A type of tokens, with the props its tokens start with. -/
structure TokenType where
  id : String
  props : Dict Scalar := ∅
  deriving Inhabited

instance : Coded TokenType where
  toJson t := .obj [("id", toJson t.id), ("props", toJson t.props)]
  ofJson? j := do
    let fs ← j.fields?
    return { id := ← fs.required "id", props := ← fs.withDefault "props" ∅ }

/-- A limit on how many tokens a zone may hold. -/
structure StackingLimit where
  id : String
  /-- The governed zones; none listed governs all. -/
  zones : List ZoneId := []
  /-- The category that a governed zone must have. -/
  zoneCategory : Option String := none
  /-- The counted types; none listed counts all. -/
  tokenTypes : List String := []
  max : UInt32
  deriving DecidableEq, Repr, Inhabited

/-- Whether tokens of a type count against the limit. -/
def StackingLimit.counts (limit : StackingLimit) (type : String) : Bool :=
  limit.tokenTypes.isEmpty || limit.tokenTypes.contains type

instance : Coded StackingLimit where
  toJson s := .obj
    [("id", toJson s.id), ("zones", toJson s.zones), ("zone_category", toJson s.zoneCategory),
      ("token_types", toJson s.tokenTypes), ("max", toJson s.max)]
  ofJson? j := do
    let fs ← j.fields?
    return {
      id := ← fs.required "id"
      zones := ← fs.withDefault "zones" []
      zoneCategory := ← fs.withDefault "zone_category" none
      tokenTypes := ← fs.withDefault "token_types" []
      max := ← fs.required "max" }

/-- A space of the map. -/
structure MapSpace where
  id : ZoneId
  adjacentTo : List ZoneId := []
  attributes : Dict Scalar := ∅
  deriving Inhabited

instance : Coded MapSpace where
  toJson s := .obj
    [("id", toJson s.id), ("adjacent_to", toJson s.adjacentTo),
      ("attributes", toJson s.attributes)]
  ofJson? j := do
    let fs ← j.fields?
    return {
      id := ← fs.required "id"
      adjacentTo := ← fs.withDefault "adjacent_to" []
      attributes := ← fs.withDefault "attributes" ∅ }

/-- A map of spaces. -/
structure GameMap where
  spaces : List MapSpace
  deriving Inhabited

instance : Coded GameMap where
  toJson m := .obj [("spaces", toJson m.spaces)]
  ofJson? j := do
    let fs ← j.fields?
    return { spaces := ← fs.required "spaces" }

/-- The states that a kind of marker can be in on a space. -/
structure Lattice where
  id : String
  states : List String
  default : String
  deriving DecidableEq, Repr, Inhabited

/-- Whether a state is one of the marker's. -/
def Lattice.has (l : Lattice) (state : String) : Bool := l.states.contains state

instance : Coded Lattice where
  toJson l := .obj
    [("id", toJson l.id), ("states", toJson l.states), ("default", toJson l.default)]
  ofJson? j := do
    let fs ← j.fields?
    return {
      id := ← fs.required "id"
      states := ← fs.required "states"
      default := ← fs.required "default" }

/-- A row of a data table, by field. -/
abbrev Row := Dict Scalar

/-- A data table whose rows are found by their key field. -/
structure DataTable where
  id : String
  key : String
  rows : List Row := []
  deriving Inhabited

instance : Coded DataTable where
  toJson t := .obj [("id", toJson t.id), ("key", toJson t.key), ("rows", toJson t.rows)]
  ofJson? j := do
    let fs ← j.fields?
    return {
      id := ← fs.required "id"
      key := ← fs.required "key"
      rows := ← fs.withDefault "rows" [] }

end Tabletop
