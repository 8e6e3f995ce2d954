import Tabletop.Value

/-!
# Tokens in zones

Every declared zone holds a list of tokens, front first.  A token is meant to be in one zone only;
the store does not force that, so `locate` counts the places where it finds one.

Main definitions: `Store`, with `Store.insert?`, `Store.remove?` and `Store.locate`.
-/

namespace Tabletop

/-- A token. -/
structure Token where
  id : TokenId
  type : String
  props : Dict Scalar := ∅
  deriving DecidableEq, Inhabited

/-- The token as a value that refers to it. -/
def Token.value (t : Token) : Value := .token t.id

instance : Coded Token where
  toJson t := .obj [("id", toJson t.id), ("type", toJson t.type), ("props", toJson t.props)]
  ofJson? j := do
    let fs ← j.fields?
    return {
      id := ← fs.required "id"
      type := ← fs.required "type"
      props := ← fs.withDefault "props" ∅ }

/-- A place in the list of a zone. -/
inductive Placement where
  | front
  | back
  /-- Before the token that is there; the back if there are fewer tokens. -/
  | index (n : Nat)
  deriving DecidableEq, Repr, Inhabited

instance : Coded Placement where
  toJson
    | .front => .str "Front"
    | .back => .str "Back"
    | .index n => .variant "Index" (.int n)
  ofJson? j :=
    match j.variant? with
    | some ("Front", none) => some .front
    | some ("Back", none) => some .back
    | some ("Index", some x) =>
      (Json.count? x).map Placement.index
    | _ => none

/-- The list with an item put at a place. -/
def Placement.put {α : Type} (p : Placement) (x : α) (xs : List α) : List α :=
  match p with
  | .front => x :: xs
  | .back => xs ++ [x]
  | .index n => xs.take n ++ x :: xs.drop n

/-- Where a token was found. -/
inductive Location where
  | found (zone : ZoneId) (index : Nat)
  | missing
  | several (count : Nat)
  deriving DecidableEq, Repr, Inhabited

/-- The tokens of every zone. -/
structure Store where
  zones : Dict (List Token)
  deriving DecidableEq, Inhabited

namespace Store

/-- The store without zones. -/
def empty : Store := ⟨∅⟩

/-- Whether a zone is there. -/
def hasZone (s : Store) (zone : ZoneId) : Bool := s.zones.contains zone

/-- The tokens of a zone, front first. -/
def tokens? (s : Store) (zone : ZoneId) : Option (List Token) := s.zones.get? zone

/-- The tokens of a zone, none if it is not there. -/
def tokens (s : Store) (zone : ZoneId) : List Token := (s.tokens? zone).getD []

/-- The number of tokens in a zone. -/
def size (s : Store) (zone : ZoneId) : Nat := (s.tokens zone).length

/-- All tokens, zone by zone in the order of their ids. -/
def allTokens (s : Store) : List Token := s.zones.values.flatten

/-- Every place of a token. -/
def places (s : Store) (id : TokenId) : List (ZoneId × Nat) :=
  s.zones.entries.flatMap (fun e =>
    (e.2.zipIdx.filter (fun t => t.1.id == id)).map (fun t => (e.1, t.2)))

/-- Finds a token. -/
def locate (s : Store) (id : TokenId) : Location :=
  match s.places id with
  | [] => .missing
  | [(zone, index)] => .found zone index
  | places => .several places.length

/-- The first token of an id. -/
def token? (s : Store) (id : TokenId) : Option Token := s.allTokens.find? (·.id == id)

/-! ## Changes -/

/-- The store with the tokens of a zone replaced. -/
def replace (s : Store) (zone : ZoneId) (tokens : List Token) : Store :=
  ⟨s.zones.insert zone tokens⟩

/-- The store with a zone; its tokens stay if it was there before. -/
def addZone (s : Store) (zone : ZoneId) : Store :=
  if s.hasZone zone then s else s.replace zone []

/-- The store with a token put into a zone, if the zone is there. -/
def insert? (s : Store) (zone : ZoneId) (token : Token) (place : Placement) : Option Store :=
  (s.tokens? zone).map (fun tokens => s.replace zone (place.put token tokens))

/-- Takes the token at an index of a zone. -/
def remove? (s : Store) (zone : ZoneId) (index : Nat) : Option (Token × Store) := do
  let tokens ← s.tokens? zone
  let token ← tokens[index]?
  return (token, s.replace zone (tokens.eraseIdx index))

/-- Takes up to `count` tokens from the front of a zone. -/
def takeFront (s : Store) (zone : ZoneId) (count : Nat) : List Token × Store :=
  match s.tokens? zone with
  | some tokens => (tokens.take count, s.replace zone (tokens.drop count))
  | none => ([], s)

/-- Changes the first token of an id in a list. -/
def modifyFirst (id : TokenId) (f : Token → Token) : List Token → List Token
  | [] => []
  | t :: ts => if t.id == id then f t :: ts else t :: modifyFirst id f ts

/-- Changes the first token of an id. -/
def modify (s : Store) (id : TokenId) (f : Token → Token) : Store :=
  match s.zones.entries.find? (fun e => e.2.any (·.id == id)) with
  | some (zone, tokens) => s.replace zone (modifyFirst id f tokens)
  | none => s

end Store

instance : Coded Store where
  toJson s := .obj [("zones", toJson s.zones)]
  ofJson? j := do
    let fs ← j.fields?
    return { zones := ← fs.required "zones" }

end Tabletop
