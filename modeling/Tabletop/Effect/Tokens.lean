import Tabletop.Board.Stacking
import Tabletop.Effect.Session

/-!
# Effects on tokens

Tokens move one at a time, to a place that the order of the destination gives a meaning, or as a
block that keeps its order.  A token that comes into a zone raises an event, after the limits on the
zone have been checked; one that stays in its zone raises none.

Main definitions: `Site.moveToken`, `Site.moveAll`, `Site.draw`, `Site.shuffle`, `Site.createToken`,
`Site.destroyToken`, `Site.setTokenProp` and `Site.removeGroups`.
-/

namespace Tabletop

/-- The scalar that stands for a value: a token reference counts as the string of its id. -/
def Value.toScalar (x : Value) (place : String) : Result Scalar :=
  orFault x.identity? (.mismatch "scalar" x.typeName (.named place))

/-- The place in a zone's list that a place in its order means.  The top of a queue is its back; any
other zone has its top in front. -/
def InsertAt.placement (place : InsertAt) (order : ZoneOrder) (size : Nat) (r : RandomState) :
    Placement × RandomState :=
  match place, order with
  | .top, .queue => (.back, r)
  | .top, _ => (.front, r)
  | .bottom, .queue => (.front, r)
  | .bottom, _ => (.back, r)
  | .random, _ =>
    let (index, r) := r.drawIndex (size + 1)
    (.index index, r)

namespace Site

/-- Finds a token that is in one place only. -/
def locate (s : Site) (x : Session) (id : TokenId) : Attempt (ZoneId × Nat) :=
  match x.state.store.locate id with
  | .found zone index => .ok (zone, index)
  | .missing => s.fail (.tokenMissing id)
  | .several count => s.fail (.tokenInSeveralPlaces id count)

/-- Finds a token in the zone where it is expected. -/
def locateIn (s : Site) (x : Session) (id : TokenId) (expected : ZoneId) : Attempt Nat := do
  let (zone, index) ← s.locate x id
  if zone = expected then return index else s.fail (.tokenElsewhere id zone expected)

/-- The session after a token has come into a zone from another. -/
def arrive (s : Site) (x : Session) (id : TokenId) (source target : ZoneId) : Session :=
  s.note (x.raise (.tokenEntered id (some source) target)) (.tokenMoved id source target)

/-- Moves the token at a place of one zone to another, or to another place of the same. -/
def relocate (s : Site) (x : Session) (id : TokenId) (source : ZoneId) (index : Nat)
    (target : ZoneId) (place : InsertAt) : Attempt Session := do
  match x.state.store.remove? source index with
  | none => s.fail (.tokenGone id source)
  | some (token, store) =>
    let (placement, random) :=
      place.placement (s.definition.orderOf target) (store.size target) x.state.random
    let store ← orFault (store.insert? target token placement) (.missing .zone target)
    let x := x.withState { x.state with store, random }
    if source = target then return x
    else
      checkStacking s.definition store target
      return s.arrive x id source target

/-- Moves a bound token. -/
def moveToken (s : Site) (x : Session) (token : String) (source target : ZoneRef)
    (place : InsertAt) : Attempt Session := do
  let id ← (s.view x).token token
  let source ← source.resolve (s.view x)
  let target ← target.resolve (s.view x)
  let index ← s.locateIn x id source
  s.relocate x id source index target place

/-- Moves a bound token to a neighbour of its zone. -/
def moveTokenAdjacent (s : Site) (x : Session) (token : String) (source target : ZoneRef)
    (place : InsertAt) : Attempt Session := do
  let id ← (s.view x).token token
  let source ← source.resolve (s.view x)
  let target ← target.resolve (s.view x)
  if s.setting.game.adjacency.adjacent source target then
    let index ← s.locateIn x id source
    s.relocate x id source index target place
  else s.fail (.notAdjacent target source)

/-- Moves a block of tokens, leaving `rest` behind.  The block comes on top and keeps its order. -/
def moveBlock (s : Site) (x : Session) (source target : ZoneId) (block rest : List Token) :
    Attempt Session := do
  if block.isEmpty then return x
  else
    let store := x.state.store.replace source rest
    let old ← orFault (store.tokens? target) (.missing .zone target)
    let tokens :=
      match s.definition.orderOf target with
      | .queue => old ++ block
      | _ => block ++ old
    let store := store.replace target tokens
    checkStacking s.definition store target
    return block.foldl (fun x t => s.arrive x t.id source target) (x.withStore store)

/-- Parts tokens into those that a filter keeps and the others.  All are tested in the state from
before the move. -/
def part (s : Site) (x : Session) (filter : Filter) :
    List Token → Result (List Token × List Token)
  | [] => .ok ([], [])
  | t :: ts => do
    let kept ← filter.keeps (s.view x) t.value
    let (block, rest) ← s.part x filter ts
    return if kept then (t :: block, rest) else (block, t :: rest)

/-- Moves the tokens of a zone that a filter keeps. -/
def moveAll (s : Site) (x : Session) (source target : ZoneRef) (filter : Filter) :
    Attempt Session := do
  let source ← source.resolve (s.view x)
  let target ← target.resolve (s.view x)
  if source = target then return x
  else
    let (block, rest) ← s.part x filter (x.state.store.tokens source)
    s.moveBlock x source target block rest

/-- Moves tokens from the front of a zone, as many as there are. -/
def draw (s : Site) (x : Session) (source target : ZoneRef) (count : Expr) : Attempt Session := do
  let count ← count.evalInt (s.view x)
  let source ← source.resolve (s.view x)
  let target ← target.resolve (s.view x)
  if count ≤ 0 ∨ source = target then return x
  else
    let tokens := x.state.store.tokens source
    let n := count.toInt.toNat
    s.moveBlock x source target (tokens.take n) (tokens.drop n)

/-- Shuffles the tokens of a zone.  Nothing happens with fewer than two. -/
def shuffle (s : Site) (x : Session) (zone : ZoneRef) : Result Session := do
  let zone ← zone.resolve (s.view x)
  let tokens := x.state.store.tokens zone
  if tokens.length ≤ 1 then return x
  else
    let (tokens, random) := x.state.random.shuffle tokens
    let store := x.state.store.replace zone tokens
    return s.note (x.withState { x.state with store, random }) (.zoneShuffled zone)

/-- The props of a new token: those of its type, with the given ones evaluated in their place. -/
def newProps (s : Site) (x : Session) (type : TokenType) :
    List (String × Expr) → Dict Scalar → Result (Dict Scalar)
  | [], props => .ok props
  | (name, value) :: rest, props =>
    if type.props.contains name then do
      let value ← value.eval (s.view x)
      let value ← value.toScalar name
      s.newProps x type rest (props.insert name value)
    else .error (.missing .tokenProp (type.id ++ "." ++ name))

/-- Puts a new token at the front of a zone. -/
def createToken (s : Site) (x : Session) (type : String) (zone : ZoneRef) (props : Dict Expr) :
    Result Session := do
  let type ← orFault (s.definition.tokenType? type) (.missing .tokenType type)
  let zone ← zone.resolve (s.view x)
  let props ← s.newProps x type props.entries type.props
  let id := TokenId.ofOrdinal type.id x.state.nextToken
  let store ← orFault (x.state.store.insert? zone { id, type := type.id, props } .front)
    (.missing .zone zone)
  checkStacking s.definition store zone
  let state := { x.state with store, nextToken := x.state.nextToken + 1 }
  return s.note ((x.withState state).raise (.tokenEntered id none zone)) (.tokenCreated id zone)

/-- Takes a bound token off the table. -/
def destroyToken (s : Site) (x : Session) (token : String) : Attempt Session := do
  let id ← (s.view x).token token
  let (zone, index) ← s.locate x id
  let x :=
    match x.state.store.remove? zone index with
    | some (_, store) => x.withStore store
    | none => x
  return s.note x (.tokenDestroyed id zone)

/-- Sets a prop of a bound token, if it is a new value. -/
def setTokenProp (s : Site) (x : Session) (token prop : String) (value : Expr) :
    Attempt Session := do
  let id ← (s.view x).token token
  let _ ← s.locate x id
  let value ← value.eval (s.view x)
  let new ← value.toScalar prop
  match x.state.store.token? id with
  | none => s.fail (.tokenMissing id)
  | some found =>
    let type ← orFault (s.definition.tokenType? found.type) (.missing .tokenType found.type)
    let initial ← orFault (type.props.get? prop)
      (.missing .tokenProp (found.type ++ "." ++ prop))
    let old := (found.props.get? prop).getD initial
    if old = new then return x
    else
      let store := x.state.store.modify id (fun t => { t with props := t.props.insert prop new })
      return s.note (x.withStore store) (.tokenPropChanged id prop old new)

/-! ## Removal by priority -/

/-- Moves tokens to the top of a zone as long as the budget lasts; tells what is left of it. -/
def removeItems (s : Site) (target : ZoneId) :
    List Value → Nat → Session → Attempt (Nat × Session)
  | _, 0, x => .ok (0, x)
  | [], budget, x => .ok (budget, x)
  | item :: items, budget + 1, x => do
    let id ← orFault item.str?
      (.mismatch "token" item.typeName (.named "removeByPriority group"))
    let (source, index) ← s.locate x id
    let x ← s.relocate x id source index target .top
    s.removeItems target items budget x

/-- Moves tokens out of one group after the other as long as the budget lasts; tells what is left of
it. -/
def removeGroups (s : Site) : List PriorityGroup → Nat → Session → Attempt (Nat × Session)
  | _, 0, x => .ok (0, x)
  | [], budget, x => .ok (budget, x)
  | g :: groups, budget + 1, x => do
    let items ← g.source.eval (s.view x)
    let target ← g.target.resolve (s.view x)
    let (budget, x) ← s.removeItems target items (budget + 1) x
    s.removeGroups groups budget x

end Site

end Tabletop
