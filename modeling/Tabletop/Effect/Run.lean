import Tabletop.Effect.Vars
import Tabletop.Effect.Tokens
import Tabletop.Effect.Choice
import Tabletop.Effect.Flow

/-!
# Running effects

Effects run one after the other.  Each costs one operation before anything else happens, those that
only hold others included.  What is bound inside a body is forgotten at its end; only a choice binds
for the effects that follow it in its list.

Main definitions: `Effect.run` and `Effect.runAll`, which call each other; `Session.run`, for a
whole list in a session; `runEffects`, for a list in a state of a game.
-/

namespace Tabletop

/-- How often a loop without a limit runs its body at most. -/
def usualLoopLimit : Nat := 100

namespace Site

/-- How often a loop may run its body. -/
def loopLimit (s : Site) (x : Session) (limit : Option Expr) : Attempt Nat := do
  match limit with
  | none => return usualLoopLimit
  | some e =>
    let n ← e.evalInt (s.view x)
    if n < 0 then s.fail (.negativeLoopLimit n) else return n.toInt.toNat

/-- Folds items, each bound together with what has been computed so far. -/
def foldItems (s : Site) (x : Session) (item acc : String) (next : Expr) :
    List Value → Value → Result Value
  | [], value => .ok value
  | i :: is, value => do
    let value ← next.eval (((s.bind item i).bind acc value).view x)
    s.foldItems x item acc next is value

/-- The result of a fold over a query. -/
def foldQuery (s : Site) (x : Session) (source : Query) (item acc : String) (initial next : Expr) :
    Result Value := do
  let items ← source.eval (s.view x)
  let value ← initial.eval (s.view x)
  s.foldItems x item acc next items value

/-- Draws an integer from a range that is not empty. -/
def roll (s : Site) (x : Session) (min max : Expr) : Attempt (Int64 × Session) := do
  let min ← min.evalInt (s.view x)
  let max ← max.evalInt (s.view x)
  if max < min then s.fail (.emptyRoll min max)
  else
    let (n, random) := x.state.random.drawInt min max
    return (n, x.withState { x.state with random })

/-- Removes tokens by priority; tells how many. -/
def removeByPriority (s : Site) (x : Session) (budget : Expr) (groups : List PriorityGroup) :
    Attempt (Nat × Session) := do
  let budget ← budget.evalInt (s.view x)
  if budget < 0 then s.fail (.negativeBudget budget)
  else
    let total := budget.toInt.toNat
    let (left, x) ← s.removeGroups groups total x
    return (total - left, x)

/-- The site of an item of a loop. -/
def each (s : Site) (bind : String) (item : Value) (k : Nat) : Site :=
  (s.bind bind item).enter ("each[" ++ toString k ++ "]")

/-- The site of an effect in a list. -/
def entry (s : Site) (i : Nat) (e : Effect) : Site := s.enter (toString i ++ ":" ++ e.kind)

end Site

/-- The outcome of an effect that binds nothing for those after it. -/
def keepBindings (s : Site) (outcome : Attempt Session) : Attempt (Session × Bindings) := do
  return (← outcome, s.bindings)

mutual

/-- Carries out an effect at its site; its own operation has been paid for. -/
def Effect.run (e : Effect) (s : Site) (x : Session) : Attempt (Session × Bindings) :=
  match e with
  | .setVar target name value => keepBindings s (s.setVar x target name value)
  | .addVar target name delta => keepBindings s (s.addVar x target name delta)
  | .moveToken token source target place => keepBindings s (s.moveToken x token source target place)
  | .moveAll source target filter => keepBindings s (s.moveAll x source target filter)
  | .moveTokenAdjacent token source target place =>
    keepBindings s (s.moveTokenAdjacent x token source target place)
  | .draw source target count => keepBindings s (s.draw x source target count)
  | .shuffle zone => keepBindings s (s.shuffle x zone)
  | .createToken type zone props => keepBindings s (s.createToken x type zone props)
  | .destroyToken token => keepBindings s (s.destroyToken x token)
  | .setTokenProp token prop value => keepBindings s (s.setTokenProp x token prop value)
  | .setMarker space marker state => keepBindings s (s.setMarker x space marker state)
  | .ifThenElse when yes no => do
    if ← when.eval (s.view x) then
      let (x, _) ← Effect.runAll yes (s.enter "then") 0 x
      return (x, s.bindings)
    else
      let (x, _) ← Effect.runAll no (s.enter "else") 0 x
      return (x, s.bindings)
  | .forEach bind source body limit => do
    let items ← source.eval (s.view x)
    let limit ← s.loopLimit x limit
    let x ← (items.take limit).zipIdx.foldlM
      (fun x (item, k) => do
        let (x, _) ← Effect.runAll body (s.each bind item k) 0 x
        return x) x
    return (x, s.bindings)
  | .letIn bind value body => do
    let value ← value.eval (s.view x)
    let (x, _) ← Effect.runAll body ((s.bind bind value).enter "in") 0 x
    return (x, s.bindings)
  | .reduce source item acc initial next result body => do
    let value ← s.foldQuery x source item acc initial next
    let (x, _) ← Effect.runAll body ((s.bind result value).enter "in") 0 x
    return (x, s.bindings)
  | .rollRandom bind min max body => do
    let (n, x) ← s.roll x min max
    let (x, _) ← Effect.runAll body ((s.bind bind (.int n)).enter "in") 0 x
    return (x, s.bindings)
  | .removeByPriority budget groups countBind body => do
    let (count, x) ← s.removeByPriority x budget groups
    let inner := match countBind with
      | some name => s.bind name (.int (Int64.ofNat count))
      | none => s
    let (x, _) ← Effect.runAll body (inner.enter "in") 0 x
    return (x, s.bindings)
  | .chooseOne bind options => do return (x, ← s.chooseOne x bind options)
  | .chooseN bind options cardinality => do return (x, ← s.chooseN x bind options cardinality)
  | .grantFreeOperation offer => keepBindings s (s.grantFreeOperation x offer)
  | .setEligibilityOverride seat eligible =>
    keepBindings s (s.setEligibilityOverride x seat eligible)
  | .pushInterruptPhase phase => keepBindings s (s.pushInterruptPhase x phase)

/-- Carries out effects one after the other, the first being number `i` of its list. -/
def Effect.runAll (es : List Effect) (s : Site) (i : Nat) (x : Session) :
    Attempt (Session × Bindings) :=
  match es with
  | [] => .ok (x, s.bindings)
  | e :: es => do
    let here := s.entry i e
    let x ← here.spend x
    let (x, bindings) ← e.run here x
    Effect.runAll es { s with bindings } (i + 1) x

end

/-- Goes on with a session by running effects with names in scope, their paths starting at
`root`. -/
def Session.run (x : Session) (setting : Setting) (root : String) (bindings : Bindings)
    (effects : List Effect) : Attempt Session := do
  let (x, _) ← Effect.runAll effects { setting, path := root, bindings } 0 x
  return x

/-- Runs effects on a state where no decision may be left open. -/
def runEffects (setting : Setting) (root : String) (bindings : Bindings) (effects : List Effect)
    (state : State) : Result Session :=
  (Session.run { state } setting root bindings effects).mapError Halt.toFault

end Tabletop
