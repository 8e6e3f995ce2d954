import Tabletop.Proofs.Expr.Faults
import Tabletop.Proofs.Expr.Firsts

/-!
# Evaluation over all integers

What an expression, a condition or a query comes to when integers have no bounds: a sum is the sum,
a product the product, a range has as many members as it has.  Evaluation goes through its steps in
the same order as with integers of 64 bits.  On the way it writes down every calculation that such
integers may not allow, and it does not stop there: a calculation is noted with its exact operands,
and its exact result is what later steps go on with.  Only what has nothing to do with arithmetic
ends it, such as a name that is not bound.

So the first calculation on the list that integers of 64 bits do not allow tells where an evaluation
with such integers must end, and if there is none, both come to the same.

Main definitions: `Reckoning`, what an evaluation comes to with the calculations on its way;
`Expr.reckon`, `Cond.reckon` and `Query.reckon`.
-/

namespace Tabletop

/-! ## Calculations -/

/-- A step of arithmetic. -/
inductive Calculation where
  /-- An addition, subtraction, multiplication or division. -/
  | arith (op : ArithOp) (left right : Int)
  /-- The integers between two, both included, are listed. -/
  | range (min max : Int)
  /-- The items of a list are counted. -/
  | count (n : Nat)
  deriving DecidableEq, Repr

namespace Calculation

/-- Whether integers of 64 bits do not allow a calculation: it divides by zero, its exact result is
out of their bounds, or it lists more members than a range may have. -/
def fails : Calculation → Bool
  | arith op l r =>
    (op = .div ∧ r = 0) ∨ op.exact l r < Int64.minValue.toInt ∨ Int64.maxValue.toInt < op.exact l r
  | range lo hi => maxRange < hi - lo + 1
  | count n => Int64.maxValue.toInt < n

/-- How a calculation is reported that is not allowed.  A count is never reported, since no list has
so many items; see `Reckoning.Counted`. -/
def fault : Calculation → ArithFault
  | arith op l r =>
    if op = .div ∧ r = 0 then .divisionByZero (Int64.ofInt l)
    else .overflow op (Int64.ofInt l) (Int64.ofInt r)
  | range lo hi => .rangeTooLong (Int64.ofInt lo) (Int64.ofInt hi) maxRange
  | count n => .overflow .add (Int64.ofNat n) 0

end Calculation

/-- A fault is not one of arithmetic. -/
def Fault.NotArithmetic (fault : Fault) : Prop := ∀ cause, fault ≠ .arithmetic cause

/-- The calculations of an evaluation, in order, and its outcome over all integers. -/
structure Reckoning (α : Type) where
  steps : List Calculation
  outcome : Except { fault : Fault // fault.NotArithmetic } α

namespace Reckoning

variable {α β : Type}

/-- One reckoning after the other, if the first one comes to its end. -/
protected def bind (c : Reckoning α) (f : α → Reckoning β) : Reckoning β :=
  match c.outcome with
  | .ok x => ⟨c.steps ++ (f x).steps, (f x).outcome⟩
  | .error fault => ⟨c.steps, .error fault⟩

instance : Monad Reckoning where
  pure x := ⟨[], .ok x⟩
  bind := Reckoning.bind

/-- What does no arithmetic and cannot fail by it. -/
def given (r : Result α) (h : Fails Fault.NotArithmetic r) : Reckoning α where
  steps := []
  outcome := match r, h with
    | .ok x, _ => .ok x
    | .error fault, h => .error ⟨fault, h⟩

/-- What an option holds, or else a fault. -/
def need (x : Option α) (fault : Fault) (h : fault.NotArithmetic) : Reckoning α :=
  given (orFault x fault) (orFault_fails h x)

/-- What a calculation comes to. -/
def noted (step : Calculation) (x : α) : Reckoning α := ⟨[step], .ok x⟩

/-- The exact result of an operator.  The smaller and the greater of two integers are at hand. -/
def arith (op : ArithOp) (l r : Int) : Reckoning Int :=
  match op with
  | .min => pure (op.exact l r)
  | .max => pure (op.exact l r)
  | op => noted (.arith op l r) (op.exact l r)

/-- The number of items of a list. -/
def count (n : Nat) : Reckoning Int := noted (.count n) n

/-- The items that a test keeps, tested in order. -/
def keep (test : α → Reckoning Bool) : List α → Reckoning (List α)
  | [] => pure []
  | x :: xs => do
    let kept ← test x
    let rest ← keep test xs
    return if kept then x :: rest else rest

/-- The first calculation that integers of 64 bits do not allow. -/
def failure? (c : Reckoning α) : Option Calculation := c.steps.find? Calculation.fails

/-- The outcome with integers of 64 bits: that over all integers, unless some calculation is not
allowed before. -/
def checked (c : Reckoning α) : Result α :=
  match c.failure? with
  | some step => .error (.arithmetic step.fault)
  | none => c.outcome.mapError Subtype.val

/-- No list is counted whose length is no integer of 64 bits, at least not before another
calculation is not allowed.  No list that fits in a memory has so many items. -/
def Counted (c : Reckoning α) : Prop := ∀ n, c.failure? ≠ some (.count n)

end Reckoning

/-! ## Values -/

/-- What evaluation over all integers yields.  Arrays are only looked up, so their members have 64
bits. -/
inductive Wide where
  | bool (b : Bool)
  | int (n : Int)
  | str (s : String)
  | array (xs : List Scalar)
  | token (id : TokenId)
  deriving DecidableEq, Repr

namespace Wide

/-- A scalar among the values, with its integer unbounded. -/
def ofScalar : Scalar → Wide
  | .bool b => bool b
  | .int n => int n.toInt
  | .str s => str s

/-- The integer, if the value is one. -/
def int? : Wide → Option Int
  | int n => some n
  | _ => none

/-- The string, or the id of a token reference. -/
def str? : Wide → Option String
  | str s => some s
  | token id => some id
  | _ => none

/-- What two values must share to be the same member of a set; an array has none. -/
def identity? : Wide → Option Wide
  | array _ => none
  | token id => some (str id)
  | other => some other

/-- Whether two values have the same identity; arrays are compared as they are. -/
def same (a b : Wide) : Bool :=
  match a.identity?, b.identity? with
  | some x, some y => x == y
  | _, _ => a == b

/-- The key that a value is in a table.  An integer of more than 64 bits is in none. -/
def key? : Wide → Option Scalar
  | bool b => some (.bool b)
  | int n => (fit? n).map Scalar.int
  | str s => some (.str s)
  | token id => some (.str id)
  | array _ => none

/-- The name of a value's type. -/
def typeName : Wide → String
  | bool _ => "bool"
  | int _ => "int"
  | str _ => "string"
  | array _ => "array"
  | token _ => "token"

/-- The truth of a value. -/
def truth : Wide → Reckoning Bool
  | bool b => pure b
  | int n => pure (n ≠ 0)
  | other => .need none (.mismatch "bool" other.typeName (.named "truthy")) nofun

end Wide

/-- The value among all integers. -/
def Value.widen : Value → Wide
  | .scalar x => .ofScalar x
  | .array xs => .array xs
  | .token id => .token id

/-- What an expression can see when integers have no bounds. -/
structure WideView where
  game : Game
  state : State
  /-- Names and their values, the innermost binding first. -/
  names : List (String × Wide)
  actor : Seat

/-- The view with its values among all integers. -/
def View.widen (v : View) : WideView where
  game := v.game
  state := v.state
  names := v.bindings.entries.map (fun e => (e.1, e.2.widen))
  actor := v.actor

namespace WideView

/-- The definition of the game. -/
def definition (w : WideView) : Definition := w.game.definition

/-- The view with a name bound. -/
def bind (w : WideView) (name : String) (x : Wide) : WideView :=
  { w with names := (name, x) :: w.names }

/-- The value of a name. -/
def lookup (w : WideView) (name : String) : Reckoning Wide :=
  .need (w.names.lookup name) (.unbound name) nofun

/-- The id of the token bound to a name. -/
def token (w : WideView) (name : String) : Reckoning TokenId := do
  match ← w.lookup name with
  | .token id => return id
  | .str id => return id
  | other => .need none (.mismatch "token" other.typeName (.named name)) nofun

end WideView

/-- The seat that a reference means. -/
def SeatRef.reckon (r : SeatRef) (w : WideView) : Reckoning Seat :=
  match r with
  | .active => pure w.state.active
  | .actor => pure w.actor
  | .id seat =>
    .need (if seat.toNat < w.state.seatCount then some seat else none) (.missing .seat seat.text)
      nofun
  | .binding name => do
    let x ← w.lookup name
    let index ← .need x.int? (.mismatch "int" x.typeName (.named name)) nofun
    .need (Seat.ofIndex? index w.state.seatCount) (.missing .seat (toString index)) nofun

/-- The id of the zone that a reference means. -/
def ZoneRef.reckonId (r : ZoneRef) (w : WideView) : Reckoning ZoneId :=
  match r with
  | .id zone => pure zone
  | .binding name => do
    let x ← w.lookup name
    .need x.str? (.mismatch "zone id" x.typeName (.named name)) nofun
  | .owned base owner => do return ZoneId.owned base (some (← owner.reckon w))

/-- The zone that a reference means, which must be there. -/
def ZoneRef.reckon (r : ZoneRef) (w : WideView) : Reckoning ZoneId := do
  let zone ← r.reckonId w
  .need (if w.state.store.hasZone zone then some zone else none) (.missing .zone zone) nofun

/-! ## Operators -/

/-- Compares two values. -/
def CompareOp.reckon (op : CompareOp) (l r : Wide) : Reckoning Bool :=
  let operand (x : Wide) : Reckoning Int :=
    .need x.int? (.mismatch "int" x.typeName (.named op.text)) nofun
  match op with
  | .eq => pure (l.same r)
  | .ne => pure (!l.same r)
  | .lt => do return (← operand l) < (← operand r)
  | .le => do return (← operand l) ≤ (← operand r)
  | .gt => do return (← operand l) > (← operand r)
  | .ge => do return (← operand l) ≥ (← operand r)

/-- Folds in one more integer; the first is taken as it is. -/
def AggregateOp.reckon (op : AggregateOp) (acc : Option Int) (n : Int) : Reckoning Int :=
  match acc with
  | none => pure n
  | some a =>
    match op with
    | .count => pure a
    | .sum => .arith .add a n
    | .min => .arith .min a n
    | .max => .arith .max a n

/-- The integers from one to another, both included. -/
def Reckoning.range (lo hi : Int) : Reckoning (List Wide) :=
  .noted (.range lo hi) ((List.range (hi - lo + 1).toNat).map (fun i : Nat => Wide.int (lo + i)))

/-- The integer that an item must be that is folded as it is. -/
def Wide.itemInt (x : Wide) : Reckoning Int :=
  .need x.int? (.mismatch "int" x.typeName (.named "aggregate item")) nofun

/-- The integer that an expression must have yielded. -/
def Expr.wideInt (e : Expr) (x : Wide) : Reckoning Int :=
  .need x.int? (.mismatch "int" x.typeName (.expression e)) nofun

/-! ## Looking up -/

/-- A marker that cannot be read is no fault of arithmetic. -/
theorem State.marker_notArithmetic (s : State) (d : Definition) (space : ZoneId) (name : String) :
    Fails Fault.NotArithmetic (s.marker d space name) := by
  unfold State.marker
  cases s.markers.get? space >>= fun m => m.get? name with
  | some state => trivial
  | none =>
    cases d.marker? name with
    | none => exact nofun
    | some lattice => trivial

/-- A row that cannot be found is no fault of arithmetic. -/
theorem TableIndex.row_notArithmetic (t : TableIndex) (d : Definition) (table : String)
    (key : Scalar) :
    Fails Fault.NotArithmetic (t.row d table key) := by
  refine (orFault_fails nofun _).bind (fun rows _ => ?_)
  refine (orFault_fails nofun _).bind (fun position _ => ?_)
  exact orFault_fails nofun _

/-! ## Trees -/

mutual

/-- The value of a reference over all integers. -/
def Ref.reckon (r : Ref) (w : WideView) : Reckoning Wide :=
  match r with
  | .binding name => w.lookup name
  | .globalVar name => do
    return .int (← Reckoning.need (w.state.globalVar? name) (.missing .globalVar name) nofun).toInt
  | .seatVar seat name => do
    let seat ← seat.reckon w
    return .int (← Reckoning.need (w.state.seatVar? seat name) (.missing .seatVar name) nofun).toInt
  | .zoneVar zone name => do
    let zone ← zone.reckon w
    return .int (← Reckoning.need (w.state.zoneVar? zone name)
      (.missing .zoneVar (zone ++ "." ++ name)) nofun).toInt
  | .tokenProp token prop => do
    let id ← w.token token
    let token ← .need (w.state.store.token? id) (.effect (.tokenMissing id) "eval") nofun
    return .ofScalar (← .need (token.props.get? prop)
      (.missing .tokenProp (token.type ++ "." ++ prop)) nofun)
  | .constant name => do
    return .int (← Reckoning.need (w.definition.constants.get? name) (.missing .constant name)
      nofun).toInt
  | .activeSeat => pure (.int w.state.active.toNat)
  | .actor => pure (.int w.actor.toNat)
  | .turnCount => pure (.int w.state.turn.toNat)
  | .currentPhase => pure (.str w.state.phase)
  | .tokenCount zone => do
    let zone ← zone.reckon w
    return .int (← Reckoning.count (w.state.store.size zone))
  | .marker space name => do
    let space ← space.reckon w
    return .str (← .given (w.state.marker w.definition space name) (State.marker_notArithmetic ..))
  | .tableEntry table key field => do
    let x ← key.reckon w
    let key ← .need x.key? (.mismatch "scalar" x.typeName (.named "table key")) nofun
    let row ← .given (w.game.tables.row w.definition table key) (TableIndex.row_notArithmetic ..)
    return .ofScalar (← .need (row.get? field)
      (.missing .tableRow (TableIndex.rowText table key ++ "." ++ field)) nofun)

/-- The value of an expression over all integers. -/
def Expr.reckon (e : Expr) (w : WideView) : Reckoning Wide :=
  match e with
  | .int n => pure (.int n.toInt)
  | .bool b => pure (.bool b)
  | .str s => pure (.str s)
  | .ref r => r.reckon w
  | .arith op left right => do
    let l ← left.wideInt (← left.reckon w)
    let r ← right.wideInt (← right.reckon w)
    return .int (← Reckoning.arith op l r)
  | .aggregate op query bind value => do
    let items := firstsBy Wide.identity? (← query.reckon w)
    match op with
    | .count => return .int (← Reckoning.count items.length)
    | _ =>
      let total ← items.foldlM (fun (acc : Option Int) item => do
        let n ← match value with
          | some e => do e.wideInt (← e.reckon (w.bind bind item))
          | none => item.itemInt
        return some (← op.reckon acc n)) none
      return .int (total.getD 0)
  | .ifThenElse when yes no => do
    if ← when.reckon w then yes.reckon w else no.reckon w

/-- Whether a condition holds over all integers. -/
def Cond.reckon (c : Cond) (w : WideView) : Reckoning Bool :=
  match c with
  | .const b => pure b
  | .and parts => Cond.reckonAll parts w
  | .or parts => Cond.reckonAny parts w
  | .not part => do return !(← part.reckon w)
  | .compare op left right => do
    let l ← left.reckon w
    let r ← right.reckon w
    op.reckon l r
  | .mem item set => do
    let x ← item.reckon w
    let members := firstsBy Wide.identity? (← set.reckon w)
    return members.any (fun y => y.same x)
  | .adjacent source target => do
    let source ← source.reckon w
    let target ← target.reckon w
    return w.game.adjacency.adjacent source target
  | .tokenInZone token zone => do
    let id ← w.token token
    let zone ← zone.reckon w
    return (w.state.store.tokens zone).any (·.id == id)
  | .truthy value => do (← value.reckon w).truth

/-- Whether all of several conditions hold; the first that does not settles it. -/
def Cond.reckonAll (cs : List Cond) (w : WideView) : Reckoning Bool :=
  match cs with
  | [] => pure true
  | c :: cs => do if ← c.reckon w then Cond.reckonAll cs w else return false

/-- Whether any of several conditions holds; the first that does settles it. -/
def Cond.reckonAny (cs : List Cond) (w : WideView) : Reckoning Bool :=
  match cs with
  | [] => pure false
  | c :: cs => do if ← c.reckon w then return true else Cond.reckonAny cs w

/-- Whether a filter keeps an item over all integers. -/
def Filter.reckon (f : Filter) (w : WideView) (item : Wide) : Reckoning Bool :=
  match f with
  | .all => pure true
  | .satisfying bind condition => condition.reckon (w.bind bind item)

/-- The items of a query over all integers, repetitions included. -/
def Query.reckon (q : Query) (w : WideView) : Reckoning (List Wide) :=
  match q with
  | .tokensInZone zone filter => do
    let zone ← zone.reckon w
    .keep (fun item => filter.reckon w item)
      ((w.state.store.tokens zone).map (fun t => .token t.id))
  | .zones category filter =>
    let zones := w.definition.zones.filter (fun z => category.isNone || z.category == category)
    .keep (fun item => filter.reckon w item) (zones.map (fun z => .str z.id))
  | .adjacentZones zone filter => do
    let zone ← zone.reckon w
    .keep (fun item => filter.reckon w item) ((w.game.adjacency.neighbours zone).map Wide.str)
  | .intRange min max => do
    let lo ← min.wideInt (← min.reckon w)
    let hi ← max.wideInt (← max.reckon w)
    .range lo hi
  | .enums names => pure (names.map Wide.str)
  | .seats => pure ((Seat.all w.state.seatCount).map (fun s => .int s.toNat))
  | .binding name => do
    match ← w.lookup name with
    | .array xs => return xs.map Wide.ofScalar
    | other => return [other]
  | .tableColumn table field => do
    let t ← .need (w.definition.table? table) (.missing .table table) nofun
    return t.rows.filterMap (fun row => (row.get? field).map Wide.ofScalar)
  | .concat parts => Query.reckonAll parts w

/-- The items of several queries, one after the other. -/
def Query.reckonAll (qs : List Query) (w : WideView) : Reckoning (List Wide) :=
  match qs with
  | [] => pure []
  | q :: qs => do
    let xs ← q.reckon w
    let ys ← Query.reckonAll qs w
    return xs ++ ys

end

end Tabletop
