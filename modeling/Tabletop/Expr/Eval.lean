import Tabletop.Expr.View

/-!
# Evaluation

Values of expressions, truth of conditions, results of queries.  Evaluation only looks: it changes
nothing, and on the same view it always gives the same answer.

Integers have 64 bits and never wrap: a step whose exact result does not fit is a fault.  The
members of a query's result are distinct by identity, in the order in which they first come up.

Main definitions: `Expr.eval`, `Cond.eval` and `Query.collect`, which call each other, and
`Query.eval`.
-/

namespace Tabletop

/-! ## Arithmetic -/

/-- The integer as one of 64 bits, if it is one. -/
def fit? (n : Int) : Option Int64 :=
  if Int64.minValue.toInt ≤ n ∧ n ≤ Int64.maxValue.toInt then some (Int64.ofInt n) else none

namespace ArithOp

/-- The exact result of an operator; division goes toward zero. -/
def exact (op : ArithOp) (l r : Int) : Int :=
  match op with
  | .add => l + r
  | .sub => l - r
  | .mul => l * r
  | .div => l.tdiv r
  | .min => Min.min l r
  | .max => Max.max l r

/-- The result of an operator, if there is one and it fits. -/
def apply (op : ArithOp) (l r : Int64) : Result Int64 :=
  if op = .div ∧ r = 0 then .error (.arithmetic (.divisionByZero l))
  else orFault (fit? (op.exact l.toInt r.toInt)) (.arithmetic (.overflow op l r))

end ArithOp

/-- Folds in one more integer; the first is taken as it is. -/
def AggregateOp.step (op : AggregateOp) (acc : Option Int64) (n : Int64) : Result Int64 :=
  match acc with
  | none => .ok n
  | some a =>
    match op with
    | .count => .ok a
    | .sum => ArithOp.add.apply a n
    | .min => ArithOp.min.apply a n
    | .max => ArithOp.max.apply a n

/-- The longest range of integers that a query may yield. -/
def maxRange : Nat := 10000

/-- The integers from one to another, both included. -/
def intRange (lo hi : Int64) : Result (List Value) :=
  let size := hi.toInt - lo.toInt + 1
  if size ≤ 0 then .ok []
  else if maxRange < size then .error (.arithmetic (.rangeTooLong lo hi maxRange))
  else .ok ((List.range size.toNat).map (fun i => .int (Int64.ofInt (lo.toInt + Int.ofNat i))))

/-! ## Comparison -/

/-- The integer of an operand of a comparison. -/
def CompareOp.operand (op : CompareOp) (x : Value) : Result Int64 :=
  orFault x.int? (.mismatch "int" x.typeName (.named op.text))

/-- Compares two values: by identity for equality, as integers for order. -/
def CompareOp.apply (op : CompareOp) (l r : Value) : Result Bool :=
  match op with
  | .eq => .ok (l.same r)
  | .ne => .ok (!l.same r)
  | .lt => do return (← op.operand l) < (← op.operand r)
  | .le => do return (← op.operand l) ≤ (← op.operand r)
  | .gt => do return (← op.operand l) > (← op.operand r)
  | .ge => do return (← op.operand l) ≥ (← op.operand r)

/-! ## Sets -/

/-- The values whose identity has not come up before; a value without identity is always kept. -/
def Value.distinctFrom (seen : List Scalar) : List Value → List Value
  | [] => []
  | x :: xs =>
    match x.identity? with
    | some key =>
      if seen.contains key then distinctFrom seen xs else x :: distinctFrom (key :: seen) xs
    | none => x :: distinctFrom seen xs

/-- The first values of each identity. -/
def Value.distinct (xs : List Value) : List Value := distinctFrom [] xs

/-- Whether a value has the identity of a member. -/
def Value.isIn (x : Value) (xs : List Value) : Bool := xs.any (fun y => y.same x)

/-- The items that a test keeps, tested in order. -/
def keepM {α : Type} (test : α → Result Bool) : List α → Result (List α)
  | [] => .ok []
  | x :: xs => do
    let kept ← test x
    let rest ← keepM test xs
    return if kept then x :: rest else rest

/-! ## Trees -/

/-- The integer that an expression must have yielded. -/
def Expr.expectInt (e : Expr) (x : Value) : Result Int64 :=
  orFault x.int? (.mismatch "int" x.typeName (.expression e))

/-- The truth of a value. -/
def Value.truth : Value → Result Bool
  | .scalar (.bool b) => .ok b
  | .scalar (.int n) => .ok (n ≠ 0)
  | other => .error (.mismatch "bool" other.typeName (.named "truthy"))

mutual

/-- The value of a reference. -/
def Ref.eval (r : Ref) (v : View) : Result Value :=
  match r with
  | .binding name => v.lookup name
  | .globalVar name => do
    return .int (← orFault (v.state.globalVar? name) (.missing .globalVar name))
  | .seatVar seat name => do
    let seat ← seat.resolve v
    return .int (← orFault (v.state.seatVar? seat name) (.missing .seatVar name))
  | .zoneVar zone name => do
    let zone ← zone.resolve v
    return .int (← orFault (v.state.zoneVar? zone name) (.missing .zoneVar (zone ++ "." ++ name)))
  | .tokenProp token prop => do
    let id ← v.token token
    let token ← orFault (v.state.store.token? id) (.effect (.tokenMissing id) "eval")
    return .scalar (← orFault (token.props.get? prop)
      (.missing .tokenProp (token.type ++ "." ++ prop)))
  | .constant name => do
    return .int (← orFault (v.definition.constants.get? name) (.missing .constant name))
  | .activeSeat => .ok (.seat v.state.active)
  | .actor => .ok (.seat v.actor)
  | .turnCount => .ok (.int (Int64.ofNat v.state.turn.toNat))
  | .currentPhase => .ok (.str v.state.phase)
  | .tokenCount zone => do
    let zone ← zone.resolve v
    return .int (Int64.ofNat (v.state.store.size zone))
  | .marker space name => do
    let space ← space.resolve v
    return .str (← v.state.marker v.definition space name)
  | .tableEntry table key field => do
    let x ← key.eval v
    let key ← orFault x.identity? (.mismatch "scalar" x.typeName (.named "table key"))
    let row ← v.game.tables.row v.definition table key
    return .scalar (← orFault (row.get? field)
      (.missing .tableRow (TableIndex.rowText table key ++ "." ++ field)))

/-- The value of an expression. -/
def Expr.eval (e : Expr) (v : View) : Result Value :=
  match e with
  | .int n => .ok (.int n)
  | .bool b => .ok (.bool b)
  | .str s => .ok (.str s)
  | .ref r => r.eval v
  | .arith op left right => do
    let l ← left.expectInt (← left.eval v)
    let r ← right.expectInt (← right.eval v)
    return .int (← op.apply l r)
  | .aggregate op query bind value => do
    let items := Value.distinct (← query.collect v)
    match op with
    | .count => return .int (Int64.ofNat items.length)
    | _ =>
      let total ← items.foldlM (fun (acc : Option Int64) item => do
        let n ← match value with
          | some e => do e.expectInt (← e.eval (v.bind bind item))
          | none => orFault item.int? (.mismatch "int" item.typeName (.named "aggregate item"))
        return some (← op.step acc n)) none
      return .int (total.getD 0)
  | .ifThenElse when yes no => do
    if ← when.eval v then yes.eval v else no.eval v

/-- Whether a condition holds. -/
def Cond.eval (c : Cond) (v : View) : Result Bool :=
  match c with
  | .const b => .ok b
  | .and parts => Cond.evalAll parts v
  | .or parts => Cond.evalAny parts v
  | .not part => do return !(← part.eval v)
  | .compare op left right => do
    let l ← left.eval v
    let r ← right.eval v
    op.apply l r
  | .mem item set => do
    let x ← item.eval v
    let members := Value.distinct (← set.collect v)
    return x.isIn members
  | .adjacent source target => do
    let source ← source.resolve v
    let target ← target.resolve v
    return v.game.adjacency.adjacent source target
  | .tokenInZone token zone => do
    let id ← v.token token
    let zone ← zone.resolve v
    return (v.state.store.tokens zone).any (·.id == id)
  | .truthy value => do (← value.eval v).truth

/-- Whether all of several conditions hold; the first that does not settles it. -/
def Cond.evalAll (cs : List Cond) (v : View) : Result Bool :=
  match cs with
  | [] => .ok true
  | c :: cs => do if ← c.eval v then Cond.evalAll cs v else return false

/-- Whether any of several conditions holds; the first that does settles it. -/
def Cond.evalAny (cs : List Cond) (v : View) : Result Bool :=
  match cs with
  | [] => .ok false
  | c :: cs => do if ← c.eval v then return true else Cond.evalAny cs v

/-- Whether a filter keeps an item. -/
def Filter.keeps (f : Filter) (v : View) (item : Value) : Result Bool :=
  match f with
  | .all => .ok true
  | .satisfying bind condition => condition.eval (v.bind bind item)

/-- The items of a query in the order in which they come up, repetitions included. -/
def Query.collect (q : Query) (v : View) : Result (List Value) :=
  match q with
  | .tokensInZone zone filter => do
    let zone ← zone.resolve v
    keepM (fun item => filter.keeps v item) ((v.state.store.tokens zone).map Token.value)
  | .zones category filter =>
    let zones := v.definition.zones.filter (fun z => category.isNone || z.category == category)
    keepM (fun item => filter.keeps v item) (zones.map (fun z => Value.str z.id))
  | .adjacentZones zone filter => do
    let zone ← zone.resolve v
    keepM (fun item => filter.keeps v item) ((v.game.adjacency.neighbours zone).map Value.str)
  | .intRange min max => do
    let lo ← min.expectInt (← min.eval v)
    let hi ← max.expectInt (← max.eval v)
    intRange lo hi
  | .enums names => .ok (names.map Value.str)
  | .seats => .ok ((Seat.all v.state.seatCount).map Value.seat)
  | .binding name => do
    match ← v.lookup name with
    | .array xs => return xs.map Value.scalar
    | other => return [other]
  | .tableColumn table field => do
    let t ← orFault (v.definition.table? table) (.missing .table table)
    return t.rows.filterMap (fun row => (row.get? field).map Value.scalar)
  | .concat parts => Query.collectAll parts v

/-- The items of several queries, one after the other. -/
def Query.collectAll (qs : List Query) (v : View) : Result (List Value) :=
  match qs with
  | [] => .ok []
  | q :: qs => do
    let xs ← q.collect v
    let ys ← Query.collectAll qs v
    return xs ++ ys

end

/-- The integer that an expression yields. -/
def Expr.evalInt (e : Expr) (v : View) : Result Int64 := do e.expectInt (← e.eval v)

/-- Whether a condition that need not be there holds; a fault in it is reported under a name. -/
def holdsIn (name : Predicate) (condition : Option Cond) (v : View) : Result Bool :=
  match condition with
  | none => .ok true
  | some c => inPredicate name (c.eval v)

/-- The result of a query: its items, each identity once. -/
def Query.eval (q : Query) (v : View) : Result (List Value) := do
  return Value.distinct (← q.collect v)

end Tabletop
