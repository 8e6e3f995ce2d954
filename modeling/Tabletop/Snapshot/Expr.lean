import Tabletop.Snapshot.Basic
import Tabletop.Expr.Basic

/-!
# Reading expressions, conditions and queries from bytes

Every tree begins with the four bytes of its alternative, so the number of bytes left bounds how
deep the trees in them nest.

Main definitions: `Ref.restore`, `Expr.restore`, `Cond.restore`, `Filter.restore` and
`Query.restore`.
-/

namespace Tabletop

open Snapshot

instance : Restorable Seat where
  restore bs := (restore bs).map (fun r => (Seat.mk r.1, r.2))

instance : Restorable Scalar where
  restore bs := do
    let (n, bs) ← decodeChoice bs
    match n with
    | 0 => do let (b, bs) ← restore bs; return (.bool b, bs)
    | 1 => do let (i, bs) ← restore bs; return (.int i, bs)
    | 2 => do let (s, bs) ← restore bs; return (.str s, bs)
    | _ => none

instance : Restorable SeatRef where
  restore bs := do
    let (n, bs) ← decodeChoice bs
    match n with
    | 0 => return (.active, bs)
    | 1 => return (.actor, bs)
    | 2 => do let (seat, bs) ← restore bs; return (.id seat, bs)
    | 3 => do let (name, bs) ← restore bs; return (.binding name, bs)
    | _ => none

instance : Restorable ZoneRef where
  restore bs := do
    let (n, bs) ← decodeChoice bs
    match n with
    | 0 => do let (zone, bs) ← restore bs; return (.id zone, bs)
    | 1 => do let (name, bs) ← restore bs; return (.binding name, bs)
    | 2 => do
      let (base, bs) ← restore bs
      let (owner, bs) ← restore bs
      return (.owned base owner, bs)
    | _ => none

instance : Restorable ArithOp where
  restore bs := do
    let (n, bs) ← decodeChoice bs
    match n with
    | 0 => return (.add, bs)
    | 1 => return (.sub, bs)
    | 2 => return (.mul, bs)
    | 3 => return (.div, bs)
    | 4 => return (.min, bs)
    | 5 => return (.max, bs)
    | _ => none

instance : Restorable AggregateOp where
  restore bs := do
    let (n, bs) ← decodeChoice bs
    match n with
    | 0 => return (.count, bs)
    | 1 => return (.sum, bs)
    | 2 => return (.min, bs)
    | 3 => return (.max, bs)
    | _ => none

instance : Restorable CompareOp where
  restore bs := do
    let (n, bs) ← decodeChoice bs
    match n with
    | 0 => return (.eq, bs)
    | 1 => return (.ne, bs)
    | 2 => return (.lt, bs)
    | 3 => return (.le, bs)
    | 4 => return (.gt, bs)
    | 5 => return (.ge, bs)
    | _ => none

mutual

/-- Reads a reference that nests at most as deep as the first argument says. -/
def Ref.restore : Nat → Reader Ref
  | 0, _ => none
  | k + 1, bs => do
    let (n, bs) ← decodeChoice bs
    match n with
    | 0 => do let (name, bs) ← Restorable.restore bs; return (.binding name, bs)
    | 1 => do let (name, bs) ← Restorable.restore bs; return (.globalVar name, bs)
    | 2 => do
      let (seat, bs) ← Restorable.restore bs
      let (name, bs) ← Restorable.restore bs
      return (.seatVar seat name, bs)
    | 3 => do
      let (zone, bs) ← Restorable.restore bs
      let (name, bs) ← Restorable.restore bs
      return (.zoneVar zone name, bs)
    | 4 => do
      let (token, bs) ← Restorable.restore bs
      let (prop, bs) ← Restorable.restore bs
      return (.tokenProp token prop, bs)
    | 5 => do let (name, bs) ← Restorable.restore bs; return (.constant name, bs)
    | 6 => return (.activeSeat, bs)
    | 7 => return (.actor, bs)
    | 8 => return (.turnCount, bs)
    | 9 => return (.currentPhase, bs)
    | 10 => do let (zone, bs) ← Restorable.restore bs; return (.tokenCount zone, bs)
    | 11 => do
      let (space, bs) ← Restorable.restore bs
      let (name, bs) ← Restorable.restore bs
      return (.marker space name, bs)
    | 12 => do
      let (table, bs) ← Restorable.restore bs
      let (key, bs) ← Expr.restore k bs
      let (field, bs) ← Restorable.restore bs
      return (.tableEntry table key field, bs)
    | _ => none

/-- Reads an expression that nests at most as deep as the first argument says. -/
def Expr.restore : Nat → Reader Expr
  | 0, _ => none
  | k + 1, bs => do
    let (n, bs) ← decodeChoice bs
    match n with
    | 0 => do let (i, bs) ← Restorable.restore bs; return (.int i, bs)
    | 1 => do let (b, bs) ← Restorable.restore bs; return (.bool b, bs)
    | 2 => do let (s, bs) ← Restorable.restore bs; return (.str s, bs)
    | 3 => do let (r, bs) ← Ref.restore k bs; return (.ref r, bs)
    | 4 => do
      let (op, bs) ← Restorable.restore bs
      let (left, bs) ← Expr.restore k bs
      let (right, bs) ← Expr.restore k bs
      return (.arith op left right, bs)
    | 5 => do
      let (op, bs) ← Restorable.restore bs
      let (query, bs) ← Query.restore k bs
      let (bind, bs) ← Restorable.restore bs
      let (value, bs) ← decodeOption (Expr.restore k) bs
      return (.aggregate op query bind value, bs)
    | 6 => do
      let (when, bs) ← Cond.restore k bs
      let (yes, bs) ← Expr.restore k bs
      let (no, bs) ← Expr.restore k bs
      return (.ifThenElse when yes no, bs)
    | _ => none

/-- Reads a condition that nests at most as deep as the first argument says. -/
def Cond.restore : Nat → Reader Cond
  | 0, _ => none
  | k + 1, bs => do
    let (n, bs) ← decodeChoice bs
    match n with
    | 0 => do let (b, bs) ← Restorable.restore bs; return (.const b, bs)
    | 1 => do let (parts, bs) ← decodeList (Cond.restore k) bs; return (.and parts, bs)
    | 2 => do let (parts, bs) ← decodeList (Cond.restore k) bs; return (.or parts, bs)
    | 3 => do let (part, bs) ← Cond.restore k bs; return (.not part, bs)
    | 4 => do
      let (op, bs) ← Restorable.restore bs
      let (left, bs) ← Expr.restore k bs
      let (right, bs) ← Expr.restore k bs
      return (.compare op left right, bs)
    | 5 => do
      let (item, bs) ← Expr.restore k bs
      let (set, bs) ← Query.restore k bs
      return (.mem item set, bs)
    | 6 => do
      let (source, bs) ← Restorable.restore bs
      let (target, bs) ← Restorable.restore bs
      return (.adjacent source target, bs)
    | 7 => do
      let (token, bs) ← Restorable.restore bs
      let (zone, bs) ← Restorable.restore bs
      return (.tokenInZone token zone, bs)
    | 8 => do let (value, bs) ← Expr.restore k bs; return (.truthy value, bs)
    | _ => none

/-- Reads a filter that nests at most as deep as the first argument says. -/
def Filter.restore : Nat → Reader Filter
  | 0, _ => none
  | k + 1, bs => do
    let (there, bs) ← decodeFlag bs
    if there then
      let (bind, bs) ← Restorable.restore bs
      let (condition, bs) ← Cond.restore k bs
      return (.satisfying bind condition, bs)
    else return (.all, bs)

/-- Reads a query that nests at most as deep as the first argument says. -/
def Query.restore : Nat → Reader Query
  | 0, _ => none
  | k + 1, bs => do
    let (n, bs) ← decodeChoice bs
    match n with
    | 0 => do
      let (zone, bs) ← Restorable.restore bs
      let (filter, bs) ← Filter.restore k bs
      return (.tokensInZone zone filter, bs)
    | 1 => do
      let (category, bs) ← Restorable.restore bs
      let (filter, bs) ← Filter.restore k bs
      return (.zones category filter, bs)
    | 2 => do
      let (zone, bs) ← Restorable.restore bs
      let (filter, bs) ← Filter.restore k bs
      return (.adjacentZones zone filter, bs)
    | 3 => do
      let (min, bs) ← Expr.restore k bs
      let (max, bs) ← Expr.restore k bs
      return (.intRange min max, bs)
    | 4 => do let (names, bs) ← Restorable.restore bs; return (.enums names, bs)
    | 5 => return (.seats, bs)
    | 6 => do let (name, bs) ← Restorable.restore bs; return (.binding name, bs)
    | 7 => do
      let (table, bs) ← Restorable.restore bs
      let (field, bs) ← Restorable.restore bs
      return (.tableColumn table field, bs)
    | 8 => do let (parts, bs) ← decodeList (Query.restore k) bs; return (.concat parts, bs)
    | _ => none

end

instance : Restorable Cond := ⟨fun bs => Cond.restore (bs.length + 1) bs⟩

end Tabletop
