import Tabletop.Atom.Basic
import Tabletop.Expr.Basic

/-!
# The atoms of expressions, conditions and queries

The trees in which a definition asks questions, each with the number of its alternative first.

Main definitions: `Ref.atoms`, `Expr.atoms`, `Cond.atoms`, `Filter.atoms` and `Query.atoms`.
-/

namespace Tabletop

instance : Atomic Seat := ⟨fun s => atoms s.index⟩

instance : Atomic Scalar where
  atoms
    | .bool b => .choice 0 :: atoms b
    | .int n => .choice 1 :: atoms n
    | .str s => .choice 2 :: atoms s

instance : Atomic SeatRef where
  atoms
    | .active => [.choice 0]
    | .actor => [.choice 1]
    | .id seat => .choice 2 :: atoms seat
    | .binding name => .choice 3 :: atoms name

instance : Atomic ZoneRef where
  atoms
    | .id zone => .choice 0 :: atoms zone
    | .binding name => .choice 1 :: atoms name
    | .owned base owner => .choice 2 :: (atoms base ++ atoms owner)

instance : Atomic ArithOp where
  atoms
    | .add => [.choice 0]
    | .sub => [.choice 1]
    | .mul => [.choice 2]
    | .div => [.choice 3]
    | .min => [.choice 4]
    | .max => [.choice 5]

instance : Atomic AggregateOp where
  atoms
    | .count => [.choice 0]
    | .sum => [.choice 1]
    | .min => [.choice 2]
    | .max => [.choice 3]

instance : Atomic CompareOp where
  atoms
    | .eq => [.choice 0]
    | .ne => [.choice 1]
    | .lt => [.choice 2]
    | .le => [.choice 3]
    | .gt => [.choice 4]
    | .ge => [.choice 5]

mutual

/-- The atoms of a reference. -/
def Ref.atoms : Ref → List Atom
  | .binding name => .choice 0 :: Atomic.atoms name
  | .globalVar name => .choice 1 :: Atomic.atoms name
  | .seatVar seat name => .choice 2 :: (Atomic.atoms seat ++ Atomic.atoms name)
  | .zoneVar zone name => .choice 3 :: (Atomic.atoms zone ++ Atomic.atoms name)
  | .tokenProp token prop => .choice 4 :: (Atomic.atoms token ++ Atomic.atoms prop)
  | .constant name => .choice 5 :: Atomic.atoms name
  | .activeSeat => [.choice 6]
  | .actor => [.choice 7]
  | .turnCount => [.choice 8]
  | .currentPhase => [.choice 9]
  | .tokenCount zone => .choice 10 :: Atomic.atoms zone
  | .marker space name => .choice 11 :: (Atomic.atoms space ++ Atomic.atoms name)
  | .tableEntry table key field =>
    .choice 12 :: (Atomic.atoms table ++ (key.atoms ++ Atomic.atoms field))

/-- The atoms of an expression. -/
def Expr.atoms : Expr → List Atom
  | .int n => .choice 0 :: Atomic.atoms n
  | .bool b => .choice 1 :: Atomic.atoms b
  | .str s => .choice 2 :: Atomic.atoms s
  | .ref r => .choice 3 :: r.atoms
  | .arith op left right => .choice 4 :: (Atomic.atoms op ++ (left.atoms ++ right.atoms))
  | .aggregate op query bind value =>
    .choice 5 :: (Atomic.atoms op ++ (query.atoms ++ (Atomic.atoms bind ++
      match value with
      | some e => .present true :: e.atoms
      | none => [.present false])))
  | .ifThenElse when yes no => .choice 6 :: (when.atoms ++ (yes.atoms ++ no.atoms))

/-- The atoms of a condition. -/
def Cond.atoms : Cond → List Atom
  | .const b => .choice 0 :: Atomic.atoms b
  | .and parts => .choice 1 :: .length parts.length :: Cond.atomsOfAll parts
  | .or parts => .choice 2 :: .length parts.length :: Cond.atomsOfAll parts
  | .not part => .choice 3 :: part.atoms
  | .compare op left right => .choice 4 :: (Atomic.atoms op ++ (left.atoms ++ right.atoms))
  | .mem item set => .choice 5 :: (item.atoms ++ set.atoms)
  | .adjacent source target => .choice 6 :: (Atomic.atoms source ++ Atomic.atoms target)
  | .tokenInZone token zone => .choice 7 :: (Atomic.atoms token ++ Atomic.atoms zone)
  | .truthy value => .choice 8 :: value.atoms

/-- The atoms of several conditions. -/
def Cond.atomsOfAll : List Cond → List Atom
  | [] => []
  | c :: cs => c.atoms ++ Cond.atomsOfAll cs

/-- The atoms of a filter. -/
def Filter.atoms : Filter → List Atom
  | .all => [.present false]
  | .satisfying bind condition => .present true :: (Atomic.atoms bind ++ condition.atoms)

/-- The atoms of a query. -/
def Query.atoms : Query → List Atom
  | .tokensInZone zone filter => .choice 0 :: (Atomic.atoms zone ++ filter.atoms)
  | .zones category filter => .choice 1 :: (Atomic.atoms category ++ filter.atoms)
  | .adjacentZones zone filter => .choice 2 :: (Atomic.atoms zone ++ filter.atoms)
  | .intRange min max => .choice 3 :: (min.atoms ++ max.atoms)
  | .enums names => .choice 4 :: Atomic.atoms names
  | .seats => [.choice 5]
  | .binding name => .choice 6 :: Atomic.atoms name
  | .tableColumn table field => .choice 7 :: (Atomic.atoms table ++ Atomic.atoms field)
  | .concat parts => .choice 8 :: .length parts.length :: Query.atomsOfAll parts

/-- The atoms of several queries. -/
def Query.atomsOfAll : List Query → List Atom
  | [] => []
  | q :: qs => q.atoms ++ Query.atomsOfAll qs

end

instance : Atomic Expr := ⟨Expr.atoms⟩
instance : Atomic Cond := ⟨Cond.atoms⟩
instance : Atomic Query := ⟨Query.atoms⟩

end Tabletop
