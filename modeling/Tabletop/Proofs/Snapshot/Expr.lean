import Tabletop.Snapshot.Expr
import Tabletop.Atom.Expr
import Tabletop.Proofs.Snapshot.Basic

/-!
# Reading back expressions, conditions and queries

The reader of a tree and the list of its atoms recurse alike, so one induction on trees proves the
readers right.  A reader spends one unit of fuel at each alternative, which is four bytes or, for a
filter, one: so bytes never run out after the fuel.

Main statement: `Expr.reads` and its fellows, one for each kind of tree.
-/

namespace Tabletop

open Snapshot

/-! ## References to seats and zones, scalars and operators -/

instance : LawfulRestorable Seat where
  reads s fuel := (reads s.index fuel).map fun _ => rfl

instance : LawfulRestorable Scalar where
  reads
    | .bool b, _ => .choice 0 ((reads b _).last fun _ => rfl)
    | .int n, _ => .choice 1 ((reads n _).last fun _ => rfl)
    | .str s, _ => .choice 2 ((reads s _).last fun _ => rfl)

instance : LawfulRestorable SeatRef where
  reads
    | .active, _ => .choice 0 (.pure fun _ => rfl)
    | .actor, _ => .choice 1 (.pure fun _ => rfl)
    | .id seat, _ => .choice 2 ((reads seat _).last fun _ => rfl)
    | .binding name, _ => .choice 3 ((reads name _).last fun _ => rfl)

instance : LawfulRestorable ZoneRef where
  reads
    | .id zone, _ => .choice 0 ((reads zone _).last fun _ => rfl)
    | .binding name, _ => .choice 1 ((reads name _).last fun _ => rfl)
    | .owned base owner, _ => .choice 2 ((reads base _).bind ((reads owner _).last fun _ => rfl))

instance : LawfulRestorable ArithOp where
  reads
    | .add, _ => .choice 0 (.pure fun _ => rfl)
    | .sub, _ => .choice 1 (.pure fun _ => rfl)
    | .mul, _ => .choice 2 (.pure fun _ => rfl)
    | .div, _ => .choice 3 (.pure fun _ => rfl)
    | .min, _ => .choice 4 (.pure fun _ => rfl)
    | .max, _ => .choice 5 (.pure fun _ => rfl)

instance : LawfulRestorable AggregateOp where
  reads
    | .count, _ => .choice 0 (.pure fun _ => rfl)
    | .sum, _ => .choice 1 (.pure fun _ => rfl)
    | .min, _ => .choice 2 (.pure fun _ => rfl)
    | .max, _ => .choice 3 (.pure fun _ => rfl)

instance : LawfulRestorable CompareOp where
  reads
    | .eq, _ => .choice 0 (.pure fun _ => rfl)
    | .ne, _ => .choice 1 (.pure fun _ => rfl)
    | .lt, _ => .choice 2 (.pure fun _ => rfl)
    | .le, _ => .choice 3 (.pure fun _ => rfl)
    | .gt, _ => .choice 4 (.pure fun _ => rfl)
    | .ge, _ => .choice 5 (.pure fun _ => rfl)

/-! ## Trees -/

/-- A reference has at least the atom that says which it is. -/
theorem Ref.atoms_ne_nil (r : Ref) : r.atoms ≠ [] := by
  cases r <;> exact List.cons_ne_nil _ _

/-- An expression has at least the atom that says which it is. -/
theorem Expr.atoms_ne_nil (e : Expr) : e.atoms ≠ [] := by
  cases e with
  | aggregate op query bind value => cases value <;> exact List.cons_ne_nil _ _
  | _ => exact List.cons_ne_nil _ _

/-- A condition has at least the atom that says which it is. -/
theorem Cond.atoms_ne_nil (c : Cond) : c.atoms ≠ [] := by
  cases c <;> exact List.cons_ne_nil _ _

/-- A filter has at least one atom. -/
theorem Filter.atoms_ne_nil (f : Filter) : f.atoms ≠ [] := by
  cases f <;> exact List.cons_ne_nil _ _

/-- A query has at least the atom that says which it is. -/
theorem Query.atoms_ne_nil (q : Query) : q.atoms ≠ [] := by
  cases q <;> exact List.cons_ne_nil _ _

/-- The atoms of several conditions are those of each, one after the other. -/
theorem Cond.atomsOfAll_eq (cs : List Cond) : Cond.atomsOfAll cs = cs.flatMap Cond.atoms := by
  induction cs with
  | nil => rfl
  | cons c cs ih => rw [Cond.atomsOfAll, List.flatMap_cons, ih]

/-- The atoms of several queries are those of each, one after the other. -/
theorem Query.atomsOfAll_eq (qs : List Query) : Query.atomsOfAll qs = qs.flatMap Query.atoms := by
  induction qs with
  | nil => rfl
  | cons q qs ih => rw [Query.atomsOfAll, List.flatMap_cons, ih]

mutual

/-- References are read back. -/
theorem Ref.reads : (k : Nat) → (r : Ref) → Reads k (Ref.restore k) r.atoms r
  | 0, r => .exhausted (fun _ => rfl) r.atoms_ne_nil
  | k + 1, .binding name => .choice 0 ((LawfulRestorable.reads name k).last fun _ => rfl)
  | k + 1, .globalVar name => .choice 1 ((LawfulRestorable.reads name k).last fun _ => rfl)
  | k + 1, .seatVar seat name => .choice 2
    ((LawfulRestorable.reads seat k).bind ((LawfulRestorable.reads name k).last fun _ => rfl))
  | k + 1, .zoneVar zone name => .choice 3
    ((LawfulRestorable.reads zone k).bind ((LawfulRestorable.reads name k).last fun _ => rfl))
  | k + 1, .tokenProp token prop => .choice 4
    ((LawfulRestorable.reads token k).bind ((LawfulRestorable.reads prop k).last fun _ => rfl))
  | k + 1, .constant name => .choice 5 ((LawfulRestorable.reads name k).last fun _ => rfl)
  | k + 1, .activeSeat => .choice 6 (.pure fun _ => rfl)
  | k + 1, .actor => .choice 7 (.pure fun _ => rfl)
  | k + 1, .turnCount => .choice 8 (.pure fun _ => rfl)
  | k + 1, .currentPhase => .choice 9 (.pure fun _ => rfl)
  | k + 1, .tokenCount zone => .choice 10 ((LawfulRestorable.reads zone k).last fun _ => rfl)
  | k + 1, .marker space name => .choice 11
    ((LawfulRestorable.reads space k).bind ((LawfulRestorable.reads name k).last fun _ => rfl))
  | k + 1, .tableEntry table key field => .choice 12
    ((LawfulRestorable.reads table k).bind
      ((Expr.reads k key).bind ((LawfulRestorable.reads field k).last fun _ => rfl)))

/-- Expressions are read back. -/
theorem Expr.reads : (k : Nat) → (e : Expr) → Reads k (Expr.restore k) e.atoms e
  | 0, e => .exhausted (fun _ => rfl) e.atoms_ne_nil
  | k + 1, .int n => .choice 0 ((LawfulRestorable.reads n k).last fun _ => rfl)
  | k + 1, .bool b => .choice 1 ((LawfulRestorable.reads b k).last fun _ => rfl)
  | k + 1, .str s => .choice 2 ((LawfulRestorable.reads s k).last fun _ => rfl)
  | k + 1, .ref r => .choice 3 ((Ref.reads k r).last fun _ => rfl)
  | k + 1, .arith op left right => .choice 4
    ((LawfulRestorable.reads op k).bind
      ((Expr.reads k left).bind ((Expr.reads k right).last fun _ => rfl)))
  | k + 1, .aggregate op query bind none => .choice 5
    ((LawfulRestorable.reads op k).bind ((Query.reads k query).bind
      ((LawfulRestorable.reads bind k).bind (Reads.absent.last fun _ => rfl))))
  | k + 1, .aggregate op query bind (some value) => .choice 5
    ((LawfulRestorable.reads op k).bind ((Query.reads k query).bind
      ((LawfulRestorable.reads bind k).bind
        ((Reads.given ((Expr.reads k value).mono (Nat.sub_le k 1))).last fun _ => rfl))))
  | k + 1, .ifThenElse when yes no => .choice 6
    ((Cond.reads k when).bind ((Expr.reads k yes).bind ((Expr.reads k no).last fun _ => rfl)))

/-- Conditions are read back. -/
theorem Cond.reads : (k : Nat) → (c : Cond) → Reads k (Cond.restore k) c.atoms c
  | 0, c => .exhausted (fun _ => rfl) c.atoms_ne_nil
  | k + 1, .const b => .choice 0 ((LawfulRestorable.reads b k).last fun _ => rfl)
  | k + 1, .and parts => .choice 1 ((Cond.readsAll k parts).last fun _ => rfl)
  | k + 1, .or parts => .choice 2 ((Cond.readsAll k parts).last fun _ => rfl)
  | k + 1, .not part => .choice 3 ((Cond.reads k part).last fun _ => rfl)
  | k + 1, .compare op left right => .choice 4
    ((LawfulRestorable.reads op k).bind
      ((Expr.reads k left).bind ((Expr.reads k right).last fun _ => rfl)))
  | k + 1, .mem item set => .choice 5
    ((Expr.reads k item).bind ((Query.reads k set).last fun _ => rfl))
  | k + 1, .adjacent source target => .choice 6
    ((LawfulRestorable.reads source k).bind ((LawfulRestorable.reads target k).last fun _ => rfl))
  | k + 1, .tokenInZone token zone => .choice 7
    ((LawfulRestorable.reads token k).bind ((LawfulRestorable.reads zone k).last fun _ => rfl))
  | k + 1, .truthy value => .choice 8 ((Expr.reads k value).last fun _ => rfl)

/-- Several conditions are read back. -/
theorem Cond.readsAll (k : Nat) (cs : List Cond) :
    Reads k (decodeList (Cond.restore k)) (.length cs.length :: Cond.atomsOfAll cs) cs := by
  rw [Cond.atomsOfAll_eq]
  exact .list Cond.atoms cs fun c _ => Cond.reads k c

/-- Filters are read back. -/
theorem Filter.reads : (k : Nat) → (f : Filter) → Reads k (Filter.restore k) f.atoms f
  | 0, f => .exhausted (fun _ => rfl) f.atoms_ne_nil
  | k + 1, .all => .present false (.pure fun _ => rfl)
  | k + 1, .satisfying bind condition => .present true
    ((LawfulRestorable.reads bind k).bind ((Cond.reads k condition).last fun _ => rfl))

/-- Queries are read back. -/
theorem Query.reads : (k : Nat) → (q : Query) → Reads k (Query.restore k) q.atoms q
  | 0, q => .exhausted (fun _ => rfl) q.atoms_ne_nil
  | k + 1, .tokensInZone zone filter => .choice 0
    ((LawfulRestorable.reads zone k).bind ((Filter.reads k filter).last fun _ => rfl))
  | k + 1, .zones category filter => .choice 1
    ((LawfulRestorable.reads category k).bind ((Filter.reads k filter).last fun _ => rfl))
  | k + 1, .adjacentZones zone filter => .choice 2
    ((LawfulRestorable.reads zone k).bind ((Filter.reads k filter).last fun _ => rfl))
  | k + 1, .intRange min max => .choice 3
    ((Expr.reads k min).bind ((Expr.reads k max).last fun _ => rfl))
  | k + 1, .enums names => .choice 4 ((LawfulRestorable.reads names k).last fun _ => rfl)
  | k + 1, .seats => .choice 5 (.pure fun _ => rfl)
  | k + 1, .binding name => .choice 6 ((LawfulRestorable.reads name k).last fun _ => rfl)
  | k + 1, .tableColumn table field => .choice 7
    ((LawfulRestorable.reads table k).bind ((LawfulRestorable.reads field k).last fun _ => rfl))
  | k + 1, .concat parts => .choice 8 ((Query.readsAll k parts).last fun _ => rfl)

/-- Several queries are read back. -/
theorem Query.readsAll (k : Nat) (qs : List Query) :
    Reads k (decodeList (Query.restore k)) (.length qs.length :: Query.atomsOfAll qs) qs := by
  rw [Query.atomsOfAll_eq]
  exact .list Query.atoms qs fun q _ => Query.reads k q

end

instance : LawfulRestorable Cond where
  reads c _ := fun hfits => by
    refine .fitted (fun k => Cond.reads k c hfits) fun rest => ?_
    -- As many bytes as there are bound the nesting of a condition in them.
    rw [List.length_append]
    omega

end Tabletop
