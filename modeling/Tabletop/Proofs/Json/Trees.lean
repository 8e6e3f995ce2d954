import Tabletop.Move
import Tabletop.Effect.Form
import Tabletop.Proofs.Json.Codec

/-!
# Trees are read back

Expressions, conditions, queries, effects and moves are trees, and their readers recurse on a bound
for the depth of the form.  A tree that a form holds is at least one level further in, so whatever
bound is enough for the whole is enough, less one, for each part; the induction is on the tree and
lets the bound go along.  At the top the bound is the depth of the form itself.

Main statements: `Ref.read_write`, `Expr.read_write`, `Cond.read_write`, `Filter.read_write` and
`Query.read_write`, which are proved together, `Effect.read_write` and `Move.read_write`.
-/

namespace Tabletop

open Json

namespace Json

/-- Every value nests at least one level deep. -/
theorem depth_pos (j : Json) : 0 < j.depth := by
  cases j <;> simp [depth]

/-- A bound for the depth of a form leaves something to recurse on. -/
theorem exists_eq_succ_of_depth_le {j : Json} {n : Nat} (h : j.depth ≤ n) : ∃ m, n = m + 1 :=
  Nat.exists_eq_succ_of_ne_zero (Nat.ne_of_gt (Nat.lt_of_lt_of_le j.depth_pos h))

end Json

/-! ## Scalars and references -/

instance : LawfulCoded Scalar where
  ofJson?_toJson x := by
    cases x with
    | bool => rfl
    | str => rfl
    | int n =>
      show (ofJson? (toJson n)).map Scalar.int = some (.int n)
      simp

instance : NeverNull Scalar := ⟨fun x => by cases x <;> nofun⟩

instance : LawfulCoded SeatRef :=
  .of fun r => by cases r <;> simp -implicitDefEqProofs

instance : LawfulCoded ZoneRef :=
  .of fun r => by cases r <;> simp -implicitDefEqProofs

instance : LawfulCoded ArithOp := ⟨fun op => by cases op <;> rfl⟩
instance : LawfulCoded AggregateOp := ⟨fun op => by cases op <;> rfl⟩
instance : LawfulCoded CompareOp := ⟨fun op => by cases op <;> rfl⟩

/-! ## Expressions, conditions and queries -/

/-- The form of an expression is not `null`. -/
theorem Expr.write_ne_null (e : Expr) : e.write ≠ .null := by
  cases e with
  | aggregate op query bind value => cases value <;> simp [write]
  | _ => simp [write]

/-- The form of a condition is not `null`. -/
theorem Cond.write_ne_null (c : Cond) : c.write ≠ .null := by
  cases c <;> simp [write]

/-- The form of a query is not `null`. -/
theorem Query.write_ne_null (q : Query) : q.write ≠ .null := by
  cases q <;> simp [write]

mutual

/-- A reference is read back within any bound for the depth of its form. -/
theorem Ref.read_write (r : Ref) (n : Nat) (h : r.write.depth ≤ n) :
    Ref.read n r.write = some r := by
  obtain ⟨n, rfl⟩ := exists_eq_succ_of_depth_le h
  cases r with
  | tableEntry table key field =>
    have hkey := Expr.read_write key n
      (by simp only [Ref.write, variant, depth, depthFields] at h; omega)
    simp [Ref.write, Ref.read, hkey]
  | _ => simp [Ref.write, Ref.read]

/-- An expression is read back within any bound for the depth of its form. -/
theorem Expr.read_write (e : Expr) (n : Nat) (h : e.write.depth ≤ n) :
    Expr.read n e.write = some e := by
  obtain ⟨n, rfl⟩ := exists_eq_succ_of_depth_le h
  cases e with
  | int k => simp [Expr.write, Expr.read]
  | bool b => simp [Expr.write, Expr.read]
  | str s => simp [Expr.write, Expr.read]
  | ref r =>
    have hr := Ref.read_write r n
      (by simp only [Expr.write, variant, depth, depthFields] at h; omega)
    simp [Expr.write, Expr.read, hr]
  | arith op left right =>
    simp only [Expr.write, variant, depth, depthFields] at h
    have hleft := Expr.read_write left n (by omega)
    have hright := Expr.read_write right n (by omega)
    simp [Expr.write, Expr.read, hleft, hright]
  | aggregate op query bind value =>
    cases value with
    | none =>
      have hquery := Query.read_write query n
        (by simp only [Expr.write, variant, depth, depthFields] at h; omega)
      simp [Expr.write, Expr.read, hquery, optionBy]
    | some e =>
      simp only [Expr.write, variant, depth, depthFields] at h
      have hquery := Query.read_write query n (by omega)
      have he := Expr.read_write e n (by omega)
      simp [Expr.write, Expr.read, hquery, he, e.write_ne_null]
  | ifThenElse when yes no =>
    simp only [Expr.write, variant, depth, depthFields] at h
    have hwhen := Cond.read_write when n (by omega)
    have hyes := Expr.read_write yes n (by omega)
    have hno := Expr.read_write no n (by omega)
    simp [Expr.write, Expr.read, hwhen, hyes, hno]

/-- A condition is read back within any bound for the depth of its form. -/
theorem Cond.read_write (c : Cond) (n : Nat) (h : c.write.depth ≤ n) :
    Cond.read n c.write = some c := by
  obtain ⟨n, rfl⟩ := exists_eq_succ_of_depth_le h
  cases c with
  | const b => simp [Cond.write, Cond.read]
  | and parts =>
    have hparts := Cond.mapM_read_writeAll parts n
      (by simp only [Cond.write, variant, depth, depthFields] at h; omega)
    simp [Cond.write, Cond.read, listBy, hparts]
  | or parts =>
    have hparts := Cond.mapM_read_writeAll parts n
      (by simp only [Cond.write, variant, depth, depthFields] at h; omega)
    simp [Cond.write, Cond.read, listBy, hparts]
  | not part =>
    have hpart := Cond.read_write part n
      (by simp only [Cond.write, variant, depth, depthFields] at h; omega)
    simp [Cond.write, Cond.read, hpart]
  | compare op left right =>
    simp only [Cond.write, variant, depth, depthFields] at h
    have hleft := Expr.read_write left n (by omega)
    have hright := Expr.read_write right n (by omega)
    simp [Cond.write, Cond.read, hleft, hright]
  | mem item set =>
    simp only [Cond.write, variant, depth, depthFields] at h
    have hitem := Expr.read_write item n (by omega)
    have hset := Query.read_write set n (by omega)
    simp [Cond.write, Cond.read, hitem, hset]
  | adjacent source target => simp [Cond.write, Cond.read]
  | tokenInZone token zone => simp [Cond.write, Cond.read]
  | truthy value =>
    have hvalue := Expr.read_write value n
      (by simp only [Cond.write, variant, depth, depthFields] at h; omega)
    simp [Cond.write, Cond.read, hvalue]

/-- Conditions are read back one after the other, if reading may go as deep as their forms nest. -/
theorem Cond.mapM_read_writeAll (cs : List Cond) (n : Nat)
    (h : depthItems (Cond.writeAll cs) ≤ n) : (Cond.writeAll cs).mapM (Cond.read n) = some cs := by
  cases cs with
  | nil => rfl
  | cons c cs =>
    simp only [Cond.writeAll, depthItems] at h
    have hc := Cond.read_write c n (by omega)
    have hcs := Cond.mapM_read_writeAll cs n (by omega)
    simp [Cond.writeAll, hc, hcs]

/-- A filter is read back within any bound for the depth of its form. -/
theorem Filter.read_write (f : Filter) (n : Nat) (h : f.write.depth ≤ n) :
    Filter.read n f.write = some f := by
  obtain ⟨n, rfl⟩ := exists_eq_succ_of_depth_le h
  cases f with
  | all => rfl
  | satisfying bind condition =>
    have hcondition := Cond.read_write condition n
      (by simp only [Filter.write, depth, depthFields] at h; omega)
    simp [Filter.write, Filter.read, hcondition]

/-- A query is read back within any bound for the depth of its form. -/
theorem Query.read_write (q : Query) (n : Nat) (h : q.write.depth ≤ n) :
    Query.read n q.write = some q := by
  obtain ⟨n, rfl⟩ := exists_eq_succ_of_depth_le h
  cases q with
  | tokensInZone zone filter =>
    have hfilter := Filter.read_write filter n
      (by simp only [Query.write, variant, depth, depthFields] at h; omega)
    simp [Query.write, Query.read, hfilter]
  | zones category filter =>
    have hfilter := Filter.read_write filter n
      (by simp only [Query.write, variant, depth, depthFields] at h; omega)
    simp [Query.write, Query.read, hfilter]
  | adjacentZones zone filter =>
    have hfilter := Filter.read_write filter n
      (by simp only [Query.write, variant, depth, depthFields] at h; omega)
    simp [Query.write, Query.read, hfilter]
  | intRange min max =>
    simp only [Query.write, variant, depth, depthFields] at h
    have hmin := Expr.read_write min n (by omega)
    have hmax := Expr.read_write max n (by omega)
    simp [Query.write, Query.read, hmin, hmax]
  | enums names => simp [Query.write, Query.read]
  | seats => rfl
  | binding name => simp [Query.write, Query.read]
  | tableColumn table field => simp [Query.write, Query.read]
  | concat parts =>
    have hparts := Query.mapM_read_writeAll parts n
      (by simp only [Query.write, variant, depth, depthFields] at h; omega)
    simp [Query.write, Query.read, listBy, hparts]

/-- Queries are read back one after the other, if reading may go as deep as their forms nest. -/
theorem Query.mapM_read_writeAll (qs : List Query) (n : Nat)
    (h : depthItems (Query.writeAll qs) ≤ n) :
    (Query.writeAll qs).mapM (Query.read n) = some qs := by
  cases qs with
  | nil => rfl
  | cons q qs =>
    simp only [Query.writeAll, depthItems] at h
    have hq := Query.read_write q n (by omega)
    have hqs := Query.mapM_read_writeAll qs n (by omega)
    simp [Query.writeAll, hq, hqs]

end

instance : LawfulCoded Expr := ⟨fun e => e.read_write _ (Nat.le_refl _)⟩
instance : NeverNull Expr := ⟨Expr.write_ne_null⟩

instance : LawfulCoded Cond := ⟨fun c => c.read_write _ (Nat.le_refl _)⟩
instance : NeverNull Cond := ⟨Cond.write_ne_null⟩

instance : LawfulCoded Filter := ⟨fun f => f.read_write _ (Nat.le_refl _)⟩

instance : LawfulCoded Query := ⟨fun q => q.read_write _ (Nat.le_refl _)⟩
instance : NeverNull Query := ⟨Query.write_ne_null⟩

/-! ## Effects -/

instance : LawfulCoded VarTarget :=
  .of fun t => by cases t <;> simp -implicitDefEqProofs

instance : LawfulCoded InsertAt := ⟨fun place => by cases place <;> rfl⟩

instance : LawfulCoded PriorityGroup :=
  .of fun g => by simp -implicitDefEqProofs

instance : LawfulCoded GrantSequence :=
  .of fun s => by simp -implicitDefEqProofs

instance : NeverNull GrantSequence := ⟨nofun⟩

instance : LawfulCoded GrantOffer :=
  .of fun o => by simp -implicitDefEqProofs

namespace Effect

/-- The form of an offer is an object, as the reader of effects expects. -/
theorem fields?_toJson_offer (o : GrantOffer) : ∃ fs, toJson o = .obj fs := ⟨_, rfl⟩

mutual

/-- An effect is read back within any bound for the depth of its form. -/
theorem read_write (e : Effect) (n : Nat) (h : e.write.depth ≤ n) : read n e.write = some e := by
  obtain ⟨n, rfl⟩ := exists_eq_succ_of_depth_le h
  -- In each case the form is written out before the simplifier sees the reader, which then knows
  -- the name that it is to find; it has too many alternatives to go through them all.
  cases e with
  | ifThenElse when yes no =>
    simp only [write, variant, depth, depthFields] at h
    have hyes := mapM_read_writeAll yes n (by omega)
    have hno := mapM_read_writeAll no n (by omega)
    rw [write, read]
    simp [listBy, hyes, hno]
  | forEach bind source body limit =>
    have hbody := mapM_read_writeAll body n
      (by simp only [write, variant, depth, depthFields] at h; omega)
    rw [write, read]
    simp [listBy, hbody]
  | letIn bind value body =>
    have hbody := mapM_read_writeAll body n
      (by simp only [write, variant, depth, depthFields] at h; omega)
    rw [write, read]
    simp [listBy, hbody]
  | reduce source item acc initial next result body =>
    have hbody := mapM_read_writeAll body n
      (by simp only [write, variant, depth, depthFields] at h; omega)
    rw [write, read]
    simp [listBy, hbody]
  | rollRandom bind min max body =>
    have hbody := mapM_read_writeAll body n
      (by simp only [write, variant, depth, depthFields] at h; omega)
    rw [write, read]
    simp [listBy, hbody]
  | removeByPriority budget groups countBind body =>
    have hbody := mapM_read_writeAll body n
      (by simp only [write, variant, depth, depthFields] at h; omega)
    rw [write, read]
    simp [listBy, hbody]
  | grantFreeOperation offer =>
    obtain ⟨fs, hfs⟩ := fields?_toJson_offer offer
    have hread := ofJson?_toJson offer
    rw [hfs] at hread
    rw [write, read]
    simp [hfs, hread]
  | _ =>
    rw [write, read]
    simp

/-- Effects are read back one after the other, if reading may go as deep as their forms nest. -/
theorem mapM_read_writeAll (es : List Effect) (n : Nat) (h : depthItems (writeAll es) ≤ n) :
    (writeAll es).mapM (read n) = some es := by
  cases es with
  | nil => rfl
  | cons e es =>
    simp only [writeAll, depthItems] at h
    have he := read_write e n (by omega)
    have hes := mapM_read_writeAll es n (by omega)
    simp [writeAll, he, hes]

end

instance : LawfulCoded Effect := ⟨fun e => e.read_write _ (Nat.le_refl _)⟩

end Effect

/-! ## Moves -/

instance : LawfulCoded Selection where
  ofJson?_toJson x := by
    cases x with
    | one x =>
      have hread : ofJson? (toJson (Selection.one x)) = (ofJson? (toJson x)).map Selection.one := by
        cases x <;> rfl
      rw [hread, ofJson?_toJson, Option.map_some]
    | many xs =>
      show (ofJson? (toJson xs)).map Selection.many = some (.many xs)
      simp

instance : LawfulCoded Timing := ⟨fun t => by cases t <;> rfl⟩

namespace Move

/-- A move is read back within any bound for the depth of its form. -/
theorem read_write (m : Move) (n : Nat) (h : m.write.depth ≤ n) : read n m.write = some m := by
  obtain ⟨n, rfl⟩ := exists_eq_succ_of_depth_le h
  obtain ⟨action, params, free, classOverride, compound⟩ := m
  cases compound with
  | none =>
    rw [write, read]
    simp [optionBy]
  | some c =>
    obtain ⟨special, timing, afterStage⟩ := c
    have hspecial := read_write special n
      (by simp only [write, depth, depthFields] at h; omega)
    rw [write, read]
    simp [read.readCompound, hspecial]

instance : LawfulCoded Move := ⟨fun m => m.read_write _ (Nat.le_refl _)⟩

end Move

end Tabletop
