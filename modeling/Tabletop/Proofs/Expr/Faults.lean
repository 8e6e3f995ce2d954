import Mathlib.Data.List.Basic
import Tabletop.Proofs.Paired.Basic
import Tabletop.Expr.Eval

/-!
# How evaluation fails

A fault of an evaluation comes from a step of it: something is missing or of the wrong type,
arithmetic fails, or a name is not bound.  It never says where it arose; that is added where a
predicate of a definition is evaluated.  And a name can only be found unbound if it is read: it
occurs in the tree outside of the scopes in which it is bound.

Main statements: `Cond.eval_fails` and `Query.eval_fails`.
-/

namespace Tabletop

/-! ## Computations that fail in known ways -/

/-- A computation fails with certain errors only, if it fails. -/
def Fails {ε α : Type} (P : ε → Prop) : Except ε α → Prop
  | .ok _ => True
  | .error e => P e

namespace Fails

variable {ε δ α β : Type} {P Q : ε → Prop} {R : δ → Prop} {a : Except ε α}

/-- A success is no failure. -/
theorem ok {x : α} : Fails P (.ok x : Except ε α) := trivial

/-- Doing nothing is no failure. -/
theorem pure {x : α} : Fails P (Pure.pure x : Except ε α) := trivial

/-- An error that is described is a failure as described. -/
theorem error {e : ε} (h : P e) : Fails P (.error e : Except ε α) := h

/-- The error of a failure is as described. -/
theorem of_error (h : Fails P a) {e : ε} (ha : a = .error e) : P e := by
  rw [ha] at h
  exact h

/-- Errors may be described more loosely. -/
theorem mono (h : Fails P a) (hPQ : ∀ e, P e → Q e) : Fails Q a := by
  cases a with
  | ok x => trivial
  | error e => exact hPQ e h

/-- Computations one after the other fail as described if each of them does. -/
theorem bind {f : α → Except ε β} (h : Fails P a) (hf : ∀ x, a = .ok x → Fails P (f x)) :
    Fails P (a >>= f) := by
  cases a with
  | ok x => exact hf x rfl
  | error e => exact h

/-- What cannot fail with an error at first comes to it later on. -/
theorem later {f : α → Except ε β} {e : ε} (h : Fails P a) (hbind : a >>= f = .error e)
    (he : ¬ P e) : ∃ x, a = .ok x ∧ f x = .error e := by
  rcases bind_eq_error hbind with hfirst | hlater
  · exact absurd (h.of_error hfirst) he
  · exact hlater

/-- A computation whose errors are put into other words fails with those words. -/
theorem mapError {f : ε → δ} (h : Fails P a) (hf : ∀ e, P e → R (f e)) :
    Fails R (a.mapError f) := by
  cases a with
  | ok x => trivial
  | error e => exact hf e h

/-- A computation that depends on a test fails as described if both of its branches do. -/
theorem ite {c : Prop} [Decidable c] {a' : Except ε α} (h : c → Fails P a)
    (h' : ¬c → Fails P a') : Fails P (if c then a else a') := by
  by_cases hc : c
  · rw [if_pos hc]
    exact h hc
  · rw [if_neg hc]
    exact h' hc

/-- A fold fails as described if each of its steps does. -/
theorem foldlM {f : α → β → Except ε α} (hf : ∀ x y, Fails P (f x y)) :
    ∀ (l : List β) (x : α), Fails P (l.foldlM f x)
  | [], _ => trivial
  | y :: l, x => by
    rw [List.foldlM_cons]
    exact (hf x y).bind (fun x' _ => foldlM hf l x')

end Fails

/-- Demanding something fails with the fault for its absence only. -/
theorem orFault_fails {α : Type} {P : Fault → Prop} {fault : Fault} (h : P fault) (x : Option α) :
    Fails P (orFault x fault) := by
  cases x with
  | none => exact h
  | some x => trivial

/-- Testing items in order fails as the tests do. -/
theorem keepM_fails {α : Type} {P : Fault → Prop} {test : α → Result Bool}
    (h : ∀ x, Fails P (test x)) : ∀ xs, Fails P (keepM test xs)
  | [] => trivial
  | x :: xs => (h x).bind (fun _ _ => (keepM_fails h xs).bind (fun _ _ => .pure))

/-! ## Names that are read -/

/-- The names that a reference to a seat reads. -/
def SeatRef.names : SeatRef → List String
  | .binding name => [name]
  | _ => []

/-- The names that a reference to a zone reads. -/
def ZoneRef.names : ZoneRef → List String
  | .id _ => []
  | .binding name => [name]
  | .owned _ owner => owner.names

/-- The names that are left when one is bound. -/
def namesBut (bind : String) (names : List String) : List String :=
  names.filter (fun name => name ≠ bind)

mutual

/-- The names that a reference reads. -/
def Ref.names : Ref → List String
  | .binding name => [name]
  | .globalVar _ => []
  | .seatVar seat _ => seat.names
  | .zoneVar zone _ => zone.names
  | .tokenProp token _ => [token]
  | .constant _ => []
  | .activeSeat => []
  | .actor => []
  | .turnCount => []
  | .currentPhase => []
  | .tokenCount zone => zone.names
  | .marker space _ => space.names
  | .tableEntry _ key _ => key.names

/-- The names that an expression reads. -/
def Expr.names : Expr → List String
  | .int _ => []
  | .bool _ => []
  | .str _ => []
  | .ref r => r.names
  | .arith _ left right => left.names ++ right.names
  | .aggregate _ query bind value => query.names ++ namesBut bind (Expr.namesOf value)
  | .ifThenElse when yes no => when.names ++ (yes.names ++ no.names)

/-- The names that an expression reads that need not be there. -/
def Expr.namesOf : Option Expr → List String
  | none => []
  | some e => e.names

/-- The names that a condition reads. -/
def Cond.names : Cond → List String
  | .const _ => []
  | .and parts => Cond.namesAll parts
  | .or parts => Cond.namesAll parts
  | .not part => part.names
  | .compare _ left right => left.names ++ right.names
  | .mem item set => item.names ++ set.names
  | .adjacent source target => source.names ++ target.names
  | .tokenInZone token zone => token :: zone.names
  | .truthy value => value.names

/-- The names that conditions read. -/
def Cond.namesAll : List Cond → List String
  | [] => []
  | c :: cs => c.names ++ Cond.namesAll cs

/-- The names that a filter reads. -/
def Filter.names : Filter → List String
  | .all => []
  | .satisfying bind condition => namesBut bind condition.names

/-- The names that a query reads. -/
def Query.names : Query → List String
  | .tokensInZone zone filter => zone.names ++ filter.names
  | .zones _ filter => filter.names
  | .adjacentZones zone filter => zone.names ++ filter.names
  | .intRange min max => min.names ++ max.names
  | .enums _ => []
  | .seats => []
  | .binding name => [name]
  | .tableColumn _ _ => []
  | .concat parts => Query.namesAll parts

/-- The names that queries read. -/
def Query.namesAll : List Query → List String
  | [] => []
  | q :: qs => q.names ++ Query.namesAll qs

end

/-! ## Faults of evaluations -/

/-- A fault of a computation itself, rather than one that says in which predicate or for which
selector it arose, or that the game cannot go on. -/
def Fault.Plain : Fault → Prop
  | .effect .. => True
  | .effectBudget .. => True
  | .counterOverflow _ => True
  | .missing .. => True
  | .stacking .. => True
  | .mismatch .. => True
  | .unbound .. => True
  | .arithmetic .. => True
  | .selector .. => False
  | .cascadeDepth .. => False
  | .transitionBudget .. => False
  | .predicate .. => False
  | .serialization => False
  | .seatCount .. => False

/-- A fault to which an evaluation in a view can come that reads certain names. -/
structure View.Faults (v : View) (names : List String) (f : Fault) : Prop where
  plain : f.Plain
  unbound : ∀ name, f = .unbound name → name ∈ names ∧ v.bindings.get? name = none

namespace View.Faults

variable {v : View} {names names' : List String} {f : Fault}

/-- An evaluation that reads more names may come to more faults. -/
theorem mono (hsub : names ⊆ names') (h : v.Faults names f) : v.Faults names' f where
  plain := h.plain
  unbound name hname := by
    obtain ⟨hread, hfree⟩ := h.unbound name hname
    exact ⟨hsub hread, hfree⟩

/-- What is bound where an expression is evaluated is not found unbound there. -/
theorem unbind {bind : String} {x : Value} (h : (v.bind bind x).Faults names f) :
    v.Faults (namesBut bind names) f where
  plain := h.plain
  unbound name hname := by
    obtain ⟨hread, hfree⟩ := h.unbound name hname
    have hother : name ≠ bind := by
      rintro rfl
      simp [View.bind, Bindings.bind, Bindings.get?] at hfree
    refine ⟨?_, ?_⟩
    · simpa [namesBut, hother] using hread
    · have hlookup : ((bind, x) :: v.bindings.entries).lookup name = none := hfree
      rw [List.lookup_cons, beq_eq_false_iff_ne.2 hother] at hlookup
      exact hlookup

end View.Faults

section

variable {v : View} {names names' : List String} {α β : Type} {a : Result α}

/-- An evaluation that reads some names reads no others either. -/
theorem Fails.left (h : Fails (v.Faults names) a) : Fails (v.Faults (names ++ names')) a :=
  h.mono (fun _ => .mono (List.subset_append_left _ _))

/-- The faults of an evaluation of the second part are among those of both. -/
theorem Fails.right (h : Fails (v.Faults names') a) : Fails (v.Faults (names ++ names')) a :=
  h.mono (fun _ => .mono (List.subset_append_right _ _))

end

namespace View

variable (v : View)

/-- Looking a name up fails only if that name is not bound. -/
theorem lookup_fails (name : String) : Fails (v.Faults [name]) (v.lookup name) := by
  unfold lookup orFault
  cases hname : v.bindings.get? name with
  | some x => trivial
  | none =>
    refine ⟨trivial, fun other hother => ?_⟩
    obtain rfl := Fault.unbound.inj hother
    exact ⟨List.mem_singleton_self _, hname⟩

/-- Looking a token up fails only if its name is not bound or bound to something else. -/
theorem token_fails (name : String) : Fails (v.Faults [name]) (v.token name) := by
  refine (v.lookup_fails name).bind (fun x _ => ?_)
  split
  · trivial
  · trivial
  · exact ⟨trivial, nofun⟩

end View

/-- A value that stands for no seat is a fault that names no predicate. -/
theorem Value.toSeat_fails (v : View) (names : List String) (x : Value) (count : Nat)
    (place : String) : Fails (v.Faults names) (x.toSeat count place) :=
  (orFault_fails ⟨trivial, nofun⟩ _).bind (fun _ _ => orFault_fails ⟨trivial, nofun⟩ _)

/-- A reference to a seat fails with faults of the names that it reads. -/
theorem SeatRef.resolve_fails (r : SeatRef) (v : View) :
    Fails (v.Faults r.names) (r.resolve v) := by
  cases r with
  | active => trivial
  | actor => trivial
  | id seat => exact .ite (fun _ => trivial) (fun _ => ⟨trivial, nofun⟩)
  | binding name => exact (v.lookup_fails name).bind (fun x _ => x.toSeat_fails v _ _ _)

/-- A reference to a zone fails with faults of the names that it reads. -/
theorem ZoneRef.resolve_fails (r : ZoneRef) (v : View) :
    Fails (v.Faults r.names) (r.resolve v) := by
  have hid : Fails (v.Faults r.names) (r.id? v) := by
    cases r with
    | id zone => trivial
    | binding name =>
      exact (v.lookup_fails name).bind (fun x _ => orFault_fails ⟨trivial, nofun⟩ _)
    | owned base owner => exact (owner.resolve_fails v).bind (fun _ _ => .pure)
  refine hid.bind (fun zone _ => ?_)
  exact .ite (fun _ => .pure) (fun _ => ⟨trivial, nofun⟩)

section

variable (v : View) (names : List String)

/-- An operator fails with faults of arithmetic, which read no name. -/
theorem ArithOp.apply_fails (op : ArithOp) (l r : Int64) :
    Fails (v.Faults names) (op.apply l r) :=
  .ite (fun _ => ⟨trivial, nofun⟩) (fun _ => orFault_fails ⟨trivial, nofun⟩ _)

/-- A step of an aggregate fails with faults of arithmetic, which read no name. -/
theorem AggregateOp.step_fails (op : AggregateOp) (acc : Option Int64) (n : Int64) :
    Fails (v.Faults names) (op.step acc n) := by
  cases acc with
  | none => trivial
  | some a =>
    cases op with
    | count => trivial
    | sum => exact ArithOp.apply_fails v names _ _ _
    | min => exact ArithOp.apply_fails v names _ _ _
    | max => exact ArithOp.apply_fails v names _ _ _

/-- A comparison fails with mismatches, which read no name. -/
theorem CompareOp.apply_fails (op : CompareOp) (l r : Value) :
    Fails (v.Faults names) (op.apply l r) := by
  have hoperand : ∀ x, Fails (v.Faults names) (op.operand x) :=
    fun x => orFault_fails ⟨trivial, nofun⟩ _
  cases op with
  | eq => trivial
  | ne => trivial
  | lt => exact (hoperand l).bind (fun _ _ => (hoperand r).bind (fun _ _ => .pure))
  | le => exact (hoperand l).bind (fun _ _ => (hoperand r).bind (fun _ _ => .pure))
  | gt => exact (hoperand l).bind (fun _ _ => (hoperand r).bind (fun _ _ => .pure))
  | ge => exact (hoperand l).bind (fun _ _ => (hoperand r).bind (fun _ _ => .pure))

/-- A range fails with faults of arithmetic, which read no name. -/
theorem intRange_fails (lo hi : Int64) : Fails (v.Faults names) (intRange lo hi) :=
  .ite (fun _ => trivial) (fun _ => .ite (fun _ => ⟨trivial, nofun⟩) (fun _ => trivial))

/-- What is no integer is a mismatch, which reads no name. -/
theorem Expr.expectInt_fails (e : Expr) (x : Value) : Fails (v.Faults names) (e.expectInt x) :=
  orFault_fails ⟨trivial, nofun⟩ _

/-- What has no truth is a mismatch, which reads no name. -/
theorem Value.truth_fails (x : Value) : Fails (v.Faults names) x.truth := by
  unfold Value.truth
  split
  · trivial
  · trivial
  · exact ⟨trivial, nofun⟩

/-- A marker that is not declared is missing, which reads no name. -/
theorem State.marker_fails (s : State) (d : Definition) (space : ZoneId) (name : String) :
    Fails (v.Faults names) (s.marker d space name) := by
  unfold State.marker
  cases s.markers.get? space >>= fun m => m.get? name with
  | some state => trivial
  | none =>
    cases d.marker? name with
    | none => exact ⟨trivial, nofun⟩
    | some lattice => trivial

/-- A row or a table that is not there is missing, which reads no name. -/
theorem TableIndex.row_fails (t : TableIndex) (d : Definition) (table : String) (key : Scalar) :
    Fails (v.Faults names) (t.row d table key) := by
  refine (orFault_fails ⟨trivial, nofun⟩ _).bind (fun rows _ => ?_)
  refine (orFault_fails ⟨trivial, nofun⟩ _).bind (fun position _ => ?_)
  exact orFault_fails ⟨trivial, nofun⟩ _

end

/-! ## Evaluation -/

mutual

/-- How a reference fails. -/
theorem Ref.eval_fails (r : Ref) (v : View) : Fails (v.Faults r.names) (r.eval v) := by
  cases r with
  | binding name => exact v.lookup_fails name
  | globalVar name => exact (orFault_fails ⟨trivial, nofun⟩ _).bind (fun _ _ => .pure)
  | seatVar seat name =>
    refine (seat.resolve_fails v).bind (fun _ _ => ?_)
    exact (orFault_fails ⟨trivial, nofun⟩ _).bind (fun _ _ => .pure)
  | zoneVar zone name =>
    refine (zone.resolve_fails v).bind (fun _ _ => ?_)
    exact (orFault_fails ⟨trivial, nofun⟩ _).bind (fun _ _ => .pure)
  | tokenProp token prop =>
    refine (v.token_fails token).bind (fun _ _ => ?_)
    refine (orFault_fails ⟨trivial, nofun⟩ _).bind (fun _ _ => ?_)
    exact (orFault_fails ⟨trivial, nofun⟩ _).bind (fun _ _ => .pure)
  | constant name => exact (orFault_fails ⟨trivial, nofun⟩ _).bind (fun _ _ => .pure)
  | activeSeat => trivial
  | actor => trivial
  | turnCount => trivial
  | currentPhase => trivial
  | tokenCount zone => exact (zone.resolve_fails v).bind (fun _ _ => .pure)
  | marker space name =>
    refine (space.resolve_fails v).bind (fun _ _ => ?_)
    exact (State.marker_fails v _ _ _ _ _).bind (fun _ _ => .pure)
  | tableEntry table key field =>
    refine (key.eval_fails v).bind (fun _ _ => ?_)
    refine (orFault_fails ⟨trivial, nofun⟩ _).bind (fun _ _ => ?_)
    refine (TableIndex.row_fails v _ _ _ _ _).bind (fun _ _ => ?_)
    exact (orFault_fails ⟨trivial, nofun⟩ _).bind (fun _ _ => .pure)

/-- How an expression fails. -/
theorem Expr.eval_fails (e : Expr) (v : View) : Fails (v.Faults e.names) (e.eval v) := by
  cases e with
  | int n => trivial
  | bool b => trivial
  | str s => trivial
  | ref r => exact r.eval_fails v
  | arith op left right =>
    rw [Expr.eval, Expr.names]
    refine (left.eval_fails v).left.bind (fun _ _ => ?_)
    refine (Expr.expectInt_fails v _ _ _).bind (fun _ _ => ?_)
    refine (right.eval_fails v).right.bind (fun _ _ => ?_)
    refine (Expr.expectInt_fails v _ _ _).bind (fun _ _ => ?_)
    exact (ArithOp.apply_fails v _ _ _ _).bind (fun _ _ => .pure)
  | aggregate op query bind value =>
    rw [Expr.eval, Expr.names]
    refine (query.collect_fails v).left.bind (fun members _ => ?_)
    split
    · exact .pure
    · refine Fails.bind (Fails.foldlM (fun acc item => ?_) _ _) (fun _ _ => .pure)
      cases value with
      | none =>
        refine (orFault_fails ⟨trivial, nofun⟩ _).bind (fun _ _ => ?_)
        exact (AggregateOp.step_fails v _ _ _ _).bind (fun _ _ => .pure)
      | some e =>
        rw [Expr.namesOf]
        have hitem : Fails (v.Faults (namesBut bind e.names)) (e.eval (v.bind bind item)) :=
          (e.eval_fails (v.bind bind item)).mono (fun _ h => h.unbind)
        refine hitem.right.bind (fun _ _ => ?_)
        refine (Expr.expectInt_fails v _ _ _).bind (fun _ _ => ?_)
        exact (AggregateOp.step_fails v _ _ _ _).bind (fun _ _ => .pure)
  | ifThenElse when yes no =>
    rw [Expr.eval, Expr.names]
    refine (when.eval_fails v).left.bind (fun holds _ => ?_)
    cases holds with
    | true => exact (yes.eval_fails v).left.right
    | false => exact (no.eval_fails v).right.right

/-- How a condition fails. -/
theorem Cond.eval_fails (c : Cond) (v : View) : Fails (v.Faults c.names) (c.eval v) := by
  cases c with
  | const b => trivial
  | and parts => exact Cond.evalAll_fails parts v
  | or parts => exact Cond.evalAny_fails parts v
  | not part => exact (part.eval_fails v).bind (fun _ _ => .pure)
  | compare op left right =>
    rw [Cond.eval, Cond.names]
    refine (left.eval_fails v).left.bind (fun _ _ => ?_)
    exact (right.eval_fails v).right.bind (fun _ _ => CompareOp.apply_fails v _ _ _ _)
  | mem item set =>
    rw [Cond.eval, Cond.names]
    refine (item.eval_fails v).left.bind (fun _ _ => ?_)
    exact (set.collect_fails v).right.bind (fun _ _ => .pure)
  | adjacent source target =>
    rw [Cond.eval, Cond.names]
    refine (source.resolve_fails v).left.bind (fun _ _ => ?_)
    exact (target.resolve_fails v).right.bind (fun _ _ => .pure)
  | tokenInZone token zone =>
    rw [Cond.eval, Cond.names, ← List.singleton_append]
    refine (v.token_fails token).left.bind (fun _ _ => ?_)
    exact (zone.resolve_fails v).right.bind (fun _ _ => .pure)
  | truthy value => exact (value.eval_fails v).bind (fun _ _ => Value.truth_fails v _ _)

/-- How several conditions fail that are to hold together. -/
theorem Cond.evalAll_fails (cs : List Cond) (v : View) :
    Fails (v.Faults (Cond.namesAll cs)) (Cond.evalAll cs v) := by
  cases cs with
  | nil => trivial
  | cons c cs =>
    rw [Cond.evalAll, Cond.namesAll]
    refine (c.eval_fails v).left.bind (fun holds _ => ?_)
    cases holds with
    | true => exact (Cond.evalAll_fails cs v).right
    | false => exact .pure

/-- How several conditions fail of which one is to hold. -/
theorem Cond.evalAny_fails (cs : List Cond) (v : View) :
    Fails (v.Faults (Cond.namesAll cs)) (Cond.evalAny cs v) := by
  cases cs with
  | nil => trivial
  | cons c cs =>
    rw [Cond.evalAny, Cond.namesAll]
    refine (c.eval_fails v).left.bind (fun holds _ => ?_)
    cases holds with
    | true => exact .pure
    | false => exact (Cond.evalAny_fails cs v).right

/-- How a filter fails. -/
theorem Filter.keeps_fails (f : Filter) (v : View) (item : Value) :
    Fails (v.Faults f.names) (f.keeps v item) := by
  cases f with
  | all => trivial
  | satisfying bind condition =>
    rw [Filter.keeps, Filter.names]
    exact (condition.eval_fails (v.bind bind item)).mono (fun _ h => h.unbind)

/-- How a query fails. -/
theorem Query.collect_fails (q : Query) (v : View) : Fails (v.Faults q.names) (q.collect v) := by
  cases q with
  | tokensInZone zone filter =>
    rw [Query.collect, Query.names]
    refine (zone.resolve_fails v).left.bind (fun _ _ => ?_)
    exact keepM_fails (fun item => (filter.keeps_fails v item).right) _
  | zones category filter =>
    rw [Query.collect, Query.names]
    exact keepM_fails (fun item => filter.keeps_fails v item) _
  | adjacentZones zone filter =>
    rw [Query.collect, Query.names]
    refine (zone.resolve_fails v).left.bind (fun _ _ => ?_)
    exact keepM_fails (fun item => (filter.keeps_fails v item).right) _
  | intRange min max =>
    rw [Query.collect, Query.names]
    refine (min.eval_fails v).left.bind (fun _ _ => ?_)
    refine (Expr.expectInt_fails v _ _ _).bind (fun _ _ => ?_)
    refine (max.eval_fails v).right.bind (fun _ _ => ?_)
    exact (Expr.expectInt_fails v _ _ _).bind (fun _ _ => intRange_fails v _ _ _)
  | enums names => trivial
  | seats => trivial
  | binding name =>
    rw [Query.collect, Query.names]
    refine (v.lookup_fails name).bind (fun x _ => ?_)
    split <;> exact .pure
  | tableColumn table field =>
    exact (orFault_fails ⟨trivial, nofun⟩ _).bind (fun _ _ => .pure)
  | concat parts =>
    rw [Query.collect, Query.names]
    exact Query.collectAll_fails parts v

/-- How several queries fail. -/
theorem Query.collectAll_fails (qs : List Query) (v : View) :
    Fails (v.Faults (Query.namesAll qs)) (Query.collectAll qs v) := by
  cases qs with
  | nil => trivial
  | cons q qs =>
    rw [Query.collectAll, Query.namesAll]
    refine (q.collect_fails v).left.bind (fun _ _ => ?_)
    exact (Query.collectAll_fails qs v).right.bind (fun _ _ => .pure)

end

section

variable (v : View)

/-- An integer expression fails with faults of the names that it reads. -/
theorem Expr.evalInt_fails (e : Expr) : Fails (v.Faults e.names) (e.evalInt v) :=
  (e.eval_fails v).bind (fun _ _ => Expr.expectInt_fails v _ _ _)

/-- A query fails with faults of the names that it reads. -/
theorem Query.eval_fails (q : Query) : Fails (v.Faults q.names) (q.eval v) :=
  (q.collect_fails v).bind (fun _ _ => .pure)

end

end Tabletop
