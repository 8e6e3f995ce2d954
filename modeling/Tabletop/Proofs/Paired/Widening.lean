import Tabletop.Proofs.Paired.Basic

/-!
# More names in scope, more leeway, another fingerprint

A widening says what one run has that another lacks: names that come in below all others, a larger
budget, perhaps a trace, and other fingerprints in its states.  Rules never ask whether a name is
free except to ask for a selection, and they never read a fingerprint; so whatever could be
evaluated has the same value afterwards.

Main statements: `Expr.eval_stays`, `Cond.eval_stays` and `Query.eval_stays`.
-/

namespace Tabletop

/-- Leaving a budget as it is makes it no smaller. -/
theorem Widening.le_id (n : UInt32) : n.toNat ≤ (id n).toNat := Nat.le_refl _

/-- What one run has that another lacks. -/
structure Widening where
  /-- The names that come in below all others. -/
  params : Bindings := ∅
  /-- What becomes of fingerprints. -/
  fingerprint : UInt64 → UInt64 := id
  /-- What becomes of the number of operations. -/
  maxOps : UInt32 → UInt32 := id
  /-- What becomes of the number of transitions. -/
  maxTransitions : UInt32 → UInt32 := id
  /-- Whether a trace is kept. -/
  tracing : Bool → Bool := id
  maxOps_le : ∀ n, n.toNat ≤ (maxOps n).toNat := by exact Widening.le_id
  maxTransitions_le : ∀ n, n.toNat ≤ (maxTransitions n).toNat := by exact Widening.le_id

namespace Widening

variable (w : Widening)

/-- The state with the other fingerprint. -/
def state (s : State) : State := { s with fingerprint := w.fingerprint s.fingerprint }

/-- The widening without the names. -/
def bare : Widening := { w with params := ∅ }

/-- The second bindings are the first with the additional names below them. -/
def Below (b b' : Bindings) : Prop := ∀ name, b'.get? name = (b.get? name).or (w.params.get? name)

/-- The view with the other fingerprint and other bindings. -/
def view (v : View) (b' : Bindings) : View := { v with state := w.state v.state, bindings := b' }

/-! ## What a widened state still says -/

section state

variable (s : State)

/-- The fingerprint is not among the tokens. -/
@[simp] theorem state_store : (w.state s).store = s.store := rfl

/-- The fingerprint does not tell who is active. -/
@[simp] theorem state_active : (w.state s).active = s.active := rfl

/-- The fingerprint is no part of the turn order. -/
@[simp] theorem state_order : (w.state s).order = s.order := rfl

/-- The fingerprint is no part of the random numbers. -/
@[simp] theorem state_random : (w.state s).random = s.random := rfl

end state

/-! ## Bindings -/

variable {w}

namespace Below

variable {b b' : Bindings}

/-- A name that is bound has the same value when names come in below. -/
theorem get?_of_some (h : w.Below b b') {name : String} {x : Value} (hx : b.get? name = some x) :
    b'.get? name = some x := by
  rw [h name, hx]
  rfl

/-- A name that is free has the value that comes in below, if one does. -/
theorem get?_of_none (h : w.Below b b') {name : String} (hx : b.get? name = none) :
    b'.get? name = w.params.get? name := by
  rw [h name, hx]
  rfl

/-- What was bound is bound to the same. -/
theorem orFault_stays (h : w.Below b b') (name : String) (fault : Fault) :
    Stays (orFault (b.get? name) fault) (orFault (b'.get? name) fault) := by
  cases hx : b.get? name with
  | none => exact .fault
  | some x =>
    rw [h.get?_of_some hx]
    exact .refl _

/-- What is bound in both hides what is below. -/
theorem bind (h : w.Below b b') (name : String) (x : Value) :
    w.Below (b.bind name x) (b'.bind name x) := by
  intro other
  have hother := h other
  simp only [Bindings.get?, Bindings.bind, List.lookup_cons] at hother ⊢
  by_cases hname : other = name
  · simp [hname]
  · simp [beq_eq_false_iff_ne.2 hname, hother]

/-- What a choice binds, it binds in both. -/
theorem bindChoice (h : w.Below b b') (bind name : String) (x : Value) :
    w.Below (b.bindChoice bind name x) (b'.bindChoice bind name x) := by
  unfold Bindings.bindChoice
  split
  · exact h.bind name x
  · exact (h.bind bind x).bind name x

end Below

/-- Without additional names, bindings are widened to themselves. -/
theorem below_self (hw : w.params = ∅) (b : Bindings) : w.Below b b := by
  intro name
  rw [hw]
  cases b.get? name <;> rfl

/-- Without additional names all bindings are as they were. -/
theorem bare_below_self (b : Bindings) : w.bare.Below b b := below_self rfl b

end Widening

/-! ## References -/

namespace View

variable {w : Widening} {v : View} {b' : Bindings}

/-- A name that is bound has the same value in a wider view. -/
theorem lookup_stays (h : w.Below v.bindings b') (name : String) :
    Stays (v.lookup name) ((w.view v b').lookup name) :=
  h.orFault_stays name _

/-- A token is found under the same name in a wider view. -/
theorem token_stays (h : w.Below v.bindings b') (name : String) :
    Stays (v.token name) ((w.view v b').token name) :=
  (lookup_stays h name).bind (fun _ => .refl _)

end View

section resolve

variable {w : Widening} {v : View} {b' : Bindings}

/-- A reference means the same seat in a wider view. -/
theorem SeatRef.resolve_stays (r : SeatRef) (h : w.Below v.bindings b') :
    Stays (r.resolve v) (r.resolve (w.view v b')) := by
  cases r with
  | active => exact .refl _
  | actor => exact .refl _
  | id seat => exact .refl _
  | binding name => exact (View.lookup_stays h name).bind (fun _ => .refl _)

/-- A reference means the same zone id in a wider view. -/
theorem ZoneRef.id?_stays (r : ZoneRef) (h : w.Below v.bindings b') :
    Stays (r.id? v) (r.id? (w.view v b')) := by
  cases r with
  | id zone => exact .refl _
  | binding name => exact (View.lookup_stays h name).bind (fun _ => .refl _)
  | owned base owner => exact (owner.resolve_stays h).bind (fun _ => .refl _)

/-- A reference means the same zone in a wider view. -/
theorem ZoneRef.resolve_stays (r : ZoneRef) (h : w.Below v.bindings b') :
    Stays (r.resolve v) (r.resolve (w.view v b')) :=
  (r.id?_stays h).bind (fun _ => .refl _)

/-- Items are kept as before if they are tested as before. -/
theorem keepM_stays {α : Type} {test test' : α → Result Bool} (h : ∀ x, Stays (test x) (test' x)) :
    ∀ xs, Stays (keepM test xs) (keepM test' xs)
  | [] => .refl _
  | x :: xs => (h x).bind (fun _ => (keepM_stays h xs).bind (fun _ => .refl _))

end resolve

/-! ## Evaluation -/

mutual

/-- A reference keeps its value. -/
theorem Ref.eval_stays {w : Widening} (r : Ref) {v : View} {b' : Bindings}
    (h : w.Below v.bindings b') : Stays (r.eval v) (r.eval (w.view v b')) := by
  cases r with
  | binding name => exact View.lookup_stays h name
  | globalVar name => exact .refl _
  | seatVar seat name => exact (seat.resolve_stays h).bind (fun _ => .refl _)
  | zoneVar zone name => exact (zone.resolve_stays h).bind (fun _ => .refl _)
  | tokenProp token prop => exact (View.token_stays h token).bind (fun _ => .refl _)
  | constant name => exact .refl _
  | activeSeat => exact .refl _
  | actor => exact .refl _
  | turnCount => exact .refl _
  | currentPhase => exact .refl _
  | tokenCount zone => exact (zone.resolve_stays h).bind (fun _ => .refl _)
  | marker space name => exact (space.resolve_stays h).bind (fun _ => .refl _)
  | tableEntry table key field => exact (key.eval_stays h).bind (fun _ => .refl _)

/-- An expression keeps its value. -/
theorem Expr.eval_stays {w : Widening} (e : Expr) {v : View} {b' : Bindings}
    (h : w.Below v.bindings b') : Stays (e.eval v) (e.eval (w.view v b')) := by
  cases e with
  | int n => exact .refl _
  | bool b => exact .refl _
  | str s => exact .refl _
  | ref r => exact r.eval_stays h
  | arith op left right =>
    rw [Expr.eval, Expr.eval]
    refine (left.eval_stays h).bind (fun _ => Stays.bind (.refl _) (fun _ => ?_))
    exact (right.eval_stays h).bind (fun _ => .refl _)
  | aggregate op query bind value =>
    rw [Expr.eval, Expr.eval]
    refine (query.collect_stays h).bind (fun members => ?_)
    split
    · exact .refl _
    · refine Stays.bind (Paired.foldlM ?_ _ rfl) (fun _ => .refl _)
      rintro item acc _ rfl
      cases value with
      | none => exact Stays.refl _
      | some e =>
        exact (e.eval_stays (v := v.bind bind item) (h.bind bind item)).bind (fun _ => .refl _)
  | ifThenElse when yes no =>
    rw [Expr.eval, Expr.eval]
    refine (when.eval_stays h).bind (fun holds => ?_)
    cases holds
    · exact no.eval_stays h
    · exact yes.eval_stays h

/-- A condition holds as before. -/
theorem Cond.eval_stays {w : Widening} (c : Cond) {v : View} {b' : Bindings}
    (h : w.Below v.bindings b') : Stays (c.eval v) (c.eval (w.view v b')) := by
  cases c with
  | const b => exact .refl _
  | and parts => exact Cond.evalAll_stays parts h
  | or parts => exact Cond.evalAny_stays parts h
  | not part => exact (part.eval_stays h).bind (fun _ => .refl _)
  | compare op left right =>
    exact (left.eval_stays h).bind (fun _ => (right.eval_stays h).bind (fun _ => .refl _))
  | mem item set =>
    exact (item.eval_stays h).bind (fun _ => (set.collect_stays h).bind (fun _ => .refl _))
  | adjacent source target =>
    exact (source.resolve_stays h).bind (fun _ => (target.resolve_stays h).bind (fun _ => .refl _))
  | tokenInZone token zone =>
    exact (View.token_stays h token).bind (fun _ => (zone.resolve_stays h).bind (fun _ => .refl _))
  | truthy value => exact (value.eval_stays h).bind (fun _ => .refl _)

/-- Conditions hold together as before. -/
theorem Cond.evalAll_stays {w : Widening} (cs : List Cond) {v : View} {b' : Bindings}
    (h : w.Below v.bindings b') : Stays (Cond.evalAll cs v) (Cond.evalAll cs (w.view v b')) := by
  cases cs with
  | nil => exact .refl _
  | cons c cs =>
    rw [Cond.evalAll, Cond.evalAll]
    refine (c.eval_stays h).bind (fun holds => ?_)
    cases holds
    · exact .refl _
    · exact Cond.evalAll_stays cs h

/-- One of several conditions holds as before. -/
theorem Cond.evalAny_stays {w : Widening} (cs : List Cond) {v : View} {b' : Bindings}
    (h : w.Below v.bindings b') : Stays (Cond.evalAny cs v) (Cond.evalAny cs (w.view v b')) := by
  cases cs with
  | nil => exact .refl _
  | cons c cs =>
    rw [Cond.evalAny, Cond.evalAny]
    refine (c.eval_stays h).bind (fun holds => ?_)
    cases holds
    · exact Cond.evalAny_stays cs h
    · exact .refl _

/-- A filter keeps what it kept. -/
theorem Filter.keeps_stays {w : Widening} (f : Filter) {v : View} {b' : Bindings}
    (h : w.Below v.bindings b') (item : Value) :
    Stays (f.keeps v item) (f.keeps (w.view v b') item) := by
  cases f with
  | all => exact .refl _
  | satisfying bind condition =>
    rw [Filter.keeps, Filter.keeps]
    exact condition.eval_stays (v := v.bind bind item) (h.bind bind item)

/-- A query finds what it found. -/
theorem Query.collect_stays {w : Widening} (q : Query) {v : View} {b' : Bindings}
    (h : w.Below v.bindings b') : Stays (q.collect v) (q.collect (w.view v b')) := by
  cases q with
  | tokensInZone zone filter =>
    rw [Query.collect, Query.collect]
    exact (zone.resolve_stays h).bind
      (fun _ => keepM_stays (fun item => filter.keeps_stays h item) _)
  | zones category filter =>
    rw [Query.collect, Query.collect]
    exact keepM_stays (fun item => filter.keeps_stays h item) _
  | adjacentZones zone filter =>
    rw [Query.collect, Query.collect]
    exact (zone.resolve_stays h).bind
      (fun _ => keepM_stays (fun item => filter.keeps_stays h item) _)
  | intRange min max =>
    rw [Query.collect, Query.collect]
    refine (min.eval_stays h).bind (fun _ => Stays.bind (.refl _) (fun _ => ?_))
    exact (max.eval_stays h).bind (fun _ => .refl _)
  | enums names => exact .refl _
  | seats => exact .refl _
  | binding name =>
    rw [Query.collect, Query.collect]
    exact (View.lookup_stays h name).bind (fun _ => .refl _)
  | tableColumn table field => exact .refl _
  | concat parts =>
    rw [Query.collect, Query.collect]
    exact Query.collectAll_stays parts h

/-- Queries find what they found. -/
theorem Query.collectAll_stays {w : Widening} (qs : List Query) {v : View} {b' : Bindings}
    (h : w.Below v.bindings b') :
    Stays (Query.collectAll qs v) (Query.collectAll qs (w.view v b')) := by
  cases qs with
  | nil => exact .refl _
  | cons q qs =>
    rw [Query.collectAll, Query.collectAll]
    exact (q.collect_stays h).bind (fun _ => (Query.collectAll_stays qs h).bind (fun _ => .refl _))

end

section

variable {w : Widening} {v : View} {b' : Bindings}

/-- An expression keeps its integer. -/
theorem Expr.evalInt_stays (e : Expr) (h : w.Below v.bindings b') :
    Stays (e.evalInt v) (e.evalInt (w.view v b')) :=
  (e.eval_stays h).bind (fun _ => .refl _)

/-- A condition that need not be there holds as before. -/
theorem holdsIn_stays (name : Predicate) (condition : Option Cond) (h : w.Below v.bindings b') :
    Stays (holdsIn name condition v) (holdsIn name condition (w.view v b')) := by
  cases condition with
  | none => exact .refl _
  | some c => exact .inPredicate name (c.eval_stays h)

/-- A query yields what it yielded. -/
theorem Query.eval_stays (q : Query) (h : w.Below v.bindings b') :
    Stays (q.eval v) (q.eval (w.view v b')) :=
  (q.collect_stays h).bind (fun _ => .refl _)

end

end Tabletop
