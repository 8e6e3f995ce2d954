import Mathlib.Data.List.Nodup
import Tabletop.Proofs.Expr.Unbounded

/-!
# Integers never wrap

Evaluation with integers of 64 bits comes to the same as evaluation over all integers, up to the
first calculation that such integers do not allow; there it ends, with a fault that names the
calculation.

What has to be shown of each step is that it `Agrees` with its counterpart over all integers, and
`Reckoning.Agrees.bind` puts steps together: a calculation that fails ends both, and otherwise the
next step starts from the same values.

Main statement: `View.evaluates_exactly`.
-/

namespace Tabletop

/-! ## Agreement -/

namespace Reckoning

variable {α β α' β' : Type}

/-- A calculation that is not allowed stays the first one whatever comes after it. -/
theorem failure?_bind_of_some {c : Reckoning α} {step : Calculation} (h : c.failure? = some step)
    (f : α → Reckoning β) : (c >>= f).failure? = some step := by
  change (Reckoning.bind c f).failure? = some step
  unfold Reckoning.bind
  cases c.outcome with
  | ok x => rw [failure?, List.find?_append, ← failure?, h, Option.some_or]
  | error fault => exact h

/-- Where all calculations so far are allowed, the first one that is not comes from what follows. -/
theorem failure?_bind_of_none {c : Reckoning α} {x : α} (h : c.failure? = none)
    (hx : c.outcome = .ok x) (f : α → Reckoning β) : (c >>= f).failure? = (f x).failure? := by
  change (Reckoning.bind c f).failure? = (f x).failure?
  unfold Reckoning.bind
  rw [hx]
  dsimp only
  rw [failure?, List.find?_append, ← failure?, h, Option.none_or, failure?]

/-- A reckoning with a calculation that is not allowed ends with the fault of that calculation. -/
theorem checked_of_some {c : Reckoning α} {step : Calculation} (h : c.failure? = some step) :
    c.checked = .error (.arithmetic step.fault) := by rw [checked, h]

/-- A reckoning whose calculations are all allowed ends with its outcome. -/
theorem checked_of_none {c : Reckoning α} (h : c.failure? = none) :
    c.checked = c.outcome.mapError Subtype.val := by rw [checked, h]

/-- A reckoning whose calculations are all allowed and that comes to a value goes on with it. -/
theorem checked_bind_of_ok {c : Reckoning α} {x : α} (h : c.failure? = none)
    (hx : c.outcome = .ok x) (f : α → Reckoning β) : (c >>= f).checked = (f x).checked := by
  have houtcome : (c >>= f).outcome = (f x).outcome := by
    change (Reckoning.bind c f).outcome = (f x).outcome
    rw [Reckoning.bind, hx]
  rw [checked, checked, failure?_bind_of_none h hx, houtcome]

/-- A reckoning whose calculations are all allowed and that fails ends with its fault. -/
theorem checked_bind_of_error {c : Reckoning α} {fault : { fault : Fault // fault.NotArithmetic }}
    (h : c.failure? = none) (hx : c.outcome = .error fault) (f : α → Reckoning β) :
    (c >>= f).checked = .error fault.val := by
  have hbind : c >>= f = ⟨c.steps, .error fault⟩ := by
    change Reckoning.bind c f = _
    rw [Reckoning.bind, hx]
  rw [hbind]
  exact (checked_of_none (c := ⟨c.steps, .error fault⟩) h).trans rfl

/-- A computation with integers of 64 bits comes to the same as a reckoning, its values being taken
among all integers. -/
def Agrees (c : Reckoning α') (widen : α → α') (r : Result α) : Prop :=
  c.Counted → c.checked = r.map widen

/-- A computation whose result holds no integers comes to the same as a reckoning. -/
abbrev Matches (c : Reckoning α) (r : Result α) : Prop := c.Agrees id r

namespace Agrees

variable {widen : α → α'} {widen' : β → β'}

/-- A value without calculations agrees with itself. -/
theorem pure (x : α) : (Pure.pure (widen x) : Reckoning α').Agrees widen (.ok x) := fun _ => rfl

/-- A value agrees with the one that it is among all integers. -/
theorem of_eq {x : α} {y : α'} (h : y = widen x) :
    (Pure.pure y : Reckoning α').Agrees widen (.ok x) := by
  rw [h]
  exact .pure x

/-- What agrees step by step agrees as a whole. -/
theorem bind {c : Reckoning α'} {r : Result α} {f : α' → Reckoning β'} {g : α → Result β}
    (h : c.Agrees widen r) (hfg : ∀ x, (f (widen x)).Agrees widen' (g x)) :
    (c >>= f).Agrees widen' (r >>= g) := by
  intro hcounted
  have hc : c.Counted := fun n hn => hcounted n (failure?_bind_of_some hn f)
  have hr := h hc
  cases hfailure : c.failure? with
  | some step =>
    rw [checked_of_some (failure?_bind_of_some hfailure f)]
    rw [checked_of_some hfailure] at hr
    cases r with
    | ok x => cases hr
    | error fault =>
      cases hr
      rfl
  | none =>
    rw [checked_of_none hfailure] at hr
    cases houtcome : c.outcome with
    | error fault =>
      rw [checked_bind_of_error hfailure houtcome]
      rw [houtcome] at hr
      cases r with
      | ok x => cases hr
      | error fault' =>
        cases hr
        rfl
    | ok y =>
      rw [checked_bind_of_ok hfailure houtcome]
      rw [houtcome] at hr
      cases r with
      | error fault => cases hr
      | ok x =>
        cases hr
        refine hfg x fun n hn => hcounted n ?_
        rwa [failure?_bind_of_none hfailure houtcome]

/-- Reckonings that agree still do after their values have been put into another form. -/
theorem map {c : Reckoning α'} {r : Result α} {f : α' → β'} {g : α → β} (h : c.Agrees widen r)
    (hfg : ∀ x, f (widen x) = widen' (g x)) :
    (c >>= fun x => Pure.pure (f x)).Agrees widen' (r >>= fun x => Pure.pure (g x)) :=
  h.bind fun x => by
    rw [hfg]
    exact .pure (g x)

/-- A reckoning that depends on a test agrees if both of its branches do. -/
theorem ite {p : Prop} [Decidable p] {c c' : Reckoning α'} {r r' : Result α}
    (h : c.Agrees widen r) (h' : c'.Agrees widen r') :
    (if p then c else c').Agrees widen (if p then r else r') := by
  by_cases hp : p
  · rwa [if_pos hp, if_pos hp]
  · rwa [if_neg hp, if_neg hp]

/-- What does no arithmetic agrees with itself. -/
theorem given (r : Result α) (h : Fails Fault.NotArithmetic r) :
    (Reckoning.given r h).Matches r := by
  intro _
  cases r <;> rfl

/-- The same is missing, and reported alike. -/
theorem need {x : Option α} {y : Option α'} {fault fault' : Fault} {h : fault'.NotArithmetic}
    (hvalue : y = x.map widen) (hfault : fault' = fault) :
    (Reckoning.need y fault' h).Agrees widen (orFault x fault) := by
  subst hvalue hfault
  intro _
  cases x <;> rfl

/-- A demand that depends on a test agrees with the same test. -/
theorem needIf {p : Prop} [Decidable p] {x : α} {fault : Fault} {h : fault.NotArithmetic} :
    (Reckoning.need (if p then some x else none) fault h).Matches
      (if p then .ok x else .error fault) := by
  by_cases hp : p
  · simp only [if_pos hp]
    exact fun _ => rfl
  · simp only [if_neg hp]
    exact fun _ => rfl

/-- Items that are tested in order are kept alike if every test agrees. -/
theorem keep {test : α → Result Bool} {test' : α' → Reckoning Bool}
    (h : ∀ x, (test' (widen x)).Matches (test x)) :
    ∀ xs : List α, (Reckoning.keep test' (xs.map widen)).Agrees (List.map widen) (keepM test xs)
  | [] => fun _ => rfl
  | x :: xs => by
    refine (h x).bind fun kept => (keep h xs).map fun rest => ?_
    cases kept <;> rfl

/-- A fold agrees if each of its steps does. -/
theorem foldlM {step : β → α → Result β} {step' : β' → α' → Reckoning β'}
    (h : ∀ acc x, (step' (widen' acc) (widen x)).Agrees widen' (step acc x)) :
    ∀ (xs : List α) (acc : β),
      ((xs.map widen).foldlM step' (widen' acc)).Agrees widen' (xs.foldlM step acc)
  | [], acc => .pure acc
  | x :: xs, acc => by
    rw [List.map_cons, List.foldlM_cons, List.foldlM_cons]
    exact (h acc x).bind fun acc' => foldlM h xs acc'

end Agrees

end Reckoning

/-! ## Arithmetic -/

/-- An integer within the bounds of 64 bits is kept as it is. -/
theorem fit?_of_mem {n : Int} (hlo : Int64.minValue.toInt ≤ n) (hhi : n ≤ Int64.maxValue.toInt) :
    fit? n = some (Int64.ofInt n) ∧ (Int64.ofInt n).toInt = n := by
  refine ⟨if_pos ⟨hlo, hhi⟩, Int64.toInt_ofInt_of_le ?_ ?_⟩
  · rwa [Int64.toInt_minValue] at hlo
  · rw [Int64.toInt_maxValue] at hhi
    omega

/-- A calculation is not allowed exactly if it divides by zero or its exact result has more than 64
bits. -/
theorem Calculation.fails_arith_iff {op : ArithOp} {l r : Int} :
    (arith op l r).fails = true ↔ (op = .div ∧ r = 0) ∨
      ¬(Int64.minValue.toInt ≤ op.exact l r ∧ op.exact l r ≤ Int64.maxValue.toInt) := by
  rw [fails, decide_eq_true_eq, Classical.not_and_iff_not_or_not, Int.not_le, Int.not_le]

namespace Reckoning.Agrees

variable {α α' : Type} {widen : α → α'}

/-- A calculation that is not allowed ends a computation, and is otherwise done. -/
theorem noted {step : Calculation} {y : α'} {r : Result α}
    (hfails : step.fails = true → (∃ n, step = .count n) ∨ r = .error (.arithmetic step.fault))
    (hdone : step.fails = false → r.map widen = .ok y) :
    (Reckoning.noted step y).Agrees widen r := by
  intro hcounted
  cases hstep : step.fails with
  | false =>
    have hfailure : (Reckoning.noted step y).failure? = none :=
      List.find?_cons_of_neg (by simp [hstep])
    rw [checked_of_none hfailure, hdone hstep]
    rfl
  | true =>
    have hfailure : (Reckoning.noted step y).failure? = some step := List.find?_cons_of_pos hstep
    rcases hfails hstep with ⟨n, rfl⟩ | rfl
    · exact absurd hfailure (hcounted n)
    · exact checked_of_some hfailure

/-- A calculation that is noted, and allowed or not, agrees with the operator on 64 bits. -/
theorem notedArith (op : ArithOp) (l r : Int64) :
    (Reckoning.noted (.arith op l.toInt r.toInt) (op.exact l.toInt r.toInt)).Agrees Int64.toInt
      (op.apply l r) := by
  have hzero : r.toInt = 0 ↔ r = 0 := Int64.toInt_inj (y := 0)
  refine .noted (fun hfails => .inr ?_) (fun hdone => ?_)
  · simp only [ArithOp.apply, Calculation.fault, hzero, Int64.ofInt_toInt]
    by_cases hdiv : op = .div ∧ r = 0
    · rw [if_pos hdiv, if_pos hdiv]
    · rw [if_neg hdiv, if_neg hdiv, fit?, if_neg]
      · rfl
      · exact (Calculation.fails_arith_iff.1 hfails).resolve_left (by rwa [hzero])
  · have hallowed := mt Calculation.fails_arith_iff.2 (by rw [hdone]; exact Bool.false_ne_true)
    rw [not_or, not_not, hzero] at hallowed
    obtain ⟨hfit, hexact⟩ := fit?_of_mem hallowed.2.1 hallowed.2.2
    rw [ArithOp.apply, if_neg hallowed.1, hfit]
    exact congrArg Except.ok hexact

/-- The smaller of two integers is one of 64 bits if they are, and so is the greater. -/
theorem arith (op : ArithOp) (l r : Int64) :
    (Reckoning.arith op l.toInt r.toInt).Agrees Int64.toInt (op.apply l r) := by
  have hchoice : op.exact l.toInt r.toInt = l.toInt ∨ op.exact l.toInt r.toInt = r.toInt →
      op ≠ .div → (Pure.pure (op.exact l.toInt r.toInt) : Reckoning Int).Agrees Int64.toInt
        (op.apply l r) := by
    intro hexact hdiv _
    have hl := And.intro l.minValue_le_toInt l.toInt_le
    have hr := And.intro r.minValue_le_toInt r.toInt_le
    obtain ⟨hfit, hsame⟩ := fit?_of_mem (n := op.exact l.toInt r.toInt) (by omega) (by omega)
    rw [ArithOp.apply, if_neg (fun h => hdiv h.1), hfit]
    exact congrArg Except.ok hsame.symm
  cases op with
  | min => exact hchoice (by rw [ArithOp.exact]; omega) nofun
  | max => exact hchoice (by rw [ArithOp.exact]; omega) nofun
  | add => exact notedArith .add l r
  | sub => exact notedArith .sub l r
  | mul => exact notedArith .mul l r
  | div => exact notedArith .div l r

/-- A list that is counted is not too long to be. -/
theorem count (n : Nat) : (Reckoning.count n).Agrees Int64.toInt (.ok (Int64.ofNat n)) := by
  refine .noted (fun _ => .inl ⟨n, rfl⟩) (fun hdone => congrArg Except.ok ?_)
  have hshort : ¬Int64.maxValue.toInt < n := by simpa [Calculation.fails] using hdone
  rw [Int64.toInt_maxValue] at hshort
  exact Int64.toInt_ofNat_of_lt (by omega)

/-- Folding in one more integer agrees with the step of an aggregate. -/
theorem step (op : AggregateOp) (acc : Option Int64) (n : Int64) :
    (op.reckon (acc.map Int64.toInt) n.toInt).Agrees Int64.toInt (op.step acc n) := by
  cases acc with
  | none => exact .pure n
  | some a =>
    cases op with
    | count => exact .pure a
    | sum => exact arith .add a n
    | min => exact arith .min a n
    | max => exact arith .max a n

/-- The integers of a range lie between its bounds, so none wraps. -/
theorem toInt_member {lo hi : Int64} {i : Nat}
    (h : i ∈ List.range (hi.toInt - lo.toInt + 1).toNat) :
    (Int64.ofInt (lo.toInt + i)).toInt = lo.toInt + i := by
  have hmember := List.mem_range.1 h
  have hleast := lo.minValue_le_toInt
  have hgreatest := hi.toInt_le
  exact (fit?_of_mem (by omega) (by omega)).2

/-- A range agrees with the range of integers of 64 bits. -/
theorem range (lo hi : Int64) :
    (Reckoning.range lo.toInt hi.toInt).Agrees (List.map Value.widen) (intRange lo hi) := by
  refine .noted (fun hfails => .inr ?_) (fun hdone => ?_)
  · have hlong : maxRange < hi.toInt - lo.toInt + 1 := by simpa [Calculation.fails] using hfails
    rw [intRange, if_neg (by omega), if_pos hlong, Calculation.fault, Int64.ofInt_toInt,
      Int64.ofInt_toInt]
  · have hshort : ¬maxRange < hi.toInt - lo.toInt + 1 := by simpa [Calculation.fails] using hdone
    rw [intRange]
    by_cases hempty : hi.toInt - lo.toInt + 1 ≤ 0
    · rw [if_pos hempty, Int.toNat_eq_zero.2 hempty]
      rfl
    · rw [if_neg hempty, if_neg hshort]
      refine congrArg Except.ok ((List.map_map ..).trans (List.map_congr_left fun i hi => ?_))
      exact congrArg Wide.int (toInt_member hi)

end Reckoning.Agrees

/-! ## Values -/

section values

variable (x y : Value)

/-- Different scalars stay different among all integers. -/
theorem Wide.ofScalar_injective : Function.Injective Wide.ofScalar := by
  intro x y h
  cases x <;> cases y <;> simp_all [Wide.ofScalar, Int64.toInt_inj]

/-- Different values stay different among all integers. -/
theorem Value.widen_injective : Function.Injective Value.widen := by
  intro x y h
  cases x with
  | scalar x =>
    cases y with
    | scalar y => exact congrArg scalar (Wide.ofScalar_injective h)
    | array ys => cases x <;> cases h
    | token id => cases x <;> cases h
  | array xs =>
    cases y with
    | scalar y => cases y <;> cases h
    | array ys => cases h; rfl
    | token id => cases h
  | token id =>
    cases y with
    | scalar y => cases y <;> cases h
    | array ys => cases h
    | token id => cases h; rfl

/-- A value has the same type among all integers. -/
theorem Value.typeName_widen : x.widen.typeName = x.typeName := by
  rcases x with (_ | _ | _) | _ | _ <;> rfl

/-- The integer of a value is the same among all integers. -/
theorem Value.int?_widen : x.widen.int? = x.int?.map Int64.toInt := by
  rcases x with (_ | _ | _) | _ | _ <;> rfl

/-- The string of a value is the same among all integers. -/
theorem Value.str?_widen : x.widen.str? = x.str? := by
  rcases x with (_ | _ | _) | _ | _ <;> rfl

/-- A value has the same identity among all integers. -/
theorem Value.identity?_widen : x.widen.identity? = x.identity?.map Wide.ofScalar := by
  rcases x with (_ | _ | _) | _ | _ <;> rfl

/-- Among all integers a value is in a table under the same key. -/
theorem Value.key?_widen : x.widen.key? = x.identity? := by
  rcases x with (_ | n | _) | _ | _
  case scalar.int =>
    have hfit := (fit?_of_mem n.minValue_le_toInt n.toInt_le).1
    exact congrArg (Option.map Scalar.int) (hfit.trans (congrArg some n.ofInt_toInt))
  all_goals rfl

/-- Values are the same among all integers exactly if they were. -/
theorem Value.same_widen : x.widen.same y.widen = x.same y := by
  have hwhole : (x.widen == y.widen) = (x == y) := by
    rw [Bool.eq_iff_iff, beq_iff_eq, beq_iff_eq, widen_injective.eq_iff]
  rw [Wide.same, same, identity?_widen, identity?_widen]
  cases x.identity? with
  | none => exact hwhole
  | some a =>
    cases y.identity? with
    | none => exact hwhole
    | some b =>
      change (Wide.ofScalar a == Wide.ofScalar b) = (a == b)
      rw [Bool.eq_iff_iff, beq_iff_eq, beq_iff_eq, Wide.ofScalar_injective.eq_iff]

/-- The number of a seat is small. -/
theorem Value.widen_seat (s : Seat) : (Value.seat s).widen = .int s.toNat := by
  have hindex : s.toNat < 256 := s.index.toNat_lt
  refine congrArg Wide.int (Int64.toInt_ofNat_of_lt ?_)
  omega

/-- A value that must be an integer is found not to be one in the same way. -/
theorem Value.int_agrees (place : Place) :
    (Reckoning.need x.widen.int? (.mismatch "int" x.widen.typeName place) nofun).Agrees Int64.toInt
      (orFault x.int? (.mismatch "int" x.typeName place)) :=
  .need x.int?_widen (by rw [x.typeName_widen])

/-- The truth of a value is the same among all integers. -/
theorem Value.truth_agrees : x.widen.truth.Matches x.truth := by
  rcases x with (b | n | s) | xs | id
  case scalar.int =>
    refine .of_eq ?_
    rw [id, decide_eq_decide, not_iff_not]
    exact Int64.toInt_inj (y := 0)
  case scalar.bool => exact .of_eq rfl
  all_goals exact .given (.error _) _

/-- The same values are found first. -/
theorem Value.firstsBy_widen (xs : List Value) :
    firstsBy Wide.identity? (xs.map Value.widen) = (Value.distinct xs).map Value.widen := by
  rw [Value.distinct_eq_firstsBy]
  exact firstsBy_map Wide.ofScalar_injective Value.identity?_widen xs

end values

/-! ## References -/

section resolve

open Reckoning

variable (v : View)

/-- A name has the same value among all integers. -/
theorem View.lookup_agrees (name : String) :
    (v.widen.lookup name).Agrees Value.widen (v.lookup name) := by
  have hlookup : ∀ entries : List (String × Value),
      (entries.map (fun e => (e.1, e.2.widen))).lookup name =
        (entries.lookup name).map Value.widen := by
    intro entries
    induction entries with
    | nil => rfl
    | cons e entries ih =>
      rw [List.map_cons, List.lookup_cons, List.lookup_cons, ih]
      cases name == e.1 <;> rfl
  exact .need (hlookup v.bindings.entries) rfl

/-- A name is bound to the same token among all integers. -/
theorem View.token_agrees (name : String) : (v.widen.token name).Matches (v.token name) := by
  refine (v.lookup_agrees name).bind fun x => ?_
  rcases x with (b | n | s) | xs | id
  case scalar.str => exact .of_eq rfl
  case token => exact .of_eq rfl
  all_goals exact .given (.error _) _

/-- A reference means the same seat among all integers. -/
theorem SeatRef.resolve_agrees (r : SeatRef) : (r.reckon v.widen).Matches (r.resolve v) := by
  cases r with
  | active => exact .of_eq rfl
  | actor => exact .of_eq rfl
  | id seat =>
    rw [SeatRef.reckon, SeatRef.resolve]
    exact .needIf
  | binding name =>
    refine (v.lookup_agrees name).bind fun x => ?_
    exact (x.int_agrees (.named name)).bind fun index => .given _ _

/-- A reference means the same zone id among all integers. -/
theorem ZoneRef.id?_agrees (r : ZoneRef) : (r.reckonId v.widen).Matches (r.id? v) := by
  cases r with
  | id zone => exact .of_eq rfl
  | binding name =>
    refine (v.lookup_agrees name).bind fun x => ?_
    exact .need (x.str?_widen.trans Option.map_id'.symm) (by rw [x.typeName_widen])
  | owned base owner => exact (owner.resolve_agrees v).map fun _ => rfl

/-- A reference means the same zone among all integers. -/
theorem ZoneRef.resolve_agrees (r : ZoneRef) : (r.reckon v.widen).Matches (r.resolve v) :=
  (r.id?_agrees v).bind fun _ => .needIf

end resolve

/-! ## Evaluation -/

section operators

open Reckoning

/-- A comparison comes out alike among all integers. -/
theorem CompareOp.apply_agrees (op : CompareOp) (l r : Value) :
    (op.reckon l.widen r.widen).Matches (op.apply l r) := by
  have hoperand := fun x : Value => x.int_agrees (.named op.text)
  cases op with
  | eq => exact .of_eq (l.same_widen r)
  | ne => exact .of_eq (congrArg Bool.not (l.same_widen r))
  | lt =>
    refine (hoperand l).bind fun a => (hoperand r).map fun b => ?_
    exact decide_eq_decide.2 Int64.lt_iff_toInt_lt.symm
  | le =>
    refine (hoperand l).bind fun a => (hoperand r).map fun b => ?_
    exact decide_eq_decide.2 Int64.le_iff_toInt_le.symm
  | gt =>
    refine (hoperand l).bind fun a => (hoperand r).map fun b => ?_
    exact decide_eq_decide.2 Int64.lt_iff_toInt_lt.symm
  | ge =>
    refine (hoperand l).bind fun a => (hoperand r).map fun b => ?_
    exact decide_eq_decide.2 Int64.le_iff_toInt_le.symm

/-- What must be an integer is the same integer among all integers. -/
theorem Expr.expectInt_agrees (e : Expr) (x : Value) :
    (e.wideInt x.widen).Agrees Int64.toInt (e.expectInt x) := x.int_agrees (.expression e)

/-- Items are folded, from nothing to a total. -/
theorem Reckoning.Agrees.total {step' : Option Int → Wide → Reckoning (Option Int)}
    {step : Option Int64 → Value → Result (Option Int64)}
    (h : ∀ acc item, (step' (acc.map Int64.toInt) item.widen).Agrees (Option.map Int64.toInt)
      (step acc item))
    (items : List Value) :
    Agrees (do return Wide.int ((← (items.map Value.widen).foldlM step' none).getD 0)) Value.widen
      (do return Value.int ((← items.foldlM step none).getD 0)) := by
  have hfold : Agrees ((items.map Value.widen).foldlM step' (Option.map Int64.toInt none))
      (Option.map Int64.toInt) (items.foldlM step none) := Agrees.foldlM h items none
  refine hfold.map fun total => ?_
  cases total <;> rfl

end operators

section evaluation

open Reckoning

mutual

/-- The value of a reference. -/
theorem Ref.eval_agrees (r : Ref) (v : View) :
    (r.reckon v.widen).Agrees Value.widen (r.eval v) := by
  cases r with
  | binding name => exact v.lookup_agrees name
  | globalVar name => exact (Agrees.given _ _).map fun _ => rfl
  | seatVar seat name =>
    exact (seat.resolve_agrees v).bind fun _ => (Agrees.given _ _).map fun _ => rfl
  | zoneVar zone name =>
    exact (zone.resolve_agrees v).bind fun _ => (Agrees.given _ _).map fun _ => rfl
  | tokenProp token prop =>
    refine (v.token_agrees token).bind fun _ => (Agrees.given _ _).bind fun _ => ?_
    exact (Agrees.given _ _).map fun _ => rfl
  | constant name => exact (Agrees.given _ _).map fun _ => rfl
  | activeSeat => exact .of_eq (Value.widen_seat _).symm
  | actor => exact .of_eq (Value.widen_seat _).symm
  | turnCount =>
    have hturn : v.state.turn.toNat < 2 ^ 32 := v.state.turn.toNat_lt
    have hsmall : v.state.turn.toNat < 2 ^ 63 := by omega
    exact .of_eq (congrArg Wide.int (Int64.toInt_ofNat_of_lt hsmall).symm)
  | currentPhase => exact .of_eq rfl
  | tokenCount zone =>
    exact (zone.resolve_agrees v).bind fun _ => (Agrees.count _).map fun _ => rfl
  | marker space name =>
    exact (space.resolve_agrees v).bind fun _ => (Agrees.given _ _).map fun _ => rfl
  | tableEntry table key field =>
    rw [Ref.reckon, Ref.eval]
    refine (key.eval_agrees v).bind fun x => ?_
    refine Agrees.bind (.need (x.key?_widen.trans Option.map_id'.symm) (by rw [x.typeName_widen]))
      fun _ => ?_
    exact (Agrees.given _ _).bind fun _ => (Agrees.given _ _).map fun _ => rfl

/-- The value of an expression. -/
theorem Expr.eval_agrees (e : Expr) (v : View) :
    (e.reckon v.widen).Agrees Value.widen (e.eval v) := by
  cases e with
  | int n => exact .of_eq rfl
  | bool b => exact .of_eq rfl
  | str s => exact .of_eq rfl
  | ref r => exact r.eval_agrees v
  | arith op left right =>
    rw [Expr.reckon, Expr.eval]
    refine (left.eval_agrees v).bind fun x => (left.expectInt_agrees x).bind fun l => ?_
    refine (right.eval_agrees v).bind fun y => (right.expectInt_agrees y).bind fun r => ?_
    exact (Agrees.arith op l r).map fun _ => rfl
  | aggregate op query bind value =>
    rw [Expr.reckon, Expr.eval]
    refine (query.collect_agrees v).bind fun found => ?_
    rw [Value.firstsBy_widen]
    cases op with
    | count =>
      dsimp only
      rw [List.length_map]
      exact (Agrees.count _).map fun _ => rfl
    | _ =>
      dsimp only
      refine .total (fun acc item => ?_) _
      cases value with
      | none =>
        refine (item.int_agrees (.named "aggregate item")).bind fun n => ?_
        exact (Agrees.step _ acc n).map fun _ => rfl
      | some e =>
        refine (e.eval_agrees (v.bind bind item)).bind fun x =>
          (e.expectInt_agrees x).bind fun n => ?_
        exact (Agrees.step _ acc n).map fun _ => rfl
  | ifThenElse when yes no =>
    rw [Expr.reckon, Expr.eval]
    exact (when.eval_agrees v).bind fun _ => .ite (yes.eval_agrees v) (no.eval_agrees v)

/-- Whether a condition holds. -/
theorem Cond.eval_agrees (c : Cond) (v : View) : (c.reckon v.widen).Matches (c.eval v) := by
  cases c with
  | const b => exact .of_eq rfl
  | and parts => exact Cond.evalAll_agrees parts v
  | or parts => exact Cond.evalAny_agrees parts v
  | not part => exact (part.eval_agrees v).map fun _ => rfl
  | compare op left right =>
    rw [Cond.reckon, Cond.eval]
    exact (left.eval_agrees v).bind fun l => (right.eval_agrees v).bind fun r => op.apply_agrees l r
  | mem item set =>
    rw [Cond.reckon, Cond.eval]
    refine (item.eval_agrees v).bind fun x => (set.collect_agrees v).map fun found => ?_
    rw [Value.firstsBy_widen, List.any_map]
    exact congrArg (Value.distinct found).any (funext fun y => y.same_widen x)
  | adjacent source target =>
    exact (source.resolve_agrees v).bind fun _ => (target.resolve_agrees v).map fun _ => rfl
  | tokenInZone token zone =>
    exact (v.token_agrees token).bind fun _ => (zone.resolve_agrees v).map fun _ => rfl
  | truthy value => exact (value.eval_agrees v).bind fun x => x.truth_agrees

/-- Whether conditions hold together. -/
theorem Cond.evalAll_agrees (cs : List Cond) (v : View) :
    (Cond.reckonAll cs v.widen).Matches (Cond.evalAll cs v) := by
  cases cs with
  | nil => exact .of_eq rfl
  | cons c cs =>
    rw [Cond.reckonAll, Cond.evalAll]
    exact (c.eval_agrees v).bind fun _ => .ite (Cond.evalAll_agrees cs v) (.of_eq rfl)

/-- Whether one of several conditions holds. -/
theorem Cond.evalAny_agrees (cs : List Cond) (v : View) :
    (Cond.reckonAny cs v.widen).Matches (Cond.evalAny cs v) := by
  cases cs with
  | nil => exact .of_eq rfl
  | cons c cs =>
    rw [Cond.reckonAny, Cond.evalAny]
    exact (c.eval_agrees v).bind fun _ => .ite (.of_eq rfl) (Cond.evalAny_agrees cs v)

/-- Whether a filter keeps an item. -/
theorem Filter.keeps_agrees (f : Filter) (v : View) (item : Value) :
    (f.reckon v.widen item.widen).Matches (f.keeps v item) := by
  cases f with
  | all => exact .of_eq rfl
  | satisfying bind condition => exact condition.eval_agrees (v.bind bind item)

/-- What a query collects. -/
theorem Query.collect_agrees (q : Query) (v : View) :
    (q.reckon v.widen).Agrees (List.map Value.widen) (q.collect v) := by
  cases q with
  | tokensInZone zone filter =>
    rw [Query.reckon, Query.collect]
    refine (zone.resolve_agrees v).bind fun zone => ?_
    have hkept := Agrees.keep (filter.keeps_agrees v) ((v.state.store.tokens zone).map Token.value)
    rwa [List.map_map] at hkept
  | zones category filter =>
    rw [Query.reckon, Query.collect]
    have hkept := Agrees.keep (filter.keeps_agrees v) ((v.definition.zones.filter
      (fun z => category.isNone || z.category == category)).map (fun z => Value.str z.id))
    rwa [List.map_map] at hkept
  | adjacentZones zone filter =>
    rw [Query.reckon, Query.collect]
    refine (zone.resolve_agrees v).bind fun zone => ?_
    have hkept :=
      Agrees.keep (filter.keeps_agrees v) ((v.game.adjacency.neighbours zone).map Value.str)
    rwa [List.map_map] at hkept
  | intRange min max =>
    rw [Query.reckon, Query.collect]
    refine (min.eval_agrees v).bind fun x => (min.expectInt_agrees x).bind fun lo => ?_
    exact (max.eval_agrees v).bind fun y => (max.expectInt_agrees y).bind fun hi => .range lo hi
  | enums names => exact .of_eq (by rw [List.map_map]; rfl)
  | seats =>
    refine .of_eq ?_
    rw [List.map_map]
    exact List.map_congr_left fun s _ => (Value.widen_seat s).symm
  | binding name =>
    rw [Query.reckon, Query.collect]
    refine (v.lookup_agrees name).bind fun x => ?_
    rcases x with (b | n | s) | xs | id
    case array => exact .of_eq (by rw [List.map_map]; rfl)
    all_goals exact .of_eq rfl
  | tableColumn table field =>
    refine (Agrees.given _ _).map fun t => ?_
    rw [List.map_filterMap]
    exact List.filterMap_congr fun row _ => by
      rw [Option.map_map]
      rfl
  | concat parts => exact Query.collectAll_agrees parts v

/-- What queries collect. -/
theorem Query.collectAll_agrees (qs : List Query) (v : View) :
    (Query.reckonAll qs v.widen).Agrees (List.map Value.widen) (Query.collectAll qs v) := by
  cases qs with
  | nil => exact .of_eq rfl
  | cons q qs =>
    rw [Query.reckonAll, Query.collectAll]
    refine (q.collect_agrees v).bind fun xs => (Query.collectAll_agrees qs v).map fun ys => ?_
    exact List.map_append.symm

end

end evaluation

/-! ## Exactness -/

namespace Reckoning

variable {α α' β : Type} {widen : α → α'}

/-- A reckoning settles what a computation with integers of 64 bits comes to: a result if all its
calculations are allowed, which is then the result over all integers, and a fault of arithmetic if
one is not allowed, the first of them being reported. -/
structure Settles (c : Reckoning α') (widen : α → α') (r : Result α) : Prop where
  ok_iff : ∀ x, r = .ok x ↔ c.failure? = none ∧ c.outcome = .ok (widen x)
  arithmetic_iff : ∀ cause, r = .error (.arithmetic cause) ↔
    ∃ step, c.failure? = some step ∧ step.fault = cause

/-- A reckoning that agrees with a computation settles what it comes to, as long as its lists can be
counted. -/
theorem Agrees.settles {c : Reckoning α'} {r : Result α} (hwiden : Function.Injective widen)
    (h : c.Agrees widen r) (hcounted : c.Counted) : c.Settles widen r := by
  have hr := h hcounted
  cases hfailure : c.failure? with
  | some step =>
    rw [checked_of_some hfailure] at hr
    cases r with
    | ok x => cases hr
    | error fault =>
      cases hr
      refine ⟨fun x => ⟨nofun, fun ⟨hnone, _⟩ => ?_⟩, fun cause => ⟨fun hcause => ?_, ?_⟩⟩
      · rw [hfailure] at hnone
        cases hnone
      · cases hcause
        exact ⟨step, hfailure, rfl⟩
      · rintro ⟨step', hstep', rfl⟩
        cases hfailure.symm.trans hstep'
        rfl
  | none =>
    have hnever : ∀ cause, ¬∃ step, c.failure? = some step ∧ step.fault = cause := by
      rintro cause ⟨step, hstep, -⟩
      cases hfailure.symm.trans hstep
    rw [checked_of_none hfailure] at hr
    cases houtcome : c.outcome with
    | ok y =>
      rw [houtcome] at hr
      cases r with
      | error fault => cases hr
      | ok x =>
        have hy : y = widen x := Except.ok.inj hr
        refine ⟨fun x' => ⟨fun hx => ?_, fun ⟨_, hx⟩ => ?_⟩, fun cause => ⟨nofun, fun h => ?_⟩⟩
        · cases hx
          exact ⟨hfailure, houtcome.trans (congrArg Except.ok hy)⟩
        · rw [houtcome, hy] at hx
          exact congrArg Except.ok (hwiden (Except.ok.inj hx))
        · exact absurd h (hnever cause)
    | error fault =>
      rw [houtcome] at hr
      cases r with
      | ok x => cases hr
      | error fault' =>
        have hfault : fault.val = fault' := Except.error.inj hr
        refine ⟨fun x => ⟨nofun, fun ⟨_, hx⟩ => ?_⟩, fun cause => ⟨fun hcause => ?_, fun h => ?_⟩⟩
        · rw [houtcome] at hx
          cases hx
        · cases hcause
          exact absurd hfault (fault.property cause)
        · exact absurd h (hnever cause)

/-- What does no arithmetic afterwards leaves the first failure as it is. -/
theorem failure?_bind_of_silent {c : Reckoning α} {f : α → Reckoning β}
    (hf : ∀ x, (f x).steps = []) :
    (c >>= f).failure? = c.failure? := by
  change (Reckoning.bind c f).failure? = c.failure?
  unfold Reckoning.bind
  cases c.outcome with
  | ok x =>
    exact congrArg (List.find? _) ((congrArg (c.steps ++ ·) (hf x)).trans (List.append_nil _))
  | error fault => rfl

/-- What follows a counted reckoning without calculations of its own is counted. -/
theorem Counted.bind {c : Reckoning α} {f : α → Reckoning β} (h : c.Counted)
    (hf : ∀ x, (f x).steps = []) : (c >>= f).Counted := by
  intro n
  rw [failure?_bind_of_silent hf]
  exact h n

end Reckoning

/-- A range of integers is a query that leaves none of them out. -/
theorem Query.eval_intRange {v : View} {min max : Expr} {lo hi : Int64}
    (hmin : min.evalInt v = .ok lo)
    (hmax : max.evalInt v = .ok hi) (hle : lo ≤ hi) (hshort : hi.toInt - lo.toInt + 1 ≤ maxRange) :
    ∃ ns : List Int64, (Query.intRange min max).eval v = .ok (ns.map Value.int) ∧
      ns.map Int64.toInt =
        (List.range (hi.toInt - lo.toInt + 1).toNat).map (fun i : Nat => lo.toInt + i) := by
  let ns :=
    (List.range (hi.toInt - lo.toInt + 1).toNat).map (fun i : Nat => Int64.ofInt (lo.toInt + i))
  have hexact : ns.map Int64.toInt =
      (List.range (hi.toInt - lo.toInt + 1).toNat).map (fun i : Nat => lo.toInt + i) :=
    (List.map_map ..).trans (List.map_congr_left fun i hi => Reckoning.Agrees.toInt_member hi)
  have hnodup : ns.Nodup := by
    refine List.Nodup.of_map Int64.toInt ?_
    rw [hexact]
    exact List.nodup_range.map fun i j hij => Int.natCast_inj.1 (Int.add_left_cancel hij)
  have hcollect : (Query.intRange min max).collect v = .ok (ns.map Value.int) := by
    have hrange : Tabletop.intRange lo hi = .ok (ns.map Value.int) := by
      have hpositive : ¬hi.toInt - lo.toInt + 1 ≤ 0 := by
        have := Int64.le_iff_toInt_le.1 hle
        omega
      rw [Tabletop.intRange, if_neg hpositive, if_neg (Int.not_lt.2 hshort), List.map_map]
      rfl
    rw [Query.collect, ← hrange]
    have hbind : ∀ {e : Expr} {n : Int64} (f : Int64 → Result (List Value)), e.evalInt v = .ok n →
        (e.eval v >>= fun x => e.expectInt x >>= f) = f n := by
      intro e n f he
      rw [← bind_assoc]
      exact congrArg (· >>= f) he
    rw [hbind _ hmin, hbind _ hmax]
  refine ⟨ns, ?_, hexact⟩
  rw [Query.eval_eq_firstsBy, hcollect]
  refine congrArg Except.ok (firstsBy_eq_self ?_)
  exact List.pairwise_map.2
    (hnodup.imp fun hne hsame => hne (by simpa [Value.int, Value.identity?] using hsame))

/-- Evaluation never wraps.  With integers of 64 bits an expression, read as a value or as an
integer, and a query, its repetitions left out, come to what they come to over all integers if no
calculation leaves the bounds, and otherwise to the fault of the first calculation that does.  A
range of at most ten thousand members holds just the integers between its bounds, in order. -/
theorem View.evaluates_exactly (v : View) :
    (∀ e : Expr, (e.reckon v.widen).Counted →
      (e.reckon v.widen).Settles Value.widen (e.eval v) ∧
      (do e.wideInt (← e.reckon v.widen)).Settles Int64.toInt (e.evalInt v)) ∧
    (∀ q : Query, (q.reckon v.widen).Counted →
      (do return firstsBy Wide.identity? (← q.reckon v.widen)).Settles (List.map Value.widen)
        (q.eval v)) ∧
    (∀ (min max : Expr) (lo hi : Int64), min.evalInt v = .ok lo → max.evalInt v = .ok hi → lo ≤ hi →
      hi.toInt - lo.toInt + 1 ≤ 10000 →
      ∃ ns : List Int64, (Query.intRange min max).eval v = .ok (ns.map Value.int) ∧
        ns.map Int64.toInt =
          (List.range (hi.toInt - lo.toInt + 1).toNat).map (fun i : Nat => lo.toInt + i)) := by
  refine ⟨fun e hcounted => ⟨?_, ?_⟩, fun q hcounted => ?_, fun min max lo hi hmin hmax => ?_⟩
  · exact (e.eval_agrees v).settles Value.widen_injective hcounted
  · have hint := (e.eval_agrees v).bind fun x => e.expectInt_agrees x
    exact hint.settles (fun _ _ => Int64.toInt_inj.1) (hcounted.bind fun _ => rfl)
  · have hfirsts := (q.collect_agrees v).map Value.firstsBy_widen
    exact hfirsts.settles Value.widen_injective.list_map (hcounted.bind fun _ => rfl)
  · exact Query.eval_intRange hmin hmax

/-- The squares of the integers of two ranges that overlap, added up, and half of minus seven. -/
def Expr.squares : Expr :=
  .arith .add
    (.aggregate .sum (.concat [.range 1 3, .range 2 5]) "n"
      (some (.arith .mul (.ref (.binding "n")) (.ref (.binding "n")))))
    (.arith .div (.int (-7)) (.int 2))

/-- The least integer, negated, times nobody. -/
def Expr.leastNegated : Expr :=
  .arith .mul (.arith .div (.int Int64.minValue) (.int (-1))) (.ref (.binding "nobody"))

/-- Each integer of two ranges is added up once, and half of minus seven is minus three.  The least
integer cannot be negated, which is noticed before nobody is missed.  A range may end at the
greatest integer. -/
theorem View.evaluates_exactly_camp :
    ((Expr.squares.reckon View.camp.widen).Counted ∧ Expr.squares.evalInt .camp = .ok 52) ∧
    ((Expr.leastNegated.reckon View.camp.widen).Counted ∧
      Expr.leastNegated.eval .camp = .error (.arithmetic (.overflow .div Int64.minValue (-1)))) ∧
    ((Query.camp.reckon View.camp.widen).Counted ∧
      Query.camp.eval .camp = .ok [.token "scout-0", .int 7, .str "ford", .int 6]) ∧
    ∃ ns : List Int64,
      (Query.intRange (.int (Int64.maxValue - 1)) (.int Int64.maxValue)).eval .camp =
        .ok (ns.map Value.int) ∧
      ns.map Int64.toInt = [9223372036854775806, 9223372036854775807] := by
  obtain ⟨hexpr, hquery, hrange⟩ := View.evaluates_exactly .camp
  have counted {α : Type} {c : Reckoning α} {failure : Option Calculation}
      (h : c.failure? = failure) (hcount : ∀ n, failure ≠ some (.count n)) : c.Counted :=
    fun n hn => hcount n (h.symm.trans hn)
  have hsquares : (Expr.squares.reckon View.camp.widen).failure? = none := rfl
  have hnegated : (Expr.leastNegated.reckon View.camp.widen).failure? =
      some (.arith .div (-9223372036854775808) (-1)) := rfl
  have hcamp : (Query.camp.reckon View.camp.widen).failure? = none := rfl
  refine ⟨⟨counted hsquares nofun, ?_⟩, ⟨counted hnegated nofun, ?_⟩, ⟨counted hcamp nofun, ?_⟩, ?_⟩
  · exact ((hexpr .squares (counted hsquares nofun)).2.ok_iff 52).2 ⟨rfl, rfl⟩
  · exact ((hexpr .leastNegated (counted hnegated nofun)).1.arithmetic_iff _).2
      ⟨_, hnegated, by decide⟩
  · exact ((hquery .camp (counted hcamp nofun)).ok_iff _).2 ⟨rfl, rfl⟩
  · obtain ⟨ns, hns, hmembers⟩ := hrange (.int (Int64.maxValue - 1)) (.int Int64.maxValue)
      (Int64.maxValue - 1) Int64.maxValue rfl rfl (by decide) (by decide)
    exact ⟨ns, hns, hmembers.trans (by decide)⟩

end Tabletop
