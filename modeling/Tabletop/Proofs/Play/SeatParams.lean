import Mathlib.Data.Finset.Card
import Tabletop.Proofs.Play.Decisions
import Tabletop.Proofs.Play.Seats
import Tabletop.Proofs.Play.Selectors

/-!
# Declared params that selectors read

A selector that reads a declared param asks for it and takes nothing but existing seats of its
domain, so that a wrong seat makes a move illegal.  The members of an array are looked at one by
one, though, and how many there are is left to the selector: an array of such seats that the
executor's selector reads comes to a fault of the definition, unless they are the same seat all
along.

Main statement: `Rules.resolve_seatParam`, with a gift to two seats, or to nobody.
-/

namespace Tabletop

/-! ## Seats in order, each once -/

namespace Seat

variable (seats : List Seat)

/-- Sorted seats are in index order. -/
theorem pairwise_mergeSort : (seats.mergeSort le).Pairwise (fun s t => le s t = true) := by
  apply List.pairwise_mergeSort
  · intro a b c hab hbc
    simp only [le, decide_eq_true_eq] at hab hbc ⊢
    exact UInt8.le_trans hab hbc
  · intro a b
    simpa [le] using UInt8.le_total a.index b.index

/-- Sorted and listed once each, seats ascend strictly by their indices. -/
theorem pairwise_sortedOnce : (sortedOnce seats).Pairwise (fun s t => s.index < t.index) := by
  refine pairwise_eraseReps ?_ ?_ (pairwise_mergeSort seats)
  · intro s t hle hne
    refine UInt8.lt_of_le_of_ne (by simpa [le] using hle) (fun hsame => hne ?_)
    cases s
    cases t
    exact congrArg Seat.mk hsame
  · intro s t u hst htu
    exact UInt8.lt_trans hst htu

/-- As many seats are left as there are different ones. -/
theorem length_sortedOnce : (sortedOnce seats).length = seats.toFinset.card := by
  have hnodup : (sortedOnce seats).Nodup := by
    refine (pairwise_sortedOnce seats).imp (fun hlt hsame => ?_)
    rw [hsame] at hlt
    exact UInt8.lt_irrefl _ hlt
  rw [← List.toFinset_card_of_nodup hnodup]
  congr 1
  ext seat
  rw [List.mem_toFinset, List.mem_toFinset, mem_sortedOnce]

end Seat

/-! ## Scalars that stand for seats -/

/-- The seat of a game that a scalar is the index of. -/
def Scalar.seat? (x : Scalar) (count : Nat) : Option Seat :=
  match x with
  | .int n => Seat.ofIndex? n.toInt count
  | _ => none

/-- The seats of a game that scalars are the indices of. -/
def Scalar.seats (xs : List Scalar) (count : Nat) : Finset Seat :=
  (xs.filterMap (fun x => x.seat? count)).toFinset

/-- A scalar stands for an existing seat of a domain. -/
def Scalar.Sits (x : Scalar) (values : List Value) (count : Nat) : Prop :=
  x.isIn values = true ∧ x.isSeat count = true

instance (x : Scalar) (values : List Value) (count : Nat) : Decidable (x.Sits values count) :=
  inferInstanceAs (Decidable (_ ∧ _))

/-- A scalar stands for a seat exactly if a seat of the game has it as its index. -/
theorem Scalar.isSeat_iff {x : Scalar} {count : Nat} :
    x.isSeat count = true ↔ ∃ seat, x.seat? count = some seat := by
  rw [← Option.isSome_iff_exists]
  cases x <;> simp [isSeat, seat?]

namespace SeatSelector

/-- A scalar that stands for a seat is looked up as that seat. -/
theorem seatOf_of_seat? {x : Scalar} {count : Nat} {seat : Seat} (h : x.seat? count = some seat) :
    seatOf count x = .ok seat := by
  cases x with
  | int n =>
    unfold seatOf
    dsimp only
    rw [show Seat.ofIndex? n.toInt count = some seat from h]
  | bool b => cases h
  | str text => cases h

/-- Scalars that stand for seats are looked up one by one. -/
theorem seatsOf_eq {count : Nat} :
    ∀ {xs : List Scalar}, (∀ x ∈ xs, x.isSeat count = true) →
      seatsOf count xs = .ok (xs.filterMap (fun x => x.seat? count))
  | [], _ => rfl
  | x :: xs, h => by
    obtain ⟨seat, hseat⟩ := Scalar.isSeat_iff.1 (h x List.mem_cons_self)
    have hrest := seatsOf_eq (fun y hy => h y (List.mem_cons_of_mem x hy))
    rw [List.filterMap_cons, hseat]
    exact bind_ok (seatOf_of_seat? hseat) (bind_ok hrest rfl)

/-- A selector that reads a param means the seats that are selected for it. -/
theorem resolve_binding {name : String} {action : ActionId} {active : Seat} {count : Nat}
    {params : Dict Selection} {y : Selection} (hy : params.get? name = some y)
    (hseats : ∀ x ∈ y.scalars, x.isSeat count = true) :
    (binding name).resolve action active count (.ofParams params) =
      .ok (Seat.sortedOnce (y.scalars.filterMap (fun x => x.seat? count))) := by
  have hbound : (Bindings.ofParams params).get? name = some (.ofSelection y) := by
    rw [Bindings.get?_ofParams, hy]
    rfl
  have hnamed : (binding name).named active count (.ofParams params) = seatsOf count y.scalars := by
    unfold named
    dsimp only
    rw [hbound]
    cases y <;> rfl
  unfold resolve
  rw [hnamed, seatsOf_eq hseats]

section

variable {sel sel' : SeatSelector} {action action' : ActionId} {active : Seat} {count : Nat}
  {b : Bindings} {cause : SelectorFault}

/-- A fault for a selector blames the selector that has been resolved. -/
theorem blames_of_resolve
    (h : sel.resolve action active count b = .error (.selector action' sel' cause)) :
    action = action' ∧ sel = sel' := by
  unfold resolve at h
  cases hnamed : sel.named active count b with
  | ok seats => rw [hnamed] at h; cases h
  | error cause' =>
    rw [hnamed] at h
    cases h
    exact ⟨rfl, rfl⟩

/-- A selector of one seat fails exactly if it does not mean one. -/
theorem resolveOne_eq_error_iff {seats : List Seat}
    (h : sel.resolve action active count b = .ok seats) {fault : Fault} :
    sel.resolveOne action active count b = .error fault ↔
      seats.length ≠ 1 ∧ fault = .selector action sel (.notSingle seats.length) := by
  unfold resolveOne
  rw [h]
  clear h
  match seats with
  | [] =>
    change Except.error (Fault.selector action sel (.notSingle 0)) = _ ↔ _
    simp [eq_comm]
  | [seat] =>
    change Except.ok seat = _ ↔ _
    simp
  | first :: second :: rest =>
    change Except.error (Fault.selector action sel (.notSingle (rest.length + 2))) = _ ↔ _
    simp [eq_comm]

/-- A selector of one blames itself, and the action for which it was resolved. -/
theorem blames_of_resolveOne
    (h : sel.resolveOne action active count b = .error (.selector action' sel' cause)) :
    action = action' ∧ sel = sel' := by
  rcases bind_eq_error h with hresolve | ⟨seats, hseats, -⟩
  · exact blames_of_resolve hresolve
  · obtain ⟨-, hsame⟩ := (resolveOne_eq_error_iff hseats).1 h
    cases hsame
    exact ⟨rfl, rfl⟩

end

end SeatSelector

/-! ## The check of what a selector reads -/

/-- What the seats of an action are checked with. -/
def Move.view (m : Move) (g : Game) (s : State) : View :=
  { game := g, state := s, bindings := .ofParams m.params, actor := s.active }

namespace Plan

variable {a : Action} {m : Move} {special : Bool} {v : View} {name : String} {p : Param}
  {values : List Value}

/-- A declared param that a selector reads is asked for. -/
theorem checkSelected_missing (hp : a.param? name = some p) (hvalues : domain p v = .ok values)
    (hmissing : m.params.get? name = none) :
    checkSelected a m special v (.binding name) =
      .error (.pending { decision := p.decision values, special }) := by
  unfold checkSelected
  simp only [hp, hvalues, hmissing]
  rfl

/-- What is selected is looked through for something else than an existing seat of the domain. -/
theorem checkSelected_eq (hp : a.param? name = some p) (hvalues : domain p v = .ok values)
    {y : Selection} (hy : m.params.get? name = some y) :
    checkSelected a m special v (.binding name) =
      match y.scalars.find? (fun x => !(x.isIn values && x.isSeat v.state.seatCount)) with
      | some x => refuse (.notSeat x.text name) a.id
      | none => .ok () := by
  have hname : p.name = name := by simpa using List.find?_some hp
  unfold checkSelected
  simp only [hp, hvalues, hy, hname]
  rfl

/-- A selection of existing seats of the domain passes the check. -/
theorem checkSelected_of_sits (special : Bool) (hp : a.param? name = some p)
    (hvalues : domain p v = .ok values) {y : Selection} (hy : m.params.get? name = some y)
    (hsits : ∀ x ∈ y.scalars, x.Sits values v.state.seatCount) :
    checkSelected a m special v (.binding name) = .ok () := by
  have hnone : y.scalars.find? (fun x => !(x.isIn values && x.isSeat v.state.seatCount)) =
      none := by
    apply List.find?_eq_none.2
    intro x hx
    simpa [Scalar.Sits] using hsits x hx
  rw [checkSelected_eq hp hvalues hy, hnone]

/-- A selection of anything else is refused for the seat that is none. -/
theorem checkSelected_of_not_sits (special : Bool) (hp : a.param? name = some p)
    (hvalues : domain p v = .ok values) {y : Selection} (hy : m.params.get? name = some y)
    (hstray : ∃ x ∈ y.scalars, ¬x.Sits values v.state.seatCount) :
    ∃ shown, checkSelected a m special v (.binding name) = refuse (.notSeat shown name) a.id := by
  rw [checkSelected_eq hp hvalues hy]
  cases hfound : y.scalars.find? (fun x => !(x.isIn values && x.isSeat v.state.seatCount)) with
  | some x => exact ⟨x.text, rfl⟩
  | none =>
    obtain ⟨x, hx, hnot⟩ := hstray
    refine absurd ?_ hnot
    simpa [Scalar.Sits] using List.find?_eq_none.1 hfound x hx

/-- A param passes the check of the selector that reads it. -/
theorem exists_of_checkSelected (hp : a.param? name = some p)
    (h : checkSelected a m special v (.binding name) = .ok ()) :
    ∃ values y, domain p v = .ok values ∧ m.params.get? name = some y ∧
      ∀ x ∈ y.scalars, x.Sits values v.state.seatCount := by
  cases hvalues : domain p v with
  | error fault =>
    unfold checkSelected at h
    simp only [hp, hvalues] at h
    cases h
  | ok values =>
    cases hy : m.params.get? name with
    | none => cases (checkSelected_missing hp hvalues hy).symm.trans h
    | some y =>
      refine ⟨values, y, rfl, rfl, fun x hx => ?_⟩
      by_contra hnot
      obtain ⟨shown, hrefused⟩ := checkSelected_of_not_sits special hp hvalues hy ⟨x, hx, hnot⟩
      cases hrefused.symm.trans h

/-- A selector whose declared param passes the check means the seats that have been selected. -/
theorem resolve_of_checkSelected {g : Game} {s : State} (hp : a.param? name = some p)
    (h : checkSelected a m special (m.view g s) (.binding name) = .ok ()) :
    ∃ values y, domain p (m.view g s) = .ok values ∧ m.params.get? name = some y ∧
      (∀ x ∈ y.scalars, x.Sits values s.seatCount) ∧
      ∃ seats, (SeatSelector.binding name).resolve a.id s.active s.seatCount (.ofParams m.params) =
        .ok seats ∧ seats.length = (Scalar.seats y.scalars s.seatCount).card := by
  obtain ⟨values, y, hvalues, hy, hsits⟩ := exists_of_checkSelected hp h
  exact ⟨values, y, hvalues, hy, hsits, _,
    SeatSelector.resolve_binding hy (fun x hx => (hsits x hx).2), Seat.length_sortedOnce _⟩

/-! ## Planning -/

/-- Planning comes to the check of what a selector reads: the actor's comes first, and the
executor's if that is passed. -/
def Reads (a : Action) (m : Move) (special : Bool) (v : View) (name : String) : Prop :=
  a.actor = .binding name ∨
    a.executor = .binding name ∧ checkSelected a m special v a.actor = .ok ()

/-- The executor's selector reads an array of existing seats of the domain, but of none of them or
of several: of `k` different ones. -/
structure Scatters (a : Action) (m : Move) (special : Bool) (v : View) (name : String) (k : Nat) :
    Prop where
  executor : a.executor = .binding name
  actor : checkSelected a m special v a.actor = .ok ()
  actors : ∃ seats,
    a.actor.resolve a.id v.state.active v.state.seatCount (.ofParams m.params) = .ok seats
  selects : ∃ p values xs, a.param? name = some p ∧ domain p v = .ok values ∧
    m.params.get? name = some (.many xs) ∧ (∀ x ∈ xs, x.Sits values v.state.seatCount) ∧
    (Scalar.seats xs v.state.seatCount).card = k
  notOne : k ≠ 1

/-- Where planning comes to the check of what a selector reads, it stops if that check does. -/
theorem Reads.checkSeats (h : Reads a m special v name) {e : Stop}
    (he : checkSelected a m special v (.binding name) = .error e) :
    Plan.checkSeats a m special v = .error e := by
  unfold Plan.checkSeats
  rcases h with hactor | ⟨hexecutor, hactor⟩
  · simp only [hactor, he]
    rfl
  · simp only [hactor, hexecutor, he]
    rfl

/-- A fault for a selector is for one of the two selectors, and comes after both have been
checked. -/
theorem checkSeats_eq_selector {action : ActionId} {sel : SeatSelector} {cause : SelectorFault}
    (h : checkSeats a m special v = .error (.fault (.selector action sel cause))) :
    a.id = action ∧ checkSelected a m special v a.actor = .ok () ∧
      checkSelected a m special v a.executor = .ok () ∧
      (a.actor = sel ∧ a.actor.resolve a.id v.state.active v.state.seatCount v.bindings =
          .error (.selector action sel cause) ∨
        a.executor = sel ∧
          (∃ actors, a.actor.resolve a.id v.state.active v.state.seatCount v.bindings =
            .ok actors) ∧
          a.executor.resolveOne a.id v.state.active v.state.seatCount v.bindings =
            .error (.selector action sel cause)) := by
  obtain ⟨⟨⟩, hactor, h⟩ := (checkSelected_fails a.actor).later h not_false
  obtain ⟨⟨⟩, hexecutor, h⟩ := (checkSelected_fails a.executor).later h not_false
  rcases bind_eq_error h with h | ⟨actors, hactors, h⟩
  · have hresolve := liftM_eq_fault h
    obtain ⟨haction, hsel⟩ := SeatSelector.blames_of_resolve hresolve
    exact ⟨haction, hactor, hexecutor, .inl ⟨hsel, hresolve⟩⟩
  · rcases bind_eq_error h with h | ⟨executor, -, h⟩
    · have hone := liftM_eq_fault h
      obtain ⟨haction, hsel⟩ := SeatSelector.blames_of_resolveOne hone
      exact ⟨haction, hactor, hexecutor, .inr ⟨hsel, ⟨actors, liftM_eq_ok hactors⟩, hone⟩⟩
    · obtain ⟨⟨⟩, -, h⟩ := ensure_later h
      cases h

/-- The check of seats comes to a fault for a selector of a declared param exactly if the executor's
selector reads an array that it cannot make one seat of. -/
theorem checkSeats_eq_selector_iff {g : Game} {s : State} {action : ActionId}
    {cause : SelectorFault} (hp : a.param? name = some p) :
    checkSeats a m special (m.view g s) = .error (.fault (.selector action (.binding name) cause)) ↔
      a.id = action ∧ ∃ k, Scatters a m special (m.view g s) name k ∧ cause = .notSingle k := by
  constructor
  · intro h
    obtain ⟨haction, hactor, hexecutor, ⟨hreads, hresolve⟩ | ⟨hreads, hactors, hone⟩⟩ :=
      checkSeats_eq_selector h
    · -- An actor's selector that has been checked means seats.
      rw [hreads] at hactor hresolve
      obtain ⟨-, -, -, -, -, seats, hseats, -⟩ := resolve_of_checkSelected hp hactor
      cases hseats.symm.trans hresolve
    · rw [hreads] at hexecutor hone
      obtain ⟨values, y, hvalues, hy, hsits, seats, hseats, hlength⟩ :=
        resolve_of_checkSelected hp hexecutor
      obtain ⟨hnotOne, hcause⟩ := (SeatSelector.resolveOne_eq_error_iff hseats).1 hone
      obtain ⟨-, -, rfl⟩ := Fault.selector.inj hcause
      rw [hlength] at hnotOne ⊢
      refine ⟨haction, _, ⟨hreads, hactor, hactors, ?_, hnotOne⟩, rfl⟩
      cases y with
      | many xs => exact ⟨p, values, xs, hp, hvalues, hy, hsits, rfl⟩
      | one x =>
        obtain ⟨seat, hseat⟩ := Scalar.isSeat_iff.1 (hsits x (List.mem_singleton_self x)).2
        refine absurd ?_ hnotOne
        simp [Scalar.seats, Selection.scalars, hseat]
  · rintro ⟨rfl, k, ⟨hreads, hactor, ⟨actors, hactors⟩, hselects, hnotOne⟩, rfl⟩
    obtain ⟨p, values, xs, hp, hvalues, hxs, hsits, rfl⟩ := hselects
    have hexecutor := checkSelected_of_sits special hp hvalues hxs hsits
    have hone : (SeatSelector.binding name).resolveOne a.id s.active s.seatCount
      (.ofParams m.params) =
        .error (.selector a.id (.binding name)
        (.notSingle (Scalar.seats xs s.seatCount).card)) := by
      obtain ⟨-, y, -, hy, -, seats, hseats, hlength⟩ := resolve_of_checkSelected hp hexecutor
      cases hxs.symm.trans hy
      refine (SeatSelector.resolveOne_eq_error_iff hseats).2 ?_
      rw [hlength]
      exact ⟨hnotOne, rfl⟩
    unfold checkSeats
    rw [hreads]
    refine bind_ok hactor (bind_ok hexecutor (bind_ok (congrArg _ hactors) ?_))
    change (liftM ((SeatSelector.binding name).resolveOne a.id s.active s.seatCount
      (.ofParams m.params)) : Check Seat) >>= _ = _
    rw [hone]
    rfl

/-- Planning comes to a declared param: the seats have been checked, the action may be taken, and
the params before it are settled. -/
structure ComesTo (g : Game) (s : State) (a : Action) (m : Move) (special : Bool) (p : Param)
    (executor : Seat) : Prop where
  seats : checkSeats a m special (m.view g s) = .ok executor
  available : checkAvailable a s = .ok ()
  params : ∃ before after, a.params = before ++ p :: after ∧
    checkParams a m special { m.view g s with actor := executor } before = .ok ()

/-- A declared param takes a single value. -/
theorem ComesTo.make {g : Game} {s : State} {executor : Seat}
    (h : ComesTo g s a m special p executor)
    (hvalues : domain p { m.view g s with actor := executor } = .ok values) {xs : List Scalar}
    (hxs : m.params.get? p.name = some (.many xs)) (free : Bool) :
    Plan.make g s m a free special = refuse (.takesSingleValue p.name) a.id := by
  obtain ⟨before, after, hparams, hbefore⟩ := h.params
  refine bind_ok h.seats (bind_ok h.available ?_)
  have hrefused : checkParams a m special { m.view g s with actor := executor } a.params =
      refuse (.takesSingleValue p.name) a.id := by
    rw [hparams, checkParams_append, hbefore]
    refine bind_ok rfl ?_
    rw [checkParams, hvalues, hxs]
    rfl
  change checkParams a m special { m.view g s with actor := executor } a.params >>= _ = _
  rw [hrefused]
  rfl

end Plan

/-! ## Resolving a move -/

namespace Rules

variable {r : Rules} {s : State} {m n : Move} {a : Action} {special : Bool} {p : Param}
  {name : String}

/-- A move is illegal for its params. -/
def RefusesParams (r : Rules) (s : State) (m : Move) : Prop :=
  ∃ rejection, r.resolve s m = .error (.refused rejection) ∧ rejection.refusal.reason = .badParams

/-- The action that is planned is the one that the move names. -/
theorem PlansFor.id_eq (h : r.PlansFor s m a n special) : a.id = n.action := by
  simpa using List.find?_some h.declared

/-- What stops the check of a param that a selector reads stops the move. -/
theorem PlansFor.resolve_of_reads (h : r.PlansFor s m a n special)
    (hreads : Plan.Reads a n special (n.view r.game s) name) {e : Stop}
    (he : Plan.checkSelected a n special (n.view r.game s) (.binding name) = .error e) :
    r.resolve s m = .error e := by
  have hseats := hreads.checkSeats he
  unfold Move.view at hseats
  apply h.resolve_error
  unfold Plan.make
  dsimp only
  rw [hseats]
  rfl

/-- A move with an array for a declared param is not resolved. -/
theorem PlansFor.resolve_ne_ok (h : r.PlansFor s m a n special) (hp : p ∈ a.params)
    {xs : List Scalar}
    (hxs : n.params.get? p.name = some (.many xs)) (t : Resolution) : r.resolve s m ≠ .ok t := by
  intro ht
  obtain ⟨plan, hplan⟩ := h.exists_plan ht
  obtain ⟨executor, -, hplan⟩ := bind_eq_ok hplan
  obtain ⟨-, -, hplan⟩ := bind_eq_ok hplan
  obtain ⟨⟨⟩, hchecked, -⟩ := bind_eq_ok hplan
  obtain ⟨x, hx⟩ := Plan.checkParams_single hchecked p hp
  cases hxs.symm.trans hx

/-- A move comes to a fault for the selector of a declared param exactly if a plan that it comes to
scatters the executor. -/
theorem resolve_eq_selector_iff {action : ActionId} {cause : SelectorFault}
    (hdeclared : ∀ a, r.definition.action? action = some a → (a.param? name).isSome) :
    r.resolve s m = .error (.fault (.selector action (.binding name) cause)) ↔
      ∃ a n special k, r.PlansFor s m a n special ∧ a.id = action ∧
        Plan.Scatters a n special (n.view r.game s) name k ∧ cause = .notSingle k := by
  constructor
  · intro h
    obtain ⟨a, n, special, hplans, hmake⟩ := exists_plansFor h
    have hseats := Plan.make_eq_selector_iff.1 hmake
    obtain ⟨rfl, -⟩ := Plan.checkSeats_eq_selector hseats
    have hfound : r.definition.action? a.id = some a := hplans.id_eq ▸ hplans.declared
    obtain ⟨p, hp⟩ := Option.isSome_iff_exists.1 (hdeclared a hfound)
    obtain ⟨-, k, hscatters, rfl⟩ := (Plan.checkSeats_eq_selector_iff hp).1 hseats
    exact ⟨a, n, special, k, hplans, rfl, hscatters, rfl⟩
  · rintro ⟨a, n, special, k, hplans, rfl, hscatters, rfl⟩
    apply hplans.resolve_error
    apply Plan.make_eq_selector_iff.2
    obtain ⟨p, -, -, hp, -⟩ := hscatters.selects
    exact (Plan.checkSeats_eq_selector_iff hp).2 ⟨rfl, k, hscatters, rfl⟩

/-- Of a declared param, a move comes to a fault for the selector that reads it exactly if the
selector is that of the executor, and the selection an array of existing seats of the domain that
are none or several.  When planning comes to a selector, a param that is missing is asked for, and a
selection that holds anything but existing seats of the domain makes the move illegal for its
params.  No array is ever resolved: where planning comes to the param itself, the move is illegal
for its params. -/
theorem resolve_seatParam {action : ActionId} {name : String}
    (hdeclared : ∀ a, r.definition.action? action = some a → (a.param? name).isSome) :
    (∀ cause, r.resolve s m = .error (.fault (.selector action (.binding name) cause)) ↔
      ∃ a n special k, r.PlansFor s m a n special ∧ a.id = action ∧
        Plan.Scatters a n special (n.view r.game s) name k ∧ cause = .notSingle k) ∧
    ∀ a n special p, r.PlansFor s m a n special → a.param? name = some p →
      (∀ values, Plan.Reads a n special (n.view r.game s) name →
        Plan.domain p (n.view r.game s) = .ok values →
        (n.params.get? name = none →
          r.resolve s m = .error (.pending { decision := p.decision values, special })) ∧
        ∀ y, n.params.get? name = some y → (∃ x ∈ y.scalars, ¬x.Sits values s.seatCount) →
          r.RefusesParams s m) ∧
      ∀ xs, n.params.get? name = some (.many xs) →
        (∀ t, r.resolve s m ≠ .ok t) ∧
        ∀ executor values, Plan.ComesTo r.game s a n special p executor →
          Plan.domain p { n.view r.game s with actor := executor } = .ok values →
          r.RefusesParams s m := by
  refine ⟨fun cause => resolve_eq_selector_iff hdeclared, fun a n special p hplans hp => ⟨?_, ?_⟩⟩
  · intro values hreads hvalues
    constructor
    · intro hmissing
      exact hplans.resolve_of_reads hreads (Plan.checkSelected_missing hp hvalues hmissing)
    · intro y hy hstray
      obtain ⟨shown, hrefused⟩ := Plan.checkSelected_of_not_sits special hp hvalues hy hstray
      exact ⟨_, hplans.resolve_of_reads hreads hrefused, rfl⟩
  · intro xs hxs
    have hname : p.name = name := by simpa using List.find?_some hp
    rw [← hname] at hxs
    constructor
    · exact hplans.resolve_ne_ok (List.mem_of_find?_eq_some hp) hxs
    · intro executor values hcomes hvalues
      exact ⟨_, hplans.resolve_error (hcomes.make hvalues hxs m.free), rfl⟩

end Rules

/-! ## A gift -/

/-- Something is given to a seat of one's choice. -/
def Action.gift : Action where
  id := "gift"
  executor := .binding "to"
  params := [{ name := "to", domain := .seats }]

/-- The rules of a game of gifts, under the usual limits. -/
def Rules.gift : Rules :=
  { game := .ofDefinition { Definition.minimal "gift" with actions := [.gift] } }

/-- Where two seats start that game. -/
def State.gift : State := (Rules.gift.game.start 2 0).toOption.getD default

/-- A gift to what is selected. -/
def Move.gift (y : Selection) : Move := (Move.named "gift").select "to" y

/-- A gift has to be for somebody: its giver is asked for whom, and it may go to one of the two
seats.  A gift to a seat that is not there is illegal for its params, and so is a gift to a list of
one seat; but a gift to both seats, or to none, is blamed on the game. -/
theorem Rules.resolve_seatParam_gift :
    (∃ q, Rules.gift.resolve .gift (.named "gift") = .error (.pending q) ∧ q.decision.name = "to") ∧
      (∃ x, Rules.gift.resolve .gift (.gift (.one (.int 1))) = .ok x) ∧
      Rules.gift.RefusesParams .gift (.gift (.one (.int 7))) ∧
      Rules.gift.RefusesParams .gift (.gift (.many [.int 1])) ∧
      Rules.gift.resolve .gift (.gift (.many [.int 0, .int 1])) =
        .error (.fault (.selector "gift" (.binding "to") (.notSingle 2))) ∧
      Rules.gift.resolve .gift (.gift (.many [])) =
        .error (.fault (.selector "gift" (.binding "to") (.notSingle 0))) := by
  have hdeclared : ∀ a, Rules.gift.definition.action? "gift" = some a → (a.param? "to").isSome := by
    intro a ha
    cases ha
    rfl
  have hplans (y : Selection) : Rules.gift.PlansFor .gift (.gift y) .gift (.gift y) false := by
    have hscreen : Rules.gift.screen .gift (.gift y) = .ok (.gift, none) := rfl
    exact .host hscreen
  have hopen : Rules.gift.PlansFor .gift (.named "gift") .gift (.named "gift") false := by
    have hscreen : Rules.gift.screen .gift (.named "gift") = .ok (.gift, none) := rfl
    exact .host hscreen
  have hscatters (xs : List Scalar)
      (hsits : ∀ x ∈ xs, x.Sits [.seat ⟨0⟩, .seat ⟨1⟩] 2) (hnotOne : (Scalar.seats xs 2).card ≠ 1) :
      Plan.Scatters .gift (.gift (.many xs)) false
        ((Move.gift (.many xs)).view Rules.gift.game .gift)
        "to" (Scalar.seats xs 2).card :=
    ⟨rfl, rfl, ⟨_, rfl⟩, ⟨_, _, xs, rfl, rfl, rfl, hsits, rfl⟩, hnotOne⟩
  refine ⟨?_, exists_ok_of_isOk (by decide +kernel), ?_, ?_, ?_, ?_⟩
  · obtain ⟨hasks, -⟩ :=
      ((resolve_seatParam hdeclared).2 _ _ _ _ hopen rfl).1 _ (.inr ⟨rfl, rfl⟩) rfl
    exact ⟨_, hasks rfl, rfl⟩
  · obtain ⟨-, hrefuses⟩ :=
      ((resolve_seatParam hdeclared).2 _ _ _ _ (hplans _) rfl).1 _ (.inr ⟨rfl, rfl⟩) rfl
    exact hrefuses (.one (.int 7)) rfl ⟨.int 7, List.mem_singleton_self _, by decide⟩
  · obtain ⟨-, hrefuses⟩ :=
      ((resolve_seatParam hdeclared).2 _ _ _ _ (hplans (.many [.int 1])) rfl).2 [.int 1] rfl
    have hseats : ∃ executor, Plan.checkSeats .gift (.gift (.many [.int 1])) false
        ((Move.gift (.many [.int 1])).view Rules.gift.game .gift) = .ok executor :=
      exists_ok_of_isOk (by decide +kernel)
    obtain ⟨executor, hexecutor⟩ := hseats
    exact hrefuses executor _ ⟨hexecutor, rfl, ⟨[], [], rfl, rfl⟩⟩ rfl
  · exact ((resolve_seatParam hdeclared).1 _).2 ⟨_, _, _, _, hplans _, rfl,
      hscatters [.int 0, .int 1] (by decide) (by decide), rfl⟩
  · exact ((resolve_seatParam hdeclared).1 _).2 ⟨_, _, _, _, hplans _, rfl,
      hscatters [] (by decide) (by decide), rfl⟩

end Tabletop
