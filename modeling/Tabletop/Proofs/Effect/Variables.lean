import Tabletop.Proofs.Effect.Replay
import Tabletop.Proofs.Expr.Alike

/-!
# Writing variables

An effect that writes a variable means an integer: the value that it gives, or the exact sum of the
value that the variable has and of what it adds.  The variable ends with the value within its bounds
that is nearest to that integer.  This holds at the limits of 64 bits too, for bounds that are
declared the wrong way round, and for a boolean, whose bounds are zero and one.

Whoever listens is told of the write exactly if the value changes, and nothing else in the state is
touched.  So a write that is repeated goes unnoticed.

Main statement: `Site.writes_variable`, for both effects that write variables; it rests on
`Variable.clamp_cutOff`, that a sum may be cut off at the limits of 64 bits before it is clamped.
-/

namespace Tabletop

/-! ## Bounds -/

/-- An integer, cut off at the limits of 64 bits. -/
def cutOff (n : Int) : Int := max Int64.minValue.toInt (min Int64.maxValue.toInt n)

namespace Variable

/-- The bounds of a variable are in order, whatever was declared. -/
theorem lower_le_upper (v : Variable) : v.lower ≤ v.upper := by
  unfold lower upper
  cases v.kind with
  | int =>
    dsimp only
    split
    · assumption
    · exact Int64.le_refl _
  | bool => exact show (0 : Int64) ≤ 1 by decide

/-- What an integer is clamped to is the nearest value within the bounds. -/
theorem toInt_clamp (v : Variable) (n : Int) :
    (v.clamp n).toInt = Max.max v.lower.toInt (Min.min v.upper.toInt n) := by
  have hbounds : v.lower.toInt ≤ v.upper.toInt := Int64.le_iff_toInt_le.1 v.lower_le_upper
  unfold clamp
  split
  · omega
  · split
    · omega
    · have hleast := v.lower.le_toInt
      have hgreatest := v.upper.toInt_lt
      rw [Int64.toInt_ofInt_of_le (by omega) (by omega)]
      omega

/-- A sum that was cut off at the limits of 64 bits is clamped to the same value as the exact
one. -/
theorem clamp_cutOff (v : Variable) (n : Int) : v.clamp (cutOff n) = v.clamp n := by
  have hbounds : v.lower.toInt ≤ v.upper.toInt := Int64.le_iff_toInt_le.1 v.lower_le_upper
  have hleast : Int64.minValue.toInt ≤ v.lower.toInt := v.lower.minValue_le_toInt
  have hgreatest : v.upper.toInt ≤ Int64.maxValue.toInt := v.upper.toInt_le
  rw [← Int64.toInt_inj, toInt_clamp, toInt_clamp, cutOff]
  omega

end Variable

/-! ## Scopes -/

/-- The scope that a target means. -/
def VarTarget.resolve (target : VarTarget) (v : View) : Result VarScope :=
  match target with
  | .global => .ok .global
  | .seat ref => do return .seat (← ref.resolve v)
  | .zone ref => do return .zone (← ref.resolve v)

/-- The same scope is meant in a state with the same active seat, the same seats and the same
zones. -/
theorem VarTarget.resolve_inState (target : VarTarget) {v : View} {t : State}
    (hactive : t.active = v.state.active) (hcount : t.seatCount = v.state.seatCount)
    (hstore : t.store = v.state.store) : target.resolve (v.inState t) = target.resolve v := by
  cases target with
  | global => rfl
  | seat ref => simp only [resolve, ref.resolve_inState hactive hcount]
  | zone ref =>
    simp only [resolve, ref.resolve_inState hactive hcount fun zone => by rw [hstore]]

namespace State

variable {s t : State} {scope : VarScope} {name : String}

/-- The scope is one of the game: all of it, one of its seats or one of its zones. -/
def HasScope (s : State) : VarScope → Prop
  | .global => True
  | .seat seat => seat.toNat < s.seatCount
  | .zone zone => s.store.hasZone zone = true

/-- The stored variables of a scope. -/
def varsOf? (s : State) : VarScope → Option Vars
  | .global => some s.globalVars
  | .seat seat => s.seatVars.get? seat
  | .zone zone => s.zoneVars.get? zone

/-- Two states that differ in one variable at most. -/
structure AgreesBut (s t : State) (scope : VarScope) (name : String) : Prop where
  scopes : ∀ other, other ≠ scope → t.varsOf? other = s.varsOf? other
  names : ∀ other, other ≠ name → t.stored? scope other = s.stored? scope other
  seats : t.seatCount = s.seatCount
  rest : t = { s with globalVars := t.globalVars, seatVars := t.seatVars, zoneVars := t.zoneVars }

/-- A state differs from itself in no variable. -/
theorem AgreesBut.refl (s : State) (scope : VarScope) (name : String) : s.AgreesBut s scope name :=
  ⟨fun _ _ => rfl, fun _ _ => rfl, rfl, rfl⟩

/-- A seat whose variables are meant is one of the game. -/
theorem HasScope.lt (h : s.HasScope scope) :
    ∀ seat, scope = .seat seat → seat.toNat < s.seatCount := by
  rintro seat rfl
  exact h

/-- A declared variable has a value: the stored one, or else the initial one. -/
theorem exists_valueOf? (s : State) {d : Definition} {declared : Variable}
    (h : d.declared? scope name = some declared) : ∃ n, s.valueOf? d scope name = some n := by
  rw [valueOf?, h]
  cases s.stored? scope name with
  | none => exact ⟨declared.initial, rfl⟩
  | some n => exact ⟨n, rfl⟩

/-- A variable that is set is the only thing that changes. -/
theorem agreesBut_setVar (h : s.HasScope scope) (n : Int64) :
    s.AgreesBut (s.setVar scope name n) scope name where
  scopes other hother := by
    cases scope with
    | global => cases other <;> first | rfl | exact absurd rfl hother
    | seat seat =>
      cases other with
      | seat seat' =>
        refine (PerSeat.get?_modify _ _ _ _).trans (if_neg ?_)
        rintro rfl
        exact hother rfl
      | _ => rfl
    | zone zone =>
      cases other with
      | zone zone' =>
        refine Dict.get?_insert_ne _ _ ?_
        rintro rfl
        exact hother rfl
      | _ => rfl
  names other hother := by
    rw [s.stored?_setVar name n h.lt, if_neg fun hsame => hother hsame.2]
  seats := by
    cases scope with
    | seat seat => exact List.length_modify ..
    | _ => rfl
  rest := by cases scope <;> rfl

end State

namespace Site

variable {s : Site} {x : Session} {target : VarTarget} {name : String} {scope : VarScope}
  {declared : Variable} {current : Int64}

/-- A target that means a scope in which the name is declared means a variable, with the value that
it has. -/
theorem varSlot_of_resolve (hscope : target.resolve (s.view x) = .ok scope)
    (hdeclared : s.definition.declared? scope name = some declared)
    (hcurrent : x.state.valueOf? s.definition scope name = some current) :
    s.varSlot x target name = .ok { scope, declared, current } := by
  obtain ⟨found, hslot⟩ : ∃ found, s.varSlot x target name =
      .ok { scope, declared, current := found } := by
    cases target with
    | global =>
      cases hscope
      refine ⟨_, bind_ok ?_ rfl⟩
      rw [show s.definition.globalVar? name = some declared from hdeclared]
      rfl
    | seat ref =>
      unfold VarTarget.resolve at hscope
      obtain ⟨seat, hseat, h⟩ := bind_eq_ok hscope
      cases h
      refine ⟨_, bind_ok hseat (bind_ok ?_ rfl)⟩
      rw [show s.definition.seatVar? name = some declared from hdeclared]
      rfl
    | zone ref =>
      unfold VarTarget.resolve at hscope
      obtain ⟨zone, hzone, h⟩ := bind_eq_ok hscope
      cases h
      refine ⟨_, bind_ok hzone (bind_ok ?_ rfl)⟩
      rw [show s.definition.zoneVar? name = some declared from hdeclared]
      rfl
  have hfound := valueOf?_of_varSlot hslot
  rw [hcurrent] at hfound
  cases hfound
  exact hslot

end Site

/-! ## Writes -/

/-- A session after one variable was written, which had an old value and has a new one.  Whoever
listens is told of it exactly if the value has changed. -/
structure Session.Assigns (d : Definition) (scope : VarScope) (name : String) (old new : Int64)
    (x y : Session) : Prop where
  value : y.state.valueOf? d scope name = some new
  events : y.events = x.events ++ if old = new then [] else [.varChanged scope name old new]
  others : x.state.AgreesBut y.state scope name
  ops : y.ops = x.ops
  still : old = new → y = x

namespace Site

variable {s : Site} {x y : Session} {target : VarTarget} {name : String} {scope : VarScope}
  {declared : Variable} {old new : Int64}

/-- Storing a value writes the variable. -/
theorem storeVar_assigns (hscope : x.state.HasScope scope)
    (hold : x.state.valueOf? s.definition scope name = some old) (new : Int64) :
    Session.Assigns s.definition scope name old new x (s.storeVar x scope name old new) := by
  unfold storeVar
  by_cases hsame : old = new
  · subst hsame
    rw [if_pos rfl]
    refine ⟨hold, ?_, .refl _ _ _, rfl, fun _ => rfl⟩
    rw [if_pos rfl, List.append_nil]
  · rw [if_neg hsame]
    refine ⟨?_, ?_, ?_, ?_, fun h => absurd h hsame⟩
    · rw [note_state]
      change (State.stored? (x.state.setVar scope name new) scope name).or _ = _
      rw [State.stored?_setVar _ _ _ hscope.lt, if_pos ⟨rfl, rfl⟩]
      rfl
    · rw [note_events, if_neg hsame]
      rfl
    · rw [note_state]
      exact State.agreesBut_setVar hscope new
    · rw [note_ops]
      rfl

/-- The same variable is meant after it was written, and it has its new value. -/
theorem varSlot_of_assigns (h : Session.Assigns s.definition scope name old new x y)
    (hscope : target.resolve (s.view x) = .ok scope)
    (hdeclared : s.definition.declared? scope name = some declared) :
    s.varSlot y target name = .ok { scope, declared, current := new } := by
  refine varSlot_of_resolve ?_ hdeclared h.value
  rw [← hscope]
  refine target.resolve_inState (v := s.view x) (t := y.state) ?_ h.others.seats ?_
  · rw [h.others.rest]
    rfl
  · rw [h.others.rest]
    rfl

/-- Setting a variable that has a slot, to a value that is an integer or a truth, stores the clamped
value and binds nothing. -/
theorem run_setVar {slot : VarSlot} {value : Expr} {v : Value} {n : Int64}
    (hslot : s.varSlot x target name = .ok slot) (hvalue : value.eval (s.view x) = .ok v)
    (hn : v.varInt? = some n) :
    Effect.run (.setVar target name value) s x =
      .ok (s.storeVar x slot.scope name slot.current (slot.declared.clamp n.toInt),
        s.bindings) := by
  have hset : s.setVar x target name value =
      .ok (s.storeVar x slot.scope name slot.current (slot.declared.clamp n.toInt)) := by
    refine bind_ok hvalue (bind_ok ?_ (bind_ok hslot rfl))
    rw [hn]
    rfl
  rw [Effect.run, hset]
  rfl

/-- Adding to a variable that has a slot stores the clamped sum, taken over all integers, and binds
nothing. -/
theorem run_addVar {slot : VarSlot} {delta : Expr} {d : Int64}
    (hslot : s.varSlot x target name = .ok slot) (hdelta : delta.evalInt (s.view x) = .ok d) :
    Effect.run (.addVar target name delta) s x =
      .ok (s.storeVar x slot.scope name slot.current
        (slot.declared.clamp (slot.current.toInt + d.toInt)), s.bindings) := by
  have hadd : s.addVar x target name delta =
      .ok (s.storeVar x slot.scope name slot.current
        (slot.declared.clamp (slot.current.toInt + d.toInt))) :=
    bind_ok hdelta (bind_ok hslot rfl)
  rw [Effect.run, hadd]
  rfl

end Site

/-- What the two effects that write variables do.  The target means a scope of the game in which the
name is declared.  Writing an integer makes the variable the nearest value within its bounds, adding
one makes it the nearest value to the exact sum, and writing the same integer again does nothing at
all.  A sum that is cut off at the limits of 64 bits would have the same nearest value. -/
theorem Site.writes_variable {s : Site} {x : Session} {target : VarTarget} {name : String}
    {scope : VarScope} {declared : Variable} (hscope : target.resolve (s.view x) = .ok scope)
    (hexists : x.state.HasScope scope)
    (hdeclared : s.definition.declared? scope name = some declared) :
    ∃ old, x.state.valueOf? s.definition scope name = some old ∧
      (∀ value v n, value.eval (s.view x) = .ok v → v.varInt? = some n → ∃ new y,
        new.toInt = max declared.lower.toInt (min declared.upper.toInt n.toInt) ∧
        Effect.run (.setVar target name value) s x = .ok (y, s.bindings) ∧
        Session.Assigns s.definition scope name old new x y ∧
        ∀ value' v', value'.eval (s.view y) = .ok v' → v'.varInt? = some n →
          Effect.run (.setVar target name value') s y = .ok (y, s.bindings)) ∧
      ∀ delta d, delta.evalInt (s.view x) = .ok d → ∃ new y,
        new.toInt = max declared.lower.toInt (min declared.upper.toInt (old.toInt + d.toInt)) ∧
        new = declared.clamp (cutOff (old.toInt + d.toInt)) ∧
        Effect.run (.addVar target name delta) s x = .ok (y, s.bindings) ∧
        Session.Assigns s.definition scope name old new x y := by
  obtain ⟨old, hold⟩ := State.exists_valueOf? x.state hdeclared
  have hslot := varSlot_of_resolve hscope hdeclared hold
  refine ⟨old, hold, fun value v n hvalue hn => ?_, fun delta d hdelta => ?_⟩
  · have hassigns := storeVar_assigns hexists hold (declared.clamp n.toInt)
    refine ⟨_, _, declared.toInt_clamp _, run_setVar hslot hvalue hn, hassigns, ?_⟩
    intro value' v' hvalue' hn'
    -- The old value is now the new one, so nothing is stored.
    have hslot' := varSlot_of_assigns hassigns hscope hdeclared
    rw [run_setVar hslot' hvalue' hn', storeVar, if_pos rfl]
  · exact ⟨_, _, declared.toInt_clamp _, (declared.clamp_cutOff _).symm, run_addVar hslot hdelta,
      storeVar_assigns hexists hold _⟩

/-- A pinball machine whose score is close to the end of its counter. -/
def Definition.pinball : Definition :=
  { Definition.minimal "pinball" with
    globalVars := [.ofInt "score" 9223372036854775800 0 Int64.maxValue] }

/-- Where the ball hits a bumper. -/
def Site.bumper : Site where
  setting := { game := .ofDefinition .pinball, actor := ⟨0⟩ }
  path := "bumper"
  bindings := ∅

/-- The machine after it was switched on. -/
def Session.pinball : Session where
  state := (Site.bumper.setting.game.start 1 0).toOption.getD default

/-- A hundred points are seven points there. -/
theorem Site.writes_variable_pinball :
    VarTarget.global.resolve (Site.bumper.view .pinball) = .ok .global ∧
      Session.pinball.state.HasScope .global ∧
      Site.bumper.definition.declared? .global "score" =
        some (.ofInt "score" 9223372036854775800 0 Int64.maxValue) ∧
      ∃ y, Effect.run (.addVar .global "score" (.int 100)) Site.bumper .pinball = .ok (y, ∅) ∧
        y.events = [.varChanged .global "score" 9223372036854775800 Int64.maxValue] := by
  obtain ⟨old, hold, -, hadd⟩ := @Site.writes_variable Site.bumper .pinball .global "score" .global
    (.ofInt "score" 9223372036854775800 0 Int64.maxValue) rfl trivial rfl
  have hscore : Session.pinball.state.valueOf? Site.bumper.definition .global "score" =
      some 9223372036854775800 := by
    decide +kernel
  obtain rfl := Option.some.inj (hscore.symm.trans hold)
  obtain ⟨new, y, hnew, -, hrun, hassigns⟩ := hadd (.int 100) 100 rfl
  obtain rfl : new = Int64.maxValue := Int64.toInt_inj.1 (hnew.trans (by decide))
  refine ⟨rfl, trivial, rfl, y, hrun, ?_⟩
  rw [hassigns.events]
  rfl

end Tabletop
