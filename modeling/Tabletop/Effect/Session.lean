import Tabletop.Effect.Trace
import Tabletop.Effect.Decision
import Tabletop.Expr.Eval

/-!
# Sessions

Effects run in a session: a working state together with the events and the trace that have come up
and the number of operations spent.  A run that fails leaves no session behind, and the state from
which it started is untouched.

What an effect knows besides the session is its site: for whom and why it runs, the names in scope,
and its path among the effects around it.

Operations are counted in 32 bits, and a run whose count would overflow ends there.
`Site.spend_cases` says all that paying for one can come to, and `Session.ops_tick` that the count
is exact as long as the budget lasts.
-/

namespace Tabletop

/-- What happens at a decision without a fitting selection. -/
inductive DecisionMode where
  /-- It is a fault. -/
  | strict
  /-- The run stops and tells which decision it is. -/
  | discover
  deriving DecidableEq, Repr, Inhabited

/-- The number of operations that effects may take, unless it is said otherwise. -/
def usualOps : UInt32 := 10000

/-- For whom and why effects run, and within what limits. -/
structure Setting where
  game : Game
  actor : Seat
  mode : DecisionMode := .strict
  maxOps : UInt32 := usualOps
  tracing : Bool := false
  cause : Cause := .direct
  action : Option ActionId := none

/-- A working state and what has come up on the way to it. -/
structure Session where
  state : State
  events : List Event := []
  trace : List TraceEntry := []
  /-- Counts the operations. -/
  counter : UInt32 := 0
  deriving Inhabited

/-- Why a run stopped before its end. -/
inductive Halt where
  | fault (fault : Fault)
  /-- A selection is missing. -/
  | pending (decision : Decision)
  /-- The selection for a decision does not fit. -/
  | refused (name : String) (cause : ChoiceFault)

/-- The fault that a halt amounts to where no decision may be left open. -/
def Halt.toFault : Halt → Fault
  | fault f => f
  | pending d => .effect (.selectionAwaited d.name) d.id
  | refused name cause => .effect (.selectionRefused cause) name

/-- The fault of a run that has spent so many operations, which is all that it may spend, and needs
one more: the budget is exceeded, or there is no number left to count it with. -/
def Fault.shortage (n : Nat) (path : String) : Fault :=
  if UInt32.size ≤ n + 1 then .counterOverflow path else .effectBudget n path

/-- Every budget but the greatest is exceeded before the counter overflows. -/
theorem Fault.shortage_of_lt {n : Nat} {path : String} (h : n + 1 < UInt32.size) :
    shortage n path = .effectBudget n path :=
  if_neg (Nat.not_le_of_gt h)

/-- A run that may stop before its end. -/
abbrev Attempt := Except Halt

instance : MonadLift Result Attempt := ⟨fun r => r.mapError Halt.fault⟩

namespace Session

/-- The number of operations spent. -/
def ops (x : Session) : Nat := x.counter.toNat

/-- The session after one more operation has been counted. -/
def tick (x : Session) : Session := { x with counter := x.counter + 1 }

/-- While a budget allows for one more operation, the counter does not overflow. -/
theorem ops_tick {x : Session} {n : UInt32} (h : x.ops < n.toNat) : x.tick.ops = x.ops + 1 :=
  (UInt32.toNat_add _ _).trans (Nat.mod_eq_of_lt (Nat.lt_of_le_of_lt h n.toNat_lt_size))

/-- The session with another state. -/
def withState (x : Session) (state : State) : Session := { x with state }

/-- The session with other tokens. -/
def withStore (x : Session) (store : Store) : Session :=
  { x with state := { x.state with store } }

/-- The session after one more event. -/
def raise (x : Session) (e : Event) : Session := { x with events := x.events ++ [e] }

end Session

/-- What an effect knows besides the session. -/
structure Site where
  setting : Setting
  /-- The way from the outermost effects to this one. -/
  path : String
  bindings : Bindings

namespace Site

/-- The definition of the game. -/
def definition (s : Site) : Definition := s.setting.game.definition

/-- What expressions can see. -/
def view (s : Site) (x : Session) : View where
  game := s.setting.game
  state := x.state
  bindings := s.bindings
  actor := s.setting.actor

/-- The site with a name bound. -/
def bind (s : Site) (name : String) (x : Value) : Site :=
  { s with bindings := s.bindings.bind name x }

/-- The site one segment further in. -/
def enter (s : Site) (segment : String) : Site := { s with path := s.path ++ "/" ++ segment }

/-- Fails for the effect at this site. -/
def fail {α : Type} (s : Site) (cause : EffectFault) : Attempt α :=
  .error (.fault (.effect cause s.path))

/-- Spends one operation: it is counted, and then the budget must not be exceeded.  Under the
greatest budget it is the counter that cannot go further. -/
def spend (s : Site) (x : Session) : Attempt Session :=
  let y := x.tick
  if y.counter = 0 then .error (.fault (.counterOverflow s.path))
  else if s.setting.maxOps < y.counter then
    .error (.fault (.effectBudget s.setting.maxOps.toNat s.path))
  else .ok y

section

variable {s : Site} {x : Session}

/-- Spending an operation, with the count and the budget as natural numbers. -/
theorem spend_eq (s : Site) (x : Session) :
    s.spend x =
      if UInt32.size ≤ x.ops + 1 then .error (.fault (.counterOverflow s.path))
      else if s.setting.maxOps.toNat < x.ops + 1 then
        .error (.fault (.effectBudget s.setting.maxOps.toNat s.path))
      else .ok x.tick := by
  have hcount : x.tick.counter.toNat = (x.ops + 1) % UInt32.size := UInt32.toNat_add _ _
  have hsize : x.ops < UInt32.size := x.counter.toNat_lt_size
  unfold spend
  by_cases hlast : UInt32.size ≤ x.ops + 1
  · rw [show x.ops + 1 = UInt32.size by omega, Nat.mod_self] at hcount
    rw [if_pos (UInt32.toNat_inj.1 hcount), if_pos hlast]
  · rw [Nat.mod_eq_of_lt (Nat.lt_of_not_le hlast)] at hcount
    have hcounted : x.tick.counter ≠ 0 := by
      intro hzero
      rw [hzero] at hcount
      exact absurd hcount.symm (Nat.succ_ne_zero _)
    simp only [if_neg hcounted, if_neg hlast, UInt32.lt_iff_toNat_lt, hcount]

/-- An operation is spent if the budget allows for one more. -/
theorem spend_of_lt (h : x.ops < s.setting.maxOps.toNat) : s.spend x = .ok x.tick := by
  have hcounted : ¬UInt32.size ≤ x.ops + 1 :=
    Nat.not_le_of_gt (Nat.lt_of_le_of_lt h s.setting.maxOps.toNat_lt_size)
  rw [spend_eq, if_neg hcounted, if_neg (Nat.not_lt_of_ge h)]

/-- Once the whole budget is spent, another operation is one too many. -/
theorem spend_of_eq (h : x.ops = s.setting.maxOps.toNat) :
    s.spend x = .error (.fault (.shortage s.setting.maxOps.toNat s.path)) := by
  rw [spend_eq, h, if_pos (Nat.lt_succ_self _)]
  unfold Fault.shortage
  split <;> rfl

/-- An operation is spent, or the run stops with a fault. -/
theorem spend_cases (s : Site) (x : Session) :
    (x.ops < s.setting.maxOps.toNat ∧ s.spend x = .ok x.tick) ∨
      (¬x.ops < s.setting.maxOps.toNat ∧ ∃ fault, s.spend x = .error (.fault fault)) := by
  by_cases h : x.ops < s.setting.maxOps.toNat
  · exact .inl ⟨h, spend_of_lt h⟩
  · refine .inr ⟨h, ?_⟩
    rw [spend_eq, if_pos (Nat.lt_succ_of_le (Nat.le_of_not_lt h))]
    split
    · exact ⟨_, rfl⟩
    · exact ⟨_, rfl⟩

end

/-- The session with a change entered in the trace, if one is kept. -/
def note (s : Site) (x : Session) (change : Change) : Session :=
  if s.setting.tracing then
    { x with trace := x.trace ++ [{
        change
        provenance := {
          phase := x.state.phase
          cause := s.setting.cause
          action := s.setting.action
          path := s.path } }] }
  else x

end Site

end Tabletop
