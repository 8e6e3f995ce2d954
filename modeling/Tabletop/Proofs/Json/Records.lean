import Tabletop.Effect.Decision
import Tabletop.Proofs.Json.Trees
import Tabletop.State.Basic

/-!
# Definitions and states are read back

The records of a definition and of a state hold trees, ground values and each other.  Their forms
are lawful one after the other, from the inside out, and so in the end are those of definitions,
states, moves and everything that travels on its own.

A decision is the one exception, and a small one: it counts its options in natural numbers, while
its form has room for 64 bits.  Within that width it is read back like everything else, and whatever
is read as a decision is within it.

Main statement: `faithful_forms`.
-/

namespace Tabletop

open Json

/-! ## The layout of a table -/

instance : LawfulCoded ZoneOrder := ⟨fun x => by cases x <;> rfl⟩

instance : LawfulCoded Zone := .of fun z => by simp -implicitDefEqProofs

instance : LawfulCoded TokenType := .of fun t => by simp -implicitDefEqProofs

instance : LawfulCoded StackingLimit := .of fun l => by simp -implicitDefEqProofs

instance : LawfulCoded MapSpace := .of fun s => by simp -implicitDefEqProofs

instance : LawfulCoded GameMap := .of fun m => by simp -implicitDefEqProofs
instance : NeverNull GameMap := ⟨nofun⟩

instance : LawfulCoded Lattice := .of fun l => by simp -implicitDefEqProofs

instance : LawfulCoded DataTable := .of fun t => by simp -implicitDefEqProofs

instance : LawfulCoded VariableKind := ⟨fun x => by cases x <;> rfl⟩

instance : LawfulCoded Variable := .of fun v => by simp -implicitDefEqProofs

/-! ## Turns and endings -/

instance : LawfulCoded Phase := .of fun p => by simp -implicitDefEqProofs

instance : LawfulCoded TurnStructure := .of fun t => by simp -implicitDefEqProofs

instance : LawfulCoded CheckpointTiming := ⟨fun x => by cases x <;> rfl⟩

instance : LawfulCoded Checkpoint := .of fun c => by simp -implicitDefEqProofs

instance : LawfulCoded Margin := .of fun m => by simp -implicitDefEqProofs

instance : LawfulCoded Victory := .of fun v => by simp -implicitDefEqProofs
instance : NeverNull Victory := ⟨nofun⟩

instance : LawfulCoded CardRules := .of fun c => by simp -implicitDefEqProofs

instance : LawfulCoded TurnOrder := .of fun o => by cases o <;> simp -implicitDefEqProofs

instance : LawfulCoded Ending := .of fun e => by cases e <;> simp -implicitDefEqProofs

instance : LawfulCoded EndCondition := .of fun e => by simp -implicitDefEqProofs

/-! ## Actions and triggers -/

instance : LawfulCoded SeatSelector := .of fun s => by cases s <;> simp -implicitDefEqProofs

instance : LawfulCoded Param := .of fun p => by simp -implicitDefEqProofs

instance : LawfulCoded UsageScope := ⟨fun x => by cases x <;> rfl⟩

instance : LawfulCoded UsageLimit := .of fun l => by simp -implicitDefEqProofs

instance : LawfulCoded Duration := ⟨fun x => by cases x <;> rfl⟩

instance : LawfulCoded LastingEffect := .of fun l => by simp -implicitDefEqProofs

instance : LawfulCoded Action := .of fun a => by simp -implicitDefEqProofs

instance : LawfulCoded CostRule := ⟨fun x => by cases x <;> rfl⟩

instance : LawfulCoded Stage := .of fun s => by simp -implicitDefEqProofs

instance : LawfulCoded ParamRelation := ⟨fun x => by cases x <;> rfl⟩

instance : LawfulCoded ParamRule := .of fun r => by simp -implicitDefEqProofs

instance : LawfulCoded Pipeline := .of fun p => by simp -implicitDefEqProofs

instance : LawfulCoded EventPattern := .of fun p => by cases p <;> simp -implicitDefEqProofs

instance : LawfulCoded Trigger := .of fun t => by simp -implicitDefEqProofs

/-! ## Definitions -/

instance : LawfulCoded Metadata := .of fun m => by simp -implicitDefEqProofs

instance : LawfulCoded Definition := .of fun d => by simp -implicitDefEqProofs

/-! ## States -/

instance : LawfulCoded Token := .of fun t => by simp -implicitDefEqProofs

instance : LawfulCoded Store := .of fun s => by simp -implicitDefEqProofs

instance : LawfulCoded Grant := .of fun g => by simp -implicitDefEqProofs

instance : LawfulCoded Override := .of fun o => by simp -implicitDefEqProofs

instance : LawfulCoded CardState := .of fun c => by simp -implicitDefEqProofs

instance : LawfulCoded Tracker := .of fun t => by cases t <;> simp -implicitDefEqProofs

instance : LawfulCoded Usage := .of fun u => by simp -implicitDefEqProofs

instance : LawfulCoded ActiveLasting := .of fun l => by simp -implicitDefEqProofs

instance : LawfulCoded RandomState := .of fun r => by simp -implicitDefEqProofs

instance : LawfulCoded State := .of fun s => by simp -implicitDefEqProofs

/-! ## Events and values -/

instance : LawfulCoded VarScope := .of fun s => by cases s <;> simp -implicitDefEqProofs

instance : LawfulCoded Event := .of fun e => by cases e <;> simp -implicitDefEqProofs

instance : LawfulCoded Value := .of fun x => by cases x <;> simp -implicitDefEqProofs

instance : LawfulCoded DecisionKind := ⟨fun x => by cases x <;> rfl⟩

namespace Decision

/-- The counts of a decision have 64 bits. -/
structure Sized (d : Decision) : Prop where
  min : d.min < UInt64.size
  max : d.max < UInt64.size

/-- A decision within the width of its form is read back. -/
theorem ofJson?_toJson {d : Decision} (h : d.Sized) : ofJson? (toJson d) = some d := by
  have hmin := count?_of_lt h.min
  have hmax := count?_of_lt h.max
  delta instCodedDecision
  simp -implicitDefEqProofs [hmin, hmax]

/-- What is read as a decision is within the width of its form. -/
theorem sized_of_ofJson? {j : Json} {d : Decision} (h : ofJson? j = some d) : d.Sized := by
  delta instCodedDecision at h
  simp only [Option.bind_eq_bind, Option.bind_eq_some_iff, Option.pure_def, Option.some.injEq,
    Fields.requiredBy] at h
  obtain ⟨fs, -, id, -, name, -, kind, -, domain, -, min, ⟨_, -, hmin⟩, max, ⟨_, -, hmax⟩, rfl⟩ := h
  exact ⟨lt_of_count? hmin, lt_of_count? hmax⟩

end Decision

/-! ## Faithful forms -/

/-- The JSON form is faithful to the values of a type that satisfy a predicate: they are read back,
they differ in their forms if they differ at all, and every form that can be read at all is that of
such a value, perhaps with defaults left out, so that reading it, writing it and reading it again
changes nothing. -/
structure FaithfulOn {α : Type} [Coded α] (P : α → Prop) : Prop where
  readBack : ∀ x, P x → ofJson? (toJson x) = some x
  injective : ∀ x y, P x → P y → toJson x = toJson y → x = y
  stable : ∀ (j : Json) (x : α), ofJson? j = some x → P x ∧ ofJson? (toJson x) = some x

/-- The JSON form is faithful to all values of a type. -/
abbrev Faithful (α : Type) [Coded α] : Prop := FaithfulOn (fun _ : α => True)

/-- A form is faithful to values that are read back and that are all there is to be read. -/
theorem FaithfulOn.of_readBack {α : Type} [Coded α] {P : α → Prop}
    (hread : ∀ x : α, P x → ofJson? (toJson x) = some x)
    (hall : ∀ (j : Json) (x : α), ofJson? j = some x → P x) : FaithfulOn P where
  readBack := hread
  injective x y hx hy h := by
    have hboth := hread x hx
    rw [h, hread y hy] at hboth
    exact (Option.some.inj hboth).symm
  stable j x h := ⟨hall j x h, hread x (hall j x h)⟩

/-- A type whose forms can be read back has faithful forms. -/
theorem LawfulCoded.faithful (α : Type) [Coded α] [LawfulCoded α] : Faithful α :=
  .of_readBack (fun x _ => ofJson?_toJson x) (fun _ _ _ => trivial)

/-- Definitions, states and moves, the trees and triggers of a definition, events, decisions and
values all travel faithfully in their JSON forms, a decision as far as its counts have 64 bits. -/
theorem faithful_forms :
    Faithful Definition ∧ Faithful State ∧ Faithful Move ∧ Faithful Effect ∧ Faithful Cond ∧
      Faithful Query ∧ Faithful Expr ∧ Faithful Trigger ∧ Faithful Event ∧
      FaithfulOn Decision.Sized ∧ Faithful Scalar ∧ Faithful Selection ∧ Faithful Value := by
  refine ⟨LawfulCoded.faithful _, LawfulCoded.faithful _, LawfulCoded.faithful _,
    LawfulCoded.faithful _, LawfulCoded.faithful _, LawfulCoded.faithful _, LawfulCoded.faithful _,
    LawfulCoded.faithful _, LawfulCoded.faithful _, ?_, LawfulCoded.faithful _,
    LawfulCoded.faithful _, LawfulCoded.faithful _⟩
  exact .of_readBack (fun _ => Decision.ofJson?_toJson) (fun _ _ => Decision.sized_of_ofJson?)

end Tabletop
