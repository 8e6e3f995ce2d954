import Tabletop.Value

/-!
# Moves

A move asks to take an action.  It carries the selections for the action's params and for the
decisions its effects ask for, and perhaps a special activity that is carried out along with it.
A move may be partial: it then lacks selections that will be asked for.

Main definition: `Move`.
-/

namespace Tabletop

/-- When a special activity takes place. -/
inductive Timing where
  | before
  /-- After one of the host's stages. -/
  | during
  | after
  deriving DecidableEq, Repr, Inhabited

instance : Coded Timing where
  toJson
    | .before => .str "before"
    | .during => .str "during"
    | .after => .str "after"
  ofJson?
    | .str "before" => some .before
    | .str "during" => some .during
    | .str "after" => some .after
    | _ => none

/-- A special activity carried by a host, itself a `μ`. -/
structure Accompaniment (μ : Type) where
  special : μ
  timing : Timing
  /-- The stage of the host that it follows. -/
  afterStage : Option UInt64 := none
  deriving Repr

/-- A request to take an action. -/
structure Move where
  action : ActionId
  /-- The selections, by param or decision name. -/
  params : Dict Selection := ∅
  /-- Whether the move uses a grant instead of the seat's turn. -/
  free : Bool := false
  /-- Replaces the action's class where grants are matched. -/
  classOverride : Option String := none
  compound : Option (Accompaniment Move) := none

namespace Move

instance : Inhabited Move := ⟨{ action := "" }⟩

/-- A move without params. -/
def named (action : ActionId) : Move := { action }

/-- The move with a selection set. -/
def select (m : Move) (name : String) (x : Selection) : Move :=
  { m with params := m.params.insert name x }

/-- The move as a free operation. -/
def freely (m : Move) : Move := { m with free := true }

/-- The move with another class. -/
def ofClass (m : Move) (c : String) : Move := { m with classOverride := some c }

/-- The move carrying a special activity. -/
def accompaniedBy (m special : Move) (timing : Timing) (afterStage : Option UInt64) : Move :=
  { m with compound := some { special, timing, afterStage } }

/-- Params in parentheses, as shown to a reader; nothing when there are none. -/
def paramsText (params : Dict Selection) : String :=
  if params.isEmpty then ""
  else "(" ++ ", ".intercalate (params.entries.map (fun e => e.1 ++ "=" ++ e.2.text)) ++ ")"

/-- The move as shown to a reader. -/
def text : Move → String
  | ⟨action, params, free, _, compound⟩ =>
    action ++ paramsText params ++ (if free then " [free]" else "") ++
      match compound with
      | some ⟨special, _, _⟩ => " + " ++ special.text
      | none => ""

/-! ## JSON form -/

/-- The JSON form of a move. -/
def write : Move → Json
  | ⟨action, params, free, classOverride, compound⟩ =>
    .obj [("action_id", toJson action), ("params", toJson params), ("free_operation", toJson free),
      ("action_class", toJson classOverride),
      ("compound", match compound with
        | some ⟨special, timing, afterStage⟩ =>
          .obj [("special_activity", write special), ("timing", toJson timing),
            ("insert_after_stage", toJson afterStage)]
        | none => .null)]

/-- Reads a move whose form nests at most as deep as the first argument says. -/
def read : Nat → Json → Option Move
  | 0, _ => none
  | n + 1, j => do
    let fs ← j.fields?
    return {
      action := ← fs.required "action_id"
      params := ← fs.withDefault "params" ∅
      free := ← fs.withDefault "free_operation" false
      classOverride := ← fs.withDefault "action_class" none
      compound := ← fs.withDefaultBy (Json.optionBy (readCompound n)) "compound" none }
where
  /-- Reads what a move carries along. -/
  readCompound (n : Nat) (j : Json) : Option (Accompaniment Move) := do
    let fs ← j.fields?
    return {
      special := ← fs.requiredBy (read n) "special_activity"
      timing := ← fs.required "timing"
      afterStage := ← fs.withDefault "insert_after_stage" none }

instance : Coded Move where
  toJson := write
  ofJson? j := read j.depth j

end Move

end Tabletop
