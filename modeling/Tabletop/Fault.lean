import Tabletop.Definition.Basic

/-!
# Faults

A fault says that a definition is broken: something it refers to is not there, a value is of the
wrong type, a limit is passed.  A move that is merely not allowed is no fault but a refusal.  Each
fault is named for its cause; `Fault.code` and `Fault.message` say how it is reported.

Main definitions: `Fault`, `Fault.code` and `Fault.message`.
-/

namespace Tabletop

/-- A quotation of a name in a report. -/
def quoted (name : String) : String := "`" ++ name ++ "`"

/-- A range in a report. -/
def rangeText (lo hi : String) : String := lo ++ "..=" ++ hi

/-- What a definition can fail to declare. -/
inductive Entity where
  | globalVar
  | seatVar
  | zoneVar
  | zone
  | action
  | phase
  | tokenType
  | tokenProp
  | constant
  | table
  | tableRow
  | marker
  | lastingEffect
  | seat
  deriving DecidableEq, Repr, Inhabited

/-- What an entity is called in a report. -/
def Entity.text : Entity → String
  | globalVar => "global variable"
  | seatVar => "per-player variable"
  | zoneVar => "zone variable"
  | zone => "zone"
  | action => "action"
  | phase => "phase"
  | tokenType => "token type"
  | tokenProp => "token prop"
  | constant => "constant"
  | table => "table"
  | tableRow => "table row"
  | marker => "marker"
  | lastingEffect => "lasting effect"
  | seat => "player"

/-- Where a value of the wrong type was met. -/
inductive Place where
  | named (name : String)
  | expression (e : Expr)

/-- The place in a report.  An expression is not spelled out. -/
def Place.text : Place → String
  | named name => name
  | expression _ => "(expression)"

/-- The operator's name in a report. -/
def ArithOp.text : ArithOp → String
  | add => "Add"
  | sub => "Sub"
  | mul => "Mul"
  | div => "Div"
  | min => "Min"
  | max => "Max"

/-- The operator's name in a report. -/
def CompareOp.text : CompareOp → String
  | eq => "Eq"
  | ne => "Ne"
  | lt => "Lt"
  | le => "Le"
  | gt => "Gt"
  | ge => "Ge"

/-- How arithmetic fails. -/
inductive ArithFault where
  | overflow (op : ArithOp) (left right : Int64)
  | divisionByZero (left : Int64)
  /-- A range of more integers than a query may yield. -/
  | rangeTooLong (min max : Int64) (limit : Nat)
  deriving DecidableEq, Repr, Inhabited

/-- The report of an arithmetic fault. -/
def ArithFault.text : ArithFault → String
  | overflow op l r =>
    "overflow in " ++ op.text ++ "(" ++ toString l.toInt ++ ", " ++ toString r.toInt ++ ")"
  | divisionByZero l => "division by zero (" ++ toString l.toInt ++ " / 0)"
  | rangeTooLong min max limit =>
    "intRange " ++ rangeText (toString min.toInt) (toString max.toInt) ++ " exceeds " ++
      toString limit ++ " items"

/-- Why a selection does not answer its decision. -/
inductive ChoiceFault where
  | outside (shown name : String)
  | notArray (name found : String)
  | repeated (shown name : String)
  | wrongNumber (name : String) (min max got : Nat)
  deriving DecidableEq, Repr, Inhabited

/-- The report of a choice fault. -/
def ChoiceFault.text : ChoiceFault → String
  | outside shown name => quoted shown ++ " is not an option for " ++ quoted name
  | notArray name found => quoted name ++ " must be an array, got " ++ found
  | repeated shown name => quoted shown ++ " selected twice for " ++ quoted name
  | wrongNumber name min max got =>
    quoted name ++ " needs " ++ rangeText (toString min) (toString max) ++ " selections, got " ++
      toString got

/-- The classes into which failures of effects fall. -/
inductive EffectReason where
  | tokenNotFound
  | tokenOwnershipViolation
  | sourceZoneMismatch
  | notAdjacent
  | missingDecisionBinding
  | choiceOutOfDomain
  | choiceNotArray
  | choiceDuplicateSelection
  | choiceCardinalityMismatch
  | invalidLimit
  | unknownMarkerState
  | turnOrderMismatch
  | invalidPhase
  deriving DecidableEq, Repr, Inhabited

/-- What a class is called in a report. -/
def EffectReason.text : EffectReason → String
  | tokenNotFound => "token not found"
  | tokenOwnershipViolation => "token ownership violation"
  | sourceZoneMismatch => "source zone mismatch"
  | notAdjacent => "destination not adjacent"
  | missingDecisionBinding => "missing decision binding"
  | choiceOutOfDomain => "choice out of domain"
  | choiceNotArray => "choice is not an array"
  | choiceDuplicateSelection => "duplicate selection"
  | choiceCardinalityMismatch => "cardinality mismatch"
  | invalidLimit => "invalid limit"
  | unknownMarkerState => "unknown marker state"
  | turnOrderMismatch => "turn order mismatch"
  | invalidPhase => "invalid phase"

/-- The class of a choice fault. -/
def ChoiceFault.reason : ChoiceFault → EffectReason
  | outside .. => .choiceOutOfDomain
  | notArray .. => .choiceNotArray
  | repeated .. => .choiceDuplicateSelection
  | wrongNumber .. => .choiceCardinalityMismatch

/-- Why an effect cannot be carried out. -/
inductive EffectFault where
  | tokenMissing (token : TokenId)
  /-- A token is not at the place where it has just been found. -/
  | tokenGone (token : TokenId) (zone : ZoneId)
  | tokenInSeveralPlaces (token : TokenId) (count : Nat)
  | tokenElsewhere (token : TokenId) (zone expected : ZoneId)
  | notAdjacent (target source : ZoneId)
  /-- A move lacks a selection. -/
  | selectionMissing (name : String)
  /-- A decision was left open where none may be. -/
  | selectionAwaited (name : String)
  | selectionWrong (fault : ChoiceFault)
  /-- A selection was refused where none may be; it counts as outside of the domain. -/
  | selectionRefused (fault : ChoiceFault)
  | negativeLoopLimit (limit : Int64)
  | emptyRoll (min max : Int64)
  | negativeBudget (budget : Int64)
  | badCardinality (min max : Int64)
  | grantWithoutUse
  | unknownMarkerState (state marker : String)
  | notCardDriven (effect : String)
  | notInterrupt (phase : PhaseId)
  deriving DecidableEq, Repr, Inhabited

namespace EffectFault

/-- The class of an effect's failure. -/
def reason : EffectFault → EffectReason
  | tokenMissing .. => .tokenNotFound
  | tokenGone .. => .tokenNotFound
  | tokenInSeveralPlaces .. => .tokenOwnershipViolation
  | tokenElsewhere .. => .sourceZoneMismatch
  | notAdjacent .. => .notAdjacent
  | selectionMissing .. => .missingDecisionBinding
  | selectionAwaited .. => .missingDecisionBinding
  | selectionWrong fault => fault.reason
  | selectionRefused .. => .choiceOutOfDomain
  | negativeLoopLimit .. => .invalidLimit
  | emptyRoll .. => .invalidLimit
  | negativeBudget .. => .invalidLimit
  | badCardinality .. => .invalidLimit
  | grantWithoutUse => .invalidLimit
  | unknownMarkerState .. => .unknownMarkerState
  | notCardDriven .. => .turnOrderMismatch
  | notInterrupt .. => .invalidPhase

/-- The report of an effect's failure. -/
def text : EffectFault → String
  | tokenMissing token => "token " ++ quoted token ++ " is not in any zone"
  | tokenGone token zone => "token " ++ quoted token ++ " vanished from " ++ quoted zone
  | tokenInSeveralPlaces token count =>
    "token " ++ quoted token ++ " appears in " ++ toString count ++ " places"
  | tokenElsewhere token zone expected =>
    "token " ++ quoted token ++ " is in " ++ quoted zone ++ ", not " ++ quoted expected
  | notAdjacent target source => quoted target ++ " is not adjacent to " ++ quoted source
  | selectionMissing name => "move carries no selection for " ++ quoted name
  | selectionAwaited name => "no selection for " ++ quoted name
  | selectionWrong fault => fault.text
  | selectionRefused fault => fault.text
  | negativeLoopLimit limit => "forEach limit " ++ toString limit.toInt ++ " is negative"
  | emptyRoll min max =>
    "rollRandom range " ++ rangeText (toString min.toInt) (toString max.toInt) ++ " is empty"
  | negativeBudget budget =>
    "removeByPriority budget " ++ toString budget.toInt ++ " is negative"
  | badCardinality min max =>
    "chooseN cardinality " ++ rangeText (toString min.toInt) (toString max.toInt) ++ " is invalid"
  | grantWithoutUse => "a free-operation grant needs at least one use"
  | unknownMarkerState state marker =>
    quoted state ++ " is not a state of marker " ++ quoted marker
  | notCardDriven effect => effect ++ " needs a card-driven turn order"
  | notInterrupt phase => quoted phase ++ " is not an interrupt phase"

end EffectFault

/-- Why a selector names no seat. -/
inductive SelectorFault where
  | outOfRange (index : Int) (count : Nat)
  | noneListed
  | unbound (name : String)
  | notSeat (shown : String)
  | notSingle (count : Nat)
  deriving DecidableEq, Repr, Inhabited

/-- The report of a selector fault. -/
def SelectorFault.text : SelectorFault → String
  | outOfRange index count =>
    "seat " ++ toString index ++ " is out of range for " ++ toString count ++ " players"
  | noneListed => "empty seat list"
  | unbound name => quoted name ++ " is not bound"
  | notSeat shown => quoted shown ++ " is not a seat index"
  | notSingle count => "expected exactly one seat, got " ++ toString count

/-- The conditions and expressions of a definition that are named when one fails. -/
inductive Predicate where
  | triggerMatch (trigger : TriggerId)
  | triggerWhen (trigger : TriggerId)
  | applicability (pipeline : PipelineId)
  | legality (pipeline : PipelineId)
  | costCheck (pipeline : PipelineId)
  | grantFilter (grant : String)
  | paramDomain (name : String)
  | precondition (action : ActionId)
  | endCondition (index : Nat)
  | checkpoint (id : String)
  | margin (seat : Seat)
  deriving DecidableEq, Repr, Inhabited

/-- What a predicate is called in a report. -/
def Predicate.text : Predicate → String
  | triggerMatch trigger => "trigger " ++ quoted trigger ++ " match"
  | triggerWhen trigger => "trigger " ++ quoted trigger ++ " when"
  | applicability pipeline => "pipeline " ++ quoted pipeline ++ " applicability"
  | legality pipeline => "pipeline " ++ quoted pipeline ++ " legality"
  | costCheck pipeline => "pipeline " ++ quoted pipeline ++ " cost validation"
  | grantFilter grant => "grant " ++ quoted grant ++ " zone filter"
  | paramDomain name => "param " ++ quoted name ++ " domain"
  | precondition action => "action " ++ quoted action ++ " pre"
  | endCondition index => "end condition " ++ toString index
  | checkpoint id => "victory checkpoint " ++ quoted id
  | margin seat => "victory margin of " ++ seat.text

/-- Why a computation on a game failed. -/
inductive Fault where
  /-- An effect cannot be carried out; `path` says which. -/
  | effect (cause : EffectFault) (path : String)
  | effectBudget (max : Nat) (path : String)
  /-- More operations than can be counted. -/
  | counterOverflow (path : String)
  | selector (action : ActionId) (seats : SeatSelector) (cause : SelectorFault)
  | missing (entity : Entity) (id : String)
  | stacking (limit : String) (zone : ZoneId) (count : Nat) (max : UInt32)
  | cascadeDepth (max : UInt32) (event : Event)
  | transitionBudget (max : Nat)
  | mismatch (expected found : String) (place : Place)
  | unbound (name : String)
  | arithmetic (cause : ArithFault)
  /-- A named predicate failed. -/
  | predicate (name : Predicate) (cause : Fault)
  | serialization
  | seatCount (count : Nat) (min max : UInt8)

namespace Fault

instance : Inhabited Fault := ⟨serialization⟩

/-- The code under which a fault is reported. -/
def code : Fault → String
  | effect .. => "EFFECT_RUNTIME"
  | effectBudget .. => "EFFECT_BUDGET_EXCEEDED"
  | counterOverflow _ => "COUNTER_OVERFLOW"
  | selector .. => "INVALID_SELECTOR_SPEC"
  | missing .. => "MISSING_DEFINITION"
  | stacking .. => "STACKING_VIOLATION"
  | cascadeDepth .. => "MAX_TRIGGER_DEPTH_EXCEEDED"
  | transitionBudget .. => "PHASE_TRANSITION_BUDGET_EXCEEDED"
  | mismatch .. => "TYPE_MISMATCH"
  | unbound .. => "UNBOUND_BINDING"
  | arithmetic .. => "ARITHMETIC"
  | predicate .. => "PREDICATE_EVALUATION"
  | serialization => "SERIALIZATION"
  | seatCount .. => "INVALID_PLAYER_COUNT"

/-- The report of a fault. -/
def message : Fault → String
  | effect cause path =>
    "effect runtime error at " ++ path ++ ": " ++ cause.reason.text ++ ": " ++ cause.text
  | effectBudget max path =>
    "effect budget of " ++ toString max ++ " operations exceeded at " ++ path
  | counterOverflow path => "operations can no longer be counted at " ++ path
  | selector action seats cause =>
    "invalid selector spec " ++ quoted seats.text ++ " for action " ++ quoted action ++ ": " ++
      cause.text
  | missing entity id => "missing " ++ entity.text ++ " definition " ++ quoted id
  | stacking limit zone count max =>
    "stacking constraint " ++ quoted limit ++ " violated in zone " ++ quoted zone ++ ": " ++
      toString count ++ " > " ++ toString max.toNat
  | cascadeDepth max event =>
    "trigger cascade exceeded max depth " ++ toString max.toNat ++ " while dispatching " ++
      event.text
  | transitionBudget max =>
    "more than " ++ toString max ++
      " phase transitions while advancing to the next decision point"
  | mismatch expected found place =>
    "type mismatch: expected " ++ expected ++ ", found " ++ found ++ " in " ++ place.text
  | unbound name => "unbound name " ++ quoted name
  | arithmetic cause => "arithmetic error: " ++ cause.text
  | predicate name cause =>
    "predicate " ++ quoted name.text ++ " failed to evaluate: " ++ cause.message
  | serialization => "serialization failed"
  | seatCount count min max =>
    toString count ++ " players requested, definition allows " ++
      rangeText (toString min.toNat) (toString max.toNat)

end Fault

/-- A computation that may fail. -/
abbrev Result := Except Fault

/-- What an option holds, or else a fault. -/
def orFault {α : Type} (x : Option α) (fault : Fault) : Result α :=
  match x with
  | some a => .ok a
  | none => .error fault

/-- Names the predicate in whose evaluation a fault arises. -/
def inPredicate {α : Type} (name : Predicate) (r : Result α) : Result α :=
  r.mapError (Fault.predicate name)

end Tabletop
