import Tabletop.Fault
import Tabletop.Move

/-!
# Refusals

A refusal says why a move may not be made.  Each is named for its cause; the closed list of
`IllegalReason`s classifies them for a client.

Main definitions: `IllegalReason`, `Refusal` and `Refusal.reason`.
-/

namespace Tabletop

/-- Why no grant covers a free operation. -/
inductive GrantDenial where
  | noActiveSeatGrant
  | sequenceLocked
  | actionClassMismatch
  | actionIdMismatch
  | zoneFilterMismatch
  deriving DecidableEq, Repr, Inhabited

namespace GrantDenial

/-- The name of a denial. -/
def text : GrantDenial → String
  | noActiveSeatGrant => "noActiveSeatGrant"
  | sequenceLocked => "sequenceLocked"
  | actionClassMismatch => "actionClassMismatch"
  | actionIdMismatch => "actionIdMismatch"
  | zoneFilterMismatch => "zoneFilterMismatch"

/-- The place of a denial in the order of denials. -/
def rank : GrantDenial → Nat
  | noActiveSeatGrant => 0
  | sequenceLocked => 1
  | actionClassMismatch => 2
  | actionIdMismatch => 3
  | zoneFilterMismatch => 4

/-- The order of denials. -/
def le (a b : GrantDenial) : Bool := a.rank ≤ b.rank

end GrantDenial

instance : Coded GrantDenial where
  toJson d := .str d.text
  ofJson?
    | .str "noActiveSeatGrant" => some .noActiveSeatGrant
    | .str "sequenceLocked" => some .sequenceLocked
    | .str "actionClassMismatch" => some .actionClassMismatch
    | .str "actionIdMismatch" => some .actionIdMismatch
    | .str "zoneFilterMismatch" => some .zoneFilterMismatch
    | _ => none

/-- The classes of reasons why a move is illegal. -/
inductive IllegalReason where
  | gameIsTerminal
  | unknownAction
  | notLegalNow
  | noPipelineApplies
  | pipelineForbids
  | costNotPayable
  | notGranted (denial : GrantDenial)
  | hostNotAccompanied
  | paramRuleBroken
  | badTiming
  | badParams
  | incompleteParams
  deriving DecidableEq, Repr, Inhabited

namespace IllegalReason

/-- The code of a reason. -/
def code : IllegalReason → String
  | gameIsTerminal => "GAME_IS_TERMINAL"
  | unknownAction => "UNKNOWN_ACTION_ID"
  | notLegalNow => "ACTION_NOT_LEGAL_IN_CURRENT_STATE"
  | noPipelineApplies => "ACTION_PIPELINE_NOT_APPLICABLE"
  | pipelineForbids => "ACTION_PIPELINE_LEGALITY_PREDICATE_FAILED"
  | costNotPayable => "ACTION_PIPELINE_COST_VALIDATION_FAILED"
  | notGranted _ => "FREE_OPERATION_NOT_GRANTED"
  | hostNotAccompanied => "SPECIAL_ACTIVITY_ACCOMPANYING_OP_DISALLOWED"
  | paramRuleBroken => "SPECIAL_ACTIVITY_COMPOUND_PARAM_CONSTRAINT_FAILED"
  | badTiming => "COMPOUND_TIMING_CONFIGURATION_INVALID"
  | badParams => "MOVE_PARAMS_NOT_LEGAL_FOR_ACTION"
  | incompleteParams => "MOVE_HAS_INCOMPLETE_PARAMS"

/-- The reason as shown to a reader. -/
def text : IllegalReason → String
  | notGranted denial => (notGranted denial).code ++ " (" ++ denial.text ++ ")"
  | reason => reason.code

end IllegalReason

instance : Coded IllegalReason where
  toJson
    | .gameIsTerminal => .str "gameIsTerminal"
    | .unknownAction => .str "unknownActionId"
    | .notLegalNow => .str "actionNotLegalInCurrentState"
    | .noPipelineApplies => .str "actionPipelineNotApplicable"
    | .pipelineForbids => .str "actionPipelineLegalityPredicateFailed"
    | .costNotPayable => .str "actionPipelineCostValidationFailed"
    | .notGranted denial => .variant "freeOperationNotGranted" (toJson denial)
    | .hostNotAccompanied => .str "specialActivityAccompanyingOpDisallowed"
    | .paramRuleBroken => .str "specialActivityCompoundParamConstraintFailed"
    | .badTiming => .str "compoundTimingConfigurationInvalid"
    | .badParams => .str "moveParamsNotLegalForAction"
    | .incompleteParams => .str "moveHasIncompleteParams"
  ofJson? j :=
    match j.variant? with
    | some ("gameIsTerminal", none) => some .gameIsTerminal
    | some ("unknownActionId", none) => some .unknownAction
    | some ("actionNotLegalInCurrentState", none) => some .notLegalNow
    | some ("actionPipelineNotApplicable", none) => some .noPipelineApplies
    | some ("actionPipelineLegalityPredicateFailed", none) => some .pipelineForbids
    | some ("actionPipelineCostValidationFailed", none) => some .costNotPayable
    | some ("freeOperationNotGranted", some x) => (ofJson? x).map IllegalReason.notGranted
    | some ("specialActivityAccompanyingOpDisallowed", none) => some .hostNotAccompanied
    | some ("specialActivityCompoundParamConstraintFailed", none) => some .paramRuleBroken
    | some ("compoundTimingConfigurationInvalid", none) => some .badTiming
    | some ("moveParamsNotLegalForAction", none) => some .badParams
    | some ("moveHasIncompleteParams", none) => some .incompleteParams
    | _ => none

/-- Why a move is illegal. -/
inductive Refusal where
  | gameOver
  | noSuchAction
  /-- A special activity carries another one. -/
  | nestedSpecial
  | mayNotAccompany (special host : ActionId)
  | paramsUnrelated (rule : ParamRule)
  | notGranted (denial : GrantDenial)
  /-- Something other than a free operation or a pass while grants are pending. -/
  | grantsPending
  | notSeat (shown param : String)
  | notActor (seat : Seat) (actors : SeatSelector)
  | notInPhase (phase : PhaseId)
  | limitReached (limit : UsageLimit)
  | outsideDomain (shown param : String)
  | takesSingleValue (param : String)
  | preconditionFails
  | noPipelineApplies
  | pipelineForbids (pipeline : PipelineId)
  | costNotPayable (pipeline : PipelineId)
  /-- The stage after which a special activity should come is not one of the host's. -/
  | noSuchStage (stage : Option UInt64) (stages : Nat)
  /-- A stage is given for a special activity that comes before or after its host. -/
  | strayStage
  | wrongSelection (decision : String) (fault : ChoiceFault)
  | awaitsSelection (decision name : String)
  deriving DecidableEq, Repr, Inhabited

namespace Refusal

/-- The class of a refusal. -/
def reason : Refusal → IllegalReason
  | gameOver => .gameIsTerminal
  | noSuchAction => .unknownAction
  | nestedSpecial => .badTiming
  | mayNotAccompany .. => .hostNotAccompanied
  | paramsUnrelated .. => .paramRuleBroken
  | notGranted denial => .notGranted denial
  | grantsPending => .notLegalNow
  | notSeat .. => .badParams
  | notActor .. => .notLegalNow
  | notInPhase .. => .notLegalNow
  | limitReached .. => .notLegalNow
  | outsideDomain .. => .badParams
  | takesSingleValue .. => .badParams
  | preconditionFails => .notLegalNow
  | noPipelineApplies => .noPipelineApplies
  | pipelineForbids .. => .pipelineForbids
  | costNotPayable .. => .costNotPayable
  | noSuchStage .. => .badTiming
  | strayStage => .badTiming
  | wrongSelection .. => .badParams
  | awaitsSelection .. => .incompleteParams

/-- A stage that may not be given, in a report. -/
def stageText : Option UInt64 → String
  | some n => "Some(" ++ toString n.toNat ++ ")"
  | none => "None"

/-- The report of a refusal. -/
def detail : Refusal → String
  | gameOver => "the game is over"
  | noSuchAction => "no such action"
  | nestedSpecial => "a special activity cannot carry another"
  | mayNotAccompany special host => quoted special ++ " may not accompany " ++ quoted host
  | paramsUnrelated rule =>
    quoted rule.specialParam ++ " must be " ++ rule.relation.text ++ " with " ++
      quoted rule.hostParam
  | notGranted denial => "no pending grant covers this move (" ++ denial.text ++ ")"
  | grantsPending => "only free operations or a pass are legal while grants are pending"
  | notSeat shown param => quoted shown ++ " is not a legal seat for " ++ quoted param
  | notActor seat actors => seat.text ++ " is not among the actors (" ++ actors.text ++ ")"
  | notInPhase phase => "not available in phase " ++ quoted phase
  | limitReached limit =>
    limit.scope.text ++ " limit of " ++ toString limit.max.toNat ++ " reached"
  | outsideDomain shown param => quoted shown ++ " is not a legal " ++ quoted param
  | takesSingleValue param => quoted param ++ " takes a single value"
  | preconditionFails => "precondition does not hold"
  | noPipelineApplies => "no registered pipeline applies"
  | pipelineForbids pipeline => "pipeline " ++ quoted pipeline
  | costNotPayable pipeline => "pipeline " ++ quoted pipeline
  | noSuchStage stage stages =>
    "insert_after_stage " ++ stageText stage ++ " is not one of " ++ toString stages ++ " stages"
  | strayStage => "insert_after_stage only applies to " ++ quoted "during"
  | wrongSelection decision fault => decision ++ ": " ++ fault.text
  | awaitsSelection decision name =>
    "decision " ++ quoted decision ++ " has no selection for " ++ quoted name

end Refusal

/-- A move that was refused. -/
structure Rejection where
  refusal : Refusal
  action : ActionId
  deriving DecidableEq, Repr, Inhabited

/-- The report of a rejection. -/
def Rejection.message (r : Rejection) : String :=
  "illegal move " ++ quoted r.action ++ ": " ++ r.refusal.reason.text ++ ": " ++ r.refusal.detail

/-- Why a move was not made. -/
inductive Failure where
  | illegal (rejection : Rejection)
  | fault (fault : Fault)

end Tabletop
