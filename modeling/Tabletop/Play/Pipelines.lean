import Tabletop.Expr.Eval
import Tabletop.Refusal

/-!
# Which pipeline carries out an action

Of the pipelines of an action the first that applies carries it out.  An action that has pipelines
of which none applies cannot be taken.  A pipeline may forbid the move, and it may check whether its
cost can be paid.

Main definition: `dispatchPipeline`.
-/

namespace Tabletop

/-- What carries out an action. -/
inductive Dispatch where
  /-- The action has no pipelines. -/
  | plain
  | matched (pipeline : Pipeline)
  /-- The action has pipelines, but none applies. -/
  | unmatched
  deriving Inhabited

/-- What becomes of the cost of a move. -/
inductive Payment where
  | spend
  /-- The cost cannot be paid, and a pipeline lets that pass. -/
  | skip (pipeline : PipelineId)
  /-- Free operations cost nothing. -/
  | free
  deriving DecidableEq, Repr, Inhabited

/-- What is reported of a payment that is out of the ordinary. -/
def Payment.warning? : Payment → Option String
  | skip pipeline =>
    some ("pipeline " ++ quoted pipeline ++
      ": cost validation failed, resolving without spending cost")
  | spend => none
  | free => none

/-- How an action without pipelines is paid for. -/
def Payment.plain (free : Bool) : Payment := if free then .free else .spend

namespace Pipeline

/-- Whether a pipeline's window is open: it has none, or one of its lasting effects is active. -/
def isOpen (p : Pipeline) (s : State) : Bool :=
  p.linkedWindows.isEmpty || s.lasting.any (fun l => p.linkedWindows.contains l.id)

/-- Whether a pipeline applies. -/
def applies (p : Pipeline) (v : View) : Result Bool :=
  if p.isOpen v.state then holdsIn (.applicability p.id) p.applicability v else .ok false

/-- The first of several pipelines that applies. -/
def firstApplying? (v : View) : List Pipeline → Result (Option Pipeline)
  | [] => .ok none
  | p :: ps => do if ← p.applies v then return some p else firstApplying? v ps

/-- How a move that a pipeline carries out is paid for, or why the pipeline refuses it. -/
def payment (p : Pipeline) (free : Bool) (v : View) : Result (Except Refusal Payment) := do
  if ← holdsIn (.legality p.id) p.legality v then
    if free then return .ok .free
    else if ← holdsIn (.costCheck p.id) p.costCheck v then return .ok .spend
    else
      match p.costRule with
      | .atomic => return .error (.costNotPayable p.id)
      | .lenient => return .ok (.skip p.id)
  else return .error (.pipelineForbids p.id)

/-- Whether an action may accompany a host through a pipeline. -/
def mayAccompany (p : Pipeline) (host : ActionId) : Bool :=
  p.accompanies.all (fun hosts => hosts.contains host)

end Pipeline

/-- What carries out an action in a view. -/
def dispatchPipeline (action : ActionId) (v : View) : Result Dispatch := do
  let pipelines := v.definition.pipelinesOf action
  match ← Pipeline.firstApplying? v pipelines with
  | some p => return .matched p
  | none => return if pipelines.isEmpty then .plain else .unmatched

end Tabletop
