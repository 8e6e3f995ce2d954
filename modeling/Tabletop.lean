import Tabletop.Json.Reader
import Tabletop.Json.Writer
import Tabletop.Play.Playthrough
import Tabletop.Play.Start
import Tabletop.Snapshot.State
import Tabletop.Proofs.Paired.Basic
import Tabletop.Proofs.Paired.Widening
import Tabletop.Proofs.Paired.Effects
import Tabletop.Proofs.Paired.Run
import Tabletop.Proofs.Paired.Resolve
import Tabletop.Proofs.Board.Dict
import Tabletop.Proofs.Board.Store
import Tabletop.Proofs.Effect.Alteration
import Tabletop.Proofs.Expr.Query
import Tabletop.Proofs.Effect.Asking
import Tabletop.Proofs.Play.Asking
import Tabletop.Proofs.Play.Choices
import Tabletop.Proofs.Play.Listing
import Tabletop.Proofs.Play.DecisionPoint
import Tabletop.Proofs.Effect.Cost
import Tabletop.Proofs.Play.Cost
import Tabletop.Proofs.Play.Completeness
import Tabletop.Proofs.Play.Steps
import Tabletop.Proofs.Effect.Frame
import Tabletop.Proofs.Play.Opening
import Tabletop.Proofs.Board.Numbering
import Tabletop.Proofs.Effect.Tokens
import Tabletop.Proofs.Play.Tokens
import Tabletop.Proofs.Paired.Make
import Tabletop.Proofs.Paired.Inquiry
import Tabletop.Proofs.Effect.Replies
import Tabletop.Proofs.Play.Replies
import Tabletop.Proofs.Play.Answers
import Tabletop.Proofs.Play.Leeway
import Tabletop.Proofs.Play.Decisions
import Tabletop.Proofs.Play.Stray
import Tabletop.Proofs.Play.Annals
import Tabletop.Proofs.Play.Reached
import Tabletop.Proofs.Play.Undecided
import Tabletop.Proofs.TurnOrder.Card
import Tabletop.Proofs.TurnOrder.Course
import Tabletop.Proofs.TurnOrder.CardDriven
import Tabletop.Proofs.TurnOrder.Grants
import Tabletop.Proofs.TurnOrder.ActiveSeat
import Tabletop.Proofs.TurnOrder.Passing
import Tabletop.Proofs.TurnOrder.Coverage
import Tabletop.Proofs.TurnOrder.Ledger
import Tabletop.Proofs.Play.Compound
import Tabletop.Proofs.TurnOrder.Window
import Tabletop.Proofs.Expr.Faults
import Tabletop.Proofs.Effect.Faults
import Tabletop.Proofs.Play.Faults
import Tabletop.Proofs.TurnOrder.Filters
import Tabletop.Proofs.Play.Applicability
import Tabletop.Proofs.Play.Usage
import Tabletop.Proofs.Play.Interrupts
import Tabletop.Proofs.Play.PhaseOrder
import Tabletop.Proofs.Play.Chronicle
import Tabletop.Proofs.Play.Stays
import Tabletop.Proofs.Expr.Alike
import Tabletop.Proofs.Play.Verdict
import Tabletop.Proofs.TurnOrder.Submission
import Tabletop.Proofs.TurnOrder.TurnEnd
import Tabletop.Proofs.Play.Table
import Tabletop.Proofs.TurnOrder.TurnCount
import Tabletop.Proofs.Board.Contents
import Tabletop.Proofs.Play.Conforms
import Tabletop.Proofs.Play.Stacking
import Tabletop.Proofs.TurnOrder.Seats
import Tabletop.Proofs.Play.Seats
import Tabletop.Proofs.Play.Lasting
import Tabletop.Proofs.Trigger.Order
import Tabletop.Proofs.Trigger.Machine
import Tabletop.Proofs.Trigger.Depth
import Tabletop.Proofs.Json.Codec
import Tabletop.Proofs.Json.Trees
import Tabletop.Proofs.Json.Records
import Tabletop.Proofs.Snapshot.Basic
import Tabletop.Proofs.Snapshot.Expr
import Tabletop.Proofs.Snapshot.State
import Tabletop.Proofs.Board.Whereabouts
import Tabletop.Proofs.Effect.Whereabouts
import Tabletop.Proofs.Play.Whereabouts
import Tabletop.Proofs.Board.Places
import Tabletop.Proofs.Effect.Budget
import Tabletop.Proofs.Effect.Modes
import Tabletop.Proofs.Effect.Picture
import Tabletop.Proofs.Effect.Replay
import Tabletop.Proofs.Effect.Terms
import Tabletop.Proofs.TurnOrder.Queue
import Tabletop.Proofs.Effect.Lots
import Tabletop.Proofs.TurnOrder.Frame
import Tabletop.Proofs.TurnOrder.Eligibility
import Tabletop.Proofs.Play.Reveal
import Tabletop.Proofs.Play.Payment
import Tabletop.Proofs.TurnOrder.Skipping
import Tabletop.Proofs.Play.Caps
import Tabletop.Proofs.Effect.Calls
import Tabletop.Proofs.Play.Selections
import Tabletop.Proofs.Play.Selectors
import Tabletop.Proofs.Play.SeatParams
import Tabletop.Proofs.Effect.Variables
import Tabletop.Proofs.Effect.Moves
import Tabletop.Proofs.Effect.Removal
import Tabletop.Proofs.Effect.Paths
import Tabletop.Proofs.Play.Dialogue
import Tabletop.Proofs.Expr.Firsts
import Tabletop.Proofs.Expr.Unbounded
import Tabletop.Proofs.Expr.Exactness
import Tabletop.Proofs.Play.Standings
import Tabletop.Proofs.Play.LastPlace
import Tabletop.Proofs.Board.Adjacency
import Tabletop.Proofs.Board.Rows
import Tabletop.Proofs.Effect.Scopes
import Tabletop.Proofs.Effect.OtherPipelines
import Tabletop.Proofs.Play.OtherPipelines
import Tabletop.Proofs.Play.PlainPipeline
