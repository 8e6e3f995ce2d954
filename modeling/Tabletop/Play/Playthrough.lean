import Tabletop.Play.Make

/-!
# Playing by numbers

A game can be played by a list of numbers: each picks one of the legal moves, counted round as often
as is needed.  Play ends where there is no legal move, or where a move cannot be made.

Main definition: `Game.play`.
-/

namespace Tabletop

/-- One move of a playthrough. -/
structure Ply where
  /-- The number of legal moves from which it was picked. -/
  choices : Nat
  move : Move
  result : Except Failure MoveResult

/-- Picks a move by number. -/
def Move.pick? (moves : List Move) (n : Nat) : Option Move := moves[n % moves.length]?

/-- A playthrough: its moves, the state at its end, and the fault if the legal moves could not be
listed there. -/
structure Playthrough where
  plies : List Ply := []
  final : State
  fault : Option Fault := none

/-- The playthrough with a move before it. -/
def Playthrough.after (ply : Ply) (p : Playthrough) : Playthrough :=
  { p with plies := ply :: p.plies }

namespace Game

/-- Plays a game by numbers. -/
def play (g : Game) (l : Listing) (limits : Limits) : List Nat → State → Playthrough
  | [], s => { final := s }
  | n :: ns, s =>
    match g.legalMoves s l with
    | .error fault => { final := s, fault := some fault }
    | .ok moves =>
      match Move.pick? moves n with
      | none => { final := s }
      | some move =>
        let result := Rules.makeMove { game := g, limits } s move
        let ply : Ply := { choices := moves.length, move, result }
        match result with
        | .error _ => { plies := [ply], final := s }
        | .ok r => (g.play l limits ns r.state).after ply

end Game

end Tabletop
