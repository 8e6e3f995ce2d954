import Tabletop.Board.Adjacency
import Tabletop.Board.TableIndex
import Tabletop.Trigger.Index

/-!
# Games

A game is a definition together with what is looked up in it again and again: which zones are
adjacent, where the rows of its tables are, which triggers listen for what.  These follow from the
definition, and the type says so.

Main definitions: `Game` and `Game.ofDefinition`.
-/

namespace Tabletop

/-- A definition with its look-up structures. -/
structure Game where
  definition : Definition
  adjacency : Adjacency
  tables : TableIndex
  triggers : TriggerIndex
  adjacency_eq : adjacency = .ofDefinition definition
  tables_eq : tables = .ofDefinition definition
  triggers_eq : triggers = .ofDefinition definition

/-- The game of a definition. -/
def Game.ofDefinition (d : Definition) : Game where
  definition := d
  adjacency := .ofDefinition d
  tables := .ofDefinition d
  triggers := .ofDefinition d
  adjacency_eq := rfl
  tables_eq := rfl
  triggers_eq := rfl

instance : Inhabited Game := ⟨.ofDefinition default⟩

end Tabletop
