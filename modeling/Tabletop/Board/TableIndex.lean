import Tabletop.Fault

/-!
# Finding rows of data tables

Every table is indexed by the values of its key field.  Of several rows with one key the first is
found; a row without the key field is not found at all.

Main definitions: `TableIndex.ofDefinition` and `TableIndex.row`.
-/

namespace Tabletop

/-- For every table the positions of its rows, by key. -/
structure TableIndex where
  positions : Dict (List (Scalar × Nat))
  deriving Inhabited

namespace TableIndex

/-- The positions of rows by key, each key once. -/
def index (key : String) (rows : List Row) : List (Scalar × Nat) :=
  rows.zipIdx.foldl (fun found row =>
    match row.1.get? key with
    | some x => if (found.lookup x).isSome then found else found ++ [(x, row.2)]
    | none => found) []

/-- The index of a definition's tables. -/
def ofDefinition (d : Definition) : TableIndex :=
  ⟨.ofList (d.tables.map (fun t => (t.id, index t.key t.rows)))⟩

/-- The name of a row in a report. -/
def rowText (table : String) (key : Scalar) : String := table ++ "[" ++ key.text ++ "]"

/-- The row of a table that has a key. -/
def row (ix : TableIndex) (d : Definition) (table : String) (key : Scalar) : Result Row := do
  let rows ← orFault (ix.positions.get? table) (.missing .table table)
  let position ← orFault (rows.lookup key) (.missing .tableRow (rowText table key))
  orFault (d.table? table >>= fun t => t.rows[position]?) (.missing .table table)

end TableIndex

end Tabletop
