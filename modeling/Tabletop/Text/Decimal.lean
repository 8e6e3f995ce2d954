/-!
# Decimal text

Numbers as they stand in ids and in keys of objects.

Main definition: `Decimal.nat?`.
-/

namespace Tabletop.Decimal

/-- The number that digits write, the first being the highest. -/
def ofDigits (ds : List Char) : Nat := ds.foldl (fun n c => n * 10 + (c.toNat - '0'.toNat)) 0

/-- The number that a text writes: digits, perhaps after a plus sign. -/
def nat? (text : String) : Option Nat :=
  let ds := match text.toList with
    | '+' :: ds => ds
    | ds => ds
  if ds.isEmpty ∨ ¬ ds.all Char.isDigit then none else some (ofDigits ds)

end Tabletop.Decimal
