/-!
# Hexadecimal text

A byte is written as two digits, the upper half first, and letters are small.  Reading takes capital
letters too.

Main definitions: `Hex.ofBytes`, `Hex.ofWord` and `Hex.bytes?`.
-/

namespace Tabletop.Hex

/-- The digit of a number below sixteen. -/
def digit (n : Nat) : Char :=
  if n < 10 then Char.ofNat ('0'.toNat + n) else Char.ofNat ('a'.toNat + (n - 10))

/-- The value of a digit. -/
def value? (c : Char) : Option Nat :=
  if '0' ≤ c ∧ c ≤ '9' then some (c.toNat - '0'.toNat)
  else if 'a' ≤ c ∧ c ≤ 'f' then some (c.toNat - 'a'.toNat + 10)
  else if 'A' ≤ c ∧ c ≤ 'F' then some (c.toNat - 'A'.toNat + 10)
  else none

/-- The two digits of a byte. -/
def ofByte (b : UInt8) : List Char := [digit (b.toNat / 16), digit (b.toNat % 16)]

/-- The digits of bytes. -/
def ofBytes (bytes : List UInt8) : String := String.ofList (bytes.flatMap ofByte)

/-- The sixteen digits of a word. -/
def ofWord (w : UInt64) : String :=
  String.ofList ((List.range 16).map (fun i => digit ((w.toNat >>> (4 * (15 - i))) % 16)))

/-- The bytes that digits write.  A digit that is left over at the end does not count. -/
def bytes? : List Char → Option (List UInt8)
  | a :: b :: cs => do
    let upper ← value? a
    let lower ← value? b
    return UInt8.ofNat (upper * 16 + lower) :: (← bytes? cs)
  | _ => some []

end Tabletop.Hex
