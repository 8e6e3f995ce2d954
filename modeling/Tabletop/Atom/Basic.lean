import Tabletop.Dict

/-!
# Values as sequences of atoms

A value of any type is, in the end, a sequence of numbers and strings: its parts in the order of
their declaration, with a number before the parts of an alternative that says which it is, and a
length before the parts of a collection.  Fingerprints and snapshots are two renderings of this one
sequence.

Main definitions: `Atom`, and the class `Atomic` of types whose values have atoms.
-/

namespace Tabletop

/-- A number or a string, with the width that the number has. -/
inductive Atom where
  | byte (n : UInt8)
  | word32 (n : UInt32)
  | word64 (n : UInt64)
  | word128 (n : BitVec 128)
  | flag (b : Bool)
  | text (s : String)
  /-- Which alternative follows. -/
  | choice (n : UInt32)
  /-- Whether something optional follows. -/
  | present (b : Bool)
  /-- How many items follow. -/
  | length (n : Nat)
  deriving DecidableEq, Repr

/-- Types whose values are sequences of atoms. -/
class Atomic (α : Type) where
  /-- The atoms of a value. -/
  atoms : α → List Atom

export Atomic (atoms)

instance : Atomic UInt8 := ⟨fun n => [.byte n]⟩
instance : Atomic UInt32 := ⟨fun n => [.word32 n]⟩
instance : Atomic UInt64 := ⟨fun n => [.word64 n]⟩
instance : Atomic Int64 := ⟨fun n => [.word64 n.toUInt64]⟩
instance : Atomic (BitVec 128) := ⟨fun n => [.word128 n]⟩
instance : Atomic Bool := ⟨fun b => [.flag b]⟩
instance : Atomic String := ⟨fun s => [.text s]⟩

instance {α : Type} [Atomic α] : Atomic (Option α) where
  atoms
    | none => [.present false]
    | some x => .present true :: atoms x

instance {α : Type} [Atomic α] : Atomic (List α) where
  atoms xs := .length xs.length :: xs.flatMap atoms

instance {α β : Type} [Atomic α] [Atomic β] : Atomic (α × β) where
  atoms p := atoms p.1 ++ atoms p.2

instance {α : Type} [Atomic α] : Atomic (Dict α) where
  atoms d := atoms d.entries

end Tabletop
