import Tabletop.Atom.Basic

/-!
# Bytes and back

A snapshot is the atoms of a value as bytes: numbers in their width with the lowest byte first, an
alternative in four bytes, a length in eight, a text as its length and its bytes.  Nothing is
marked, so a reader must know what it reads; it takes what it needs from the front and returns what
is left.

Main definitions: `Snapshot.encode`, and the class `Restorable` of types that can be read back.
-/

namespace Tabletop

/-- Bytes. -/
abbrev Bytes := List UInt8

namespace Snapshot

/-- A number in `width` bytes, the lowest first. -/
def encodeNat : (width : Nat) → Nat → Bytes
  | 0, _ => []
  | width + 1, n => UInt8.ofNat n :: encodeNat width (n / 256)

/-- The bytes of an atom. -/
def encodeAtom : Atom → Bytes
  | .byte n => [n]
  | .word32 n => encodeNat 4 n.toNat
  | .word64 n => encodeNat 8 n.toNat
  | .word128 n => encodeNat 16 n.toNat
  | .flag b => [if b then 1 else 0]
  | .text s => encodeNat 8 s.utf8ByteSize ++ s.toUTF8.toList
  | .choice n => encodeNat 4 n.toNat
  | .present b => [if b then 1 else 0]
  | .length n => encodeNat 8 n

/-- The bytes of a value. -/
def encode {α : Type} [Atomic α] (x : α) : Bytes := (atoms x).flatMap encodeAtom

/-! ## Reading -/

/-- A reader: what it read and what is left, unless the bytes do not hold it. -/
abbrev Reader (α : Type) := Bytes → Option (α × Bytes)

/-- Reads a number of `width` bytes. -/
def decodeNat : (width : Nat) → Reader Nat
  | 0, bs => some (0, bs)
  | _ + 1, [] => none
  | width + 1, b :: bs => do
    let (n, rest) ← decodeNat width bs
    return (b.toNat + 256 * n, rest)

/-- Reads which alternative follows. -/
def decodeChoice : Reader Nat := decodeNat 4

/-- Reads how many items follow. -/
def decodeLength : Reader Nat := decodeNat 8

/-- Reads a byte that must be zero or one. -/
def decodeFlag : Reader Bool
  | b :: bs => if b = 0 then some (false, bs) else if b = 1 then some (true, bs) else none
  | [] => none

/-- Reads a text. -/
def decodeText : Reader String := fun bs => do
  let (n, bs) ← decodeLength bs
  if bs.length < n then none
  else
    let s ← String.fromUTF8? ⟨(bs.take n).toArray⟩
    return (s, bs.drop n)

/-- Reads a number of items. -/
def decodeItems {α : Type} (item : Reader α) : Nat → Reader (List α)
  | 0, bs => some ([], bs)
  | n + 1, bs => do
    let (x, bs) ← item bs
    let (xs, bs) ← decodeItems item n bs
    return (x :: xs, bs)

/-- Reads a list. -/
def decodeList {α : Type} (item : Reader α) : Reader (List α) := fun bs => do
  let (n, bs) ← decodeLength bs
  decodeItems item n bs

/-- Reads something that may be missing. -/
def decodeOption {α : Type} (item : Reader α) : Reader (Option α) := fun bs => do
  let (there, bs) ← decodeFlag bs
  if there then
    let (x, bs) ← item bs
    return (some x, bs)
  else return (none, bs)

/-- Reads one thing after another. -/
def decodePair {α β : Type} (first : Reader α) (second : Reader β) : Reader (α × β) := fun bs => do
  let (x, bs) ← first bs
  let (y, bs) ← second bs
  return ((x, y), bs)

end Snapshot

open Snapshot

/-- Types whose values can be read back from their bytes. -/
class Restorable (α : Type) where
  /-- Reads a value. -/
  restore : Reader α

export Restorable (restore)

instance : Restorable UInt8 where
  restore bs := (decodeNat 1 bs).map (fun r => (UInt8.ofNat r.1, r.2))

instance : Restorable UInt32 where
  restore bs := (decodeNat 4 bs).map (fun r => (UInt32.ofNat r.1, r.2))

instance : Restorable UInt64 where
  restore bs := (decodeNat 8 bs).map (fun r => (UInt64.ofNat r.1, r.2))

instance : Restorable Int64 where
  restore bs := (decodeNat 8 bs).map (fun r => ((UInt64.ofNat r.1).toInt64, r.2))

instance : Restorable (BitVec 128) where
  restore bs := (decodeNat 16 bs).map (fun r => (BitVec.ofNat 128 r.1, r.2))

instance : Restorable Bool := ⟨decodeFlag⟩
instance : Restorable String := ⟨decodeText⟩

instance {α : Type} [Restorable α] : Restorable (Option α) := ⟨decodeOption restore⟩
instance {α : Type} [Restorable α] : Restorable (List α) := ⟨decodeList restore⟩

instance {α β : Type} [Restorable α] [Restorable β] : Restorable (α × β) :=
  ⟨decodePair restore restore⟩

instance {α : Type} [Restorable α] : Restorable (Dict α) where
  restore bs := (restore (α := List (String × α)) bs).map (fun r => (Dict.ofList r.1, r.2))

end Tabletop
