import Tabletop.Random.Keystream
import Tabletop.Json.Codec

/-!
# Drawing random numbers

A `RandomState` is a seed and a position in its keystream.  A draw returns a number and the state
after it; nothing else is remembered.

To draw from a range, 64 bits are taken and multiplied by its size: the upper half of the product
is the number, and the lower half decides whether it is kept.  A draw is rejected when its lower
half lies in the part of the 64-bit line that would favour some numbers over others.

Main definitions: `RandomState.drawInt` and `RandomState.shuffle`.
-/

namespace Tabletop

/-- A seed and a position in its keystream. -/
structure RandomState where
  seed : UInt64
  position : BitVec 128
  deriving DecidableEq, Repr, Inhabited

namespace RandomState

open Tabletop.Random

/-- The number of words after which a keystream repeats: sixteen for every block counter. -/
def period : Nat := 16 * UInt64.size

/-- The state before the first draw. -/
def ofSeed (seed : UInt64) : RandomState := ⟨seed, 0⟩

/-- Takes 64 bits: two words, the lower half first. -/
def bits (r : RandomState) : UInt64 × RandomState :=
  let key := keyOf r.seed
  let p := r.position.toNat % period
  let lower := wordAt key p
  let upper := wordAt key ((p + 1) % period)
  (lower.toUInt64 ||| (upper.toUInt64 <<< 32),
    { r with position := BitVec.ofNat 128 ((p + 2) % period) })

/-- The greatest lower half that is kept when drawing from `size` numbers: one less than the
greatest multiple of `size` by a power of two that 64 bits hold. -/
def lastKept (size : UInt64) : Nat := (size.toNat <<< (63 - size.toNat.log2)) - 1

/-- Draws until a draw is kept.  A whole period without one would be followed by the same again, so
the search ends there. -/
def below (size : UInt64) : Nat → RandomState → UInt64 × RandomState
  | 0, r => (0, r)
  | fuel + 1, r =>
    let (v, r) := r.bits
    let product := v.toNat * size.toNat
    if product % UInt64.size ≤ lastKept size then (UInt64.ofNat (product / UInt64.size), r)
    else below size fuel r

/-- Draws a number from `min` to `max`, both included; the bounds may come in either order.  A range
of all 64-bit integers takes the bits as they are. -/
def drawInt (r : RandomState) (min max : Int64) : Int64 × RandomState :=
  let (lo, hi) := if min ≤ max then (min, max) else (max, min)
  let size := (hi - lo).toUInt64 + 1
  if size = 0 then
    let (v, r) := r.bits
    (v.toInt64, r)
  else
    let (v, r) := below size period r
    (lo + v.toInt64, r)

/-- Draws an index below `bound`. -/
def drawIndex (r : RandomState) (bound : Nat) : Nat × RandomState :=
  let (v, r) := below (UInt64.ofNat (max bound 1)) period r
  (v.toNat, r)

/-- Exchanges the item at `i` with one drawn from those up to it, then goes on below. -/
def shuffleDown {α : Type} (items : Array α) (r : RandomState) : Nat → Array α × RandomState
  | 0 => (items, r)
  | i + 1 =>
    let (j, r) := r.drawIndex (i + 2)
    shuffleDown (items.swapIfInBounds (i + 1) j) r i

/-- Puts items into a random order, every order having the same chance. -/
def shuffle {α : Type} (r : RandomState) (items : List α) : List α × RandomState :=
  let (shuffled, r) := shuffleDown items.toArray r (items.length - 1)
  (shuffled.toList, r)

end RandomState

instance : Coded RandomState where
  toJson r := .obj [("seed", toJson r.seed), ("word_pos", toJson r.position)]
  ofJson? j := do
    let fs ← j.fields?
    return { seed := ← fs.required "seed", position := ← fs.required "word_pos" }

end Tabletop
