import Tabletop.Json.Codec

/-!
# Seats

A game is played by seats numbered from zero.  `PerSeat` holds one item for each seat of a game.

Main definitions: `Seat` and `PerSeat`.
-/

namespace Tabletop

universe u v

/-- A place at the table; the first seat has index zero. -/
structure Seat where
  index : UInt8
  deriving DecidableEq, Repr, Inhabited

namespace Seat

/-- The seat's place as a natural number. -/
def toNat (s : Seat) : Nat := s.index.toNat

/-- The seats of a game for `count` seats.  Indices have eight bits, so the number of seats counts
modulo 256; no game has more than 255. -/
def all (count : Nat) : List Seat :=
  (List.range (count % 256)).map (fun i => ⟨UInt8.ofNat i⟩)

/-- The seat with a given index, if a game for `count` seats has it. -/
def ofIndex? (index : Int) (count : Nat) : Option Seat :=
  if 0 ≤ index ∧ index.toNat < count then some ⟨UInt8.ofNat index.toNat⟩ else none

/-- The seat after this one, the first following the last. -/
def next (s : Seat) (count : Nat) : Seat := ⟨UInt8.ofNat ((s.toNat + 1) % max count 1)⟩

/-- The seat as shown to a reader. -/
def text (s : Seat) : String := "Player " ++ toString s.toNat

/-- The order of seats by index. -/
def le (s t : Seat) : Bool := s.index ≤ t.index

/-- A list of seats in index order, each once. -/
def sortedOnce (seats : List Seat) : List Seat := (seats.mergeSort le).eraseReps

end Seat

instance : Coded Seat where
  toJson s := toJson s.index
  ofJson? j := (ofJson? j).map Seat.mk

/-- One item for each seat of a game. -/
structure PerSeat (α : Type u) where
  data : List α
  deriving DecidableEq, Repr, Inhabited

namespace PerSeat

variable {α : Type u} {β : Type v}

/-- The items that `f` gives to the seats of a game for `count` seats. -/
def ofFn (count : Nat) (f : Seat → α) : PerSeat α := ⟨(Seat.all count).map f⟩

/-- The same item for every seat. -/
def replicate (count : Nat) (x : α) : PerSeat α := ofFn count (fun _ => x)

/-- The number of seats. -/
def size (p : PerSeat α) : Nat := p.data.length

/-- The item of a seat, if the game has it. -/
def get? (p : PerSeat α) (s : Seat) : Option α := p.data[s.toNat]?

/-- Changes the item of a seat; nothing happens for a seat that the game does not have. -/
def modify (p : PerSeat α) (s : Seat) (f : α → α) : PerSeat α := ⟨p.data.modify s.toNat f⟩

/-- Every seat with its item, in seat order. -/
def toList (p : PerSeat α) : List (Seat × α) :=
  p.data.zipIdx.map (fun e => (⟨UInt8.ofNat e.2⟩, e.1))

end PerSeat

instance {α : Type} [Coded α] : Coded (PerSeat α) where
  toJson p := .obj [("data", toJson p.data)]
  ofJson? j := do
    let fs ← j.fields?
    return ⟨← fs.required "data"⟩

end Tabletop
