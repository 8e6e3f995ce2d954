import Tabletop.Seat
import Tabletop.Text.Decimal

/-!
# Identifiers

Zones, actions, phases, tokens, triggers and pipelines are named by strings that are only ever
compared, with two exceptions.  A zone id may end in an owner (`hand:0`, `deck:none`), so that the
zones of a seat can be named by base and seat; and a token id is made of its type and a number.

Main definitions: `ZoneId.base`, `ZoneId.owner?` and `TokenId.ofOrdinal`.
-/

namespace Tabletop

/-- Names a zone. -/
abbrev ZoneId := String

/-- Names an action. -/
abbrev ActionId := String

/-- Names a phase. -/
abbrev PhaseId := String

/-- Names a token. -/
abbrev TokenId := String

/-- Names a trigger. -/
abbrev TriggerId := String

/-- Names a pipeline. -/
abbrev PipelineId := String

namespace ZoneId

/-- The zone with a base name that belongs to a seat, or to none. -/
def owned (base : String) : Option Seat → ZoneId
  | some seat => base ++ ":" ++ toString seat.toNat
  | none => base ++ ":none"

/-- What stands before the first colon, and what stands after it. -/
def split (id : ZoneId) : String × Option String :=
  match id.toList.span (· ≠ ':') with
  | (base, _ :: owner) => (String.ofList base, some (String.ofList owner))
  | (base, []) => (String.ofList base, none)

/-- The base name: what stands before the first colon. -/
def base (id : ZoneId) : String := (split id).1

/-- The seat index that a text writes: decimal digits, perhaps after a plus sign, up to 255. -/
def seatOfText? (text : String) : Option Seat := do
  let n ← Decimal.nat? text
  if n ≤ 255 then some ⟨UInt8.ofNat n⟩ else none

/-- The owning seat, if what stands after the first colon is a seat index. -/
def owner? (id : ZoneId) : Option Seat := (split id).2 >>= seatOfText?

end ZoneId

namespace TokenId

/-- The id of the token of a type that is created as number `ordinal`. -/
def ofOrdinal (type : String) (ordinal : UInt64) : TokenId := type ++ "#" ++ toString ordinal.toNat

end TokenId

end Tabletop
