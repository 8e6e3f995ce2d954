import Tabletop.Atom.State

/-!
# Fingerprints

A fingerprint is a 64-bit number that tells states apart.  Every feature of a state (the value of a
variable, a token at a place, the phase, …) has a key; the fingerprint combines the keys of all
features by exclusive or, so it does not depend on the order in which they are taken.

The key of a feature folds its atoms into a word, one after the other, and then spreads that word's
bits.

Main definitions: `Feature.key`, `Fingerprint.features` and `State.computeFingerprint`.
-/

namespace Tabletop

namespace Fingerprint

/-- The word of up to eight bytes, the first being the lowest. -/
def wordOfBytes (bytes : List UInt8) : UInt64 :=
  bytes.foldr (fun b w => (w <<< 8) ||| b.toUInt64) 0

/-- Cuts bytes into pieces of eight as long as they last, then at most one of four, one of two and
one of one, and takes the word of each. -/
def wordsOfBytes (bytes : List UInt8) : List UInt64 :=
  if bytes.length ≥ 8 then wordOfBytes (bytes.take 8) :: wordsOfBytes (bytes.drop 8)
  else if bytes.length ≥ 4 then wordOfBytes (bytes.take 4) :: wordsOfBytes (bytes.drop 4)
  else if bytes.length ≥ 2 then wordOfBytes (bytes.take 2) :: wordsOfBytes (bytes.drop 2)
  else if bytes.length ≥ 1 then wordOfBytes (bytes.take 1) :: wordsOfBytes (bytes.drop 1)
  else []
  termination_by bytes.length
  decreasing_by all_goals simp only [List.length_drop]; omega

/-- The words that an atom is folded in as.  A text ends in a word of its own, so that no text runs
into what follows it. -/
def words : Atom → List UInt64
  | .byte n => [n.toUInt64]
  | .word32 n => [n.toUInt64]
  | .word64 n => [n]
  | .word128 n => [UInt64.ofNat n.toNat, UInt64.ofNat (n.toNat / UInt64.size)]
  | .flag b => [if b then 1 else 0]
  | .text s => wordsOfBytes s.toUTF8.toList ++ [0xff]
  | .choice n => [n.toUInt64]
  | .present b => [if b then 1 else 0]
  | .length n => [UInt64.ofNat n]

/-- Folds in one word: turn, combine, multiply. -/
def fold (h w : UInt64) : UInt64 := (((h <<< 5) ||| (h >>> 59)) ^^^ w) * 0x517cc1b727220a95

/-- Spreads the bits of a word. -/
def spread (z : UInt64) : UInt64 :=
  let z := (z ^^^ (z >>> 30)) * 0xbf58476d1ce4e5b9
  let z := (z ^^^ (z >>> 27)) * 0x94d049bb133111eb
  z ^^^ (z >>> 31)

/-- The families of features. -/
inductive Family where
  | globalVar
  | seatVar
  | zoneVar
  | token
  | tokenProp
  | marker
  | usage
  | suspended
  | lasting
  | phase
  | active
  | turn
  | nextToken
  | order
  | random

/-- The number of a family. -/
def Family.number : Family → UInt8
  | globalVar => 1
  | seatVar => 2
  | zoneVar => 3
  | token => 4
  | tokenProp => 5
  | marker => 6
  | usage => 7
  | suspended => 8
  | lasting => 9
  | phase => 10
  | active => 11
  | turn => 12
  | nextToken => 13
  | order => 14
  | random => 15

/-- One observable feature of a state: its family and its atoms. -/
structure Feature where
  family : Family
  content : List Atom

/-- The key of a feature. -/
def Feature.key (f : Feature) : UInt64 :=
  spread ((f.family.number.toUInt64 :: f.content.flatMap words).foldl fold 0)

/-- The features of a token at a place of a zone. -/
def tokenFeatures (zone : ZoneId) (index : Nat) (t : Token) : List Feature :=
  ⟨.token, atoms zone ++ (atoms (UInt64.ofNat index) ++ (atoms t.id ++ atoms t.type))⟩ ::
    t.props.entries.map (fun p => ⟨.tokenProp, atoms t.id ++ atoms p⟩)

/-- All features of a state. -/
def features (s : State) : List Feature :=
  s.globalVars.entries.map (fun e => ⟨.globalVar, atoms e⟩) ++
  s.seatVars.toList.flatMap
    (fun p => p.2.entries.map (fun e => ⟨.seatVar, atoms p.1 ++ atoms e⟩)) ++
  s.zoneVars.entries.flatMap
    (fun z => z.2.entries.map (fun e => ⟨.zoneVar, atoms z.1 ++ atoms e⟩)) ++
  s.store.zones.entries.flatMap (fun z =>
    z.2.zipIdx.flatMap (fun t => tokenFeatures z.1 t.2 t.1)) ++
  s.markers.entries.flatMap (fun z => z.2.entries.map (fun e => ⟨.marker, atoms z.1 ++ atoms e⟩)) ++
  s.usage.entries.map (fun e => ⟨.usage, atoms e⟩) ++
  s.suspended.zipIdx.map (fun p => ⟨.suspended, atoms (UInt64.ofNat p.2) ++ atoms p.1⟩) ++
  s.lasting.zipIdx.map (fun l => ⟨.lasting, atoms (UInt64.ofNat l.2) ++ atoms l.1⟩) ++
  [⟨.phase, atoms s.phase⟩, ⟨.active, atoms s.active⟩, ⟨.turn, atoms s.turn⟩,
    ⟨.nextToken, atoms s.nextToken⟩, ⟨.order, atoms s.order⟩, ⟨.random, atoms s.random⟩]

end Fingerprint

namespace State

/-- The fingerprint that belongs to a state. -/
def computeFingerprint (s : State) : UInt64 :=
  (Fingerprint.features s).foldl (fun h f => h ^^^ f.key) 0

/-- The state with its fingerprint brought up to date. -/
def stamp (s : State) : State := { s with fingerprint := s.computeFingerprint }

/-- Whether the fingerprint is up to date. -/
def isStamped (s : State) : Bool := s.fingerprint == s.computeFingerprint

end State

end Tabletop
