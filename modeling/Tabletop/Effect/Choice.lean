import Tabletop.Effect.Session

/-!
# Effects that ask

A choice never picks anything.  It looks up the selection that the move carries under the name of
the decision and checks it against what may be selected at that moment.  Where none may be missing
or wrong, such a selection is a fault; elsewhere it stops the run, which tells what is asked.

Main definitions: `Site.chooseOne` and `Site.chooseN`.
-/

namespace Tabletop

/-- The first scalar that has come up before. -/
def Scalar.firstRepeated? (seen : List Scalar) : List Scalar → Option Scalar
  | [] => none
  | x :: xs => if seen.contains x then some x else firstRepeated? (x :: seen) xs

namespace Bindings

/-- Fills in a name with placeholders: a name in braces stands for the value that is bound to it.
`key` holds the letters since an open brace, the last one first.  A brace that is never closed
stands for itself. -/
def fillFrom (b : Bindings) : Option (List Char) → List Char → Result (List Char)
  | none, [] => .ok []
  | some key, [] => .ok ('\x7b' :: key.reverse)
  | none, c :: cs =>
    if c = '\x7b' then fillFrom b (some []) cs else do return c :: (← fillFrom b none cs)
  | some key, c :: cs =>
    if c = '\x7d' then do
      let name := String.ofList key.reverse
      let x ← orFault (b.get? name) (.unbound name)
      return x.text.toList ++ (← fillFrom b none cs)
    else fillFrom b (some (c :: key)) cs

/-- A name with its placeholders filled in. -/
def fill (b : Bindings) (name : String) : Result String :=
  (b.fillFrom none name.toList).map String.ofList

/-- Binds what was selected, under the name with placeholders and under the name that they give. -/
def bindChoice (b : Bindings) (bind name : String) (x : Value) : Bindings :=
  (if bind = name then b else b.bind bind x).bind name x

end Bindings

namespace Site

/-- A selection is missing. -/
def missing {α : Type} (s : Site) (d : Decision) : Attempt α :=
  match s.setting.mode with
  | .strict => s.fail (.selectionMissing d.name)
  | .discover => .error (.pending d)

/-- A selection does not fit. -/
def refuse {α : Type} (s : Site) (name : String) (cause : ChoiceFault) : Attempt α :=
  match s.setting.mode with
  | .strict => s.fail (.selectionWrong cause)
  | .discover => .error (.refused name cause)

/-- The id of a decision that comes up at a site. -/
def decisionId (s : Site) (name : String) : String := s.path ++ "::" ++ name

/-- Asks for one option and binds it. -/
def chooseOne (s : Site) (x : Session) (bind : String) (options : Query) : Attempt Bindings := do
  let name ← s.bindings.fill bind
  let domain ← options.eval (s.view x)
  match s.bindings.get? name with
  | none => s.missing (.one (s.decisionId name) name domain)
  | some selected =>
    match domain.find? (fun option => option.same selected) with
    | none => s.refuse name (.outside selected.text name)
    | some option => return s.bindings.bindChoice bind name option

/-- The least and the greatest number of options to select. -/
def bounds (s : Site) (x : Session) (c : Cardinality) (size : Nat) : Result (Int64 × Int64) := do
  match c.exactly with
  | some n =>
    let n ← n.evalInt (s.view x)
    return (n, n)
  | none =>
    let min ← match c.atLeast with
      | some e => e.evalInt (s.view x)
      | none => pure 0
    let max ← match c.atMost with
      | some e => e.evalInt (s.view x)
      | none => pure (Int64.ofNat size)
    return (min, max)

/-- Why several selected scalars do not answer a decision, if they do not: the first repetition
counts before their number, and that before the first that is no option. -/
def choiceFault? (name : String) (domain : List Value) (min max : Nat) (xs : List Scalar) :
    Option ChoiceFault :=
  match Scalar.firstRepeated? [] xs with
  | some x => some (.repeated x.text name)
  | none =>
    if xs.length < min ∨ max < xs.length then some (.wrongNumber name min max xs.length)
    else (xs.find? (fun x => !domain.any (fun option => option.same (.scalar x)))).map
      (fun x => .outside x.text name)

/-- Asks for several options and binds them. -/
def chooseN (s : Site) (x : Session) (bind : String) (options : Query) (c : Cardinality) :
    Attempt Bindings := do
  let name ← s.bindings.fill bind
  let domain ← options.eval (s.view x)
  let (min, max) ← s.bounds x c domain.length
  if min < 0 ∨ max < min then s.fail (.badCardinality min max)
  else
    let (min, max) := (min.toInt.toNat, max.toInt.toNat)
    match s.bindings.get? name with
    | none => s.missing { id := s.decisionId name, name, kind := .chooseN, domain, min, max }
    | some (.array xs) =>
      match choiceFault? name domain min max xs with
      | some fault => s.refuse name fault
      | none => return s.bindings.bindChoice bind name (.array xs)
    | some other => s.refuse name (.notArray name other.typeName)

end Site

end Tabletop
