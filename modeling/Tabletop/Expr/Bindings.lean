import Tabletop.Value

/-!
# Bindings

Names for the params of a move, for the item of a loop, for what an event is about.  A name may be
bound again; the last binding hides the earlier ones until its scope ends.  Bindings are a value:
to leave a scope is to go on with the bindings from before it.

Main definition: `Bindings`.
-/

namespace Tabletop

/-- Names and their values, the innermost binding first. -/
structure Bindings where
  entries : List (String × Value)
  deriving DecidableEq, Repr, Inhabited

namespace Bindings

/-- No names. -/
def empty : Bindings := ⟨[]⟩

instance : EmptyCollection Bindings := ⟨empty⟩

/-- Binds a name in the innermost scope. -/
def bind (b : Bindings) (name : String) (x : Value) : Bindings := ⟨(name, x) :: b.entries⟩

/-- Binds names one after the other. -/
def bindAll (b : Bindings) (xs : List (String × Value)) : Bindings :=
  xs.foldl (fun b e => b.bind e.1 e.2) b

/-- The bindings made one after the other. -/
def ofList (xs : List (String × Value)) : Bindings := empty.bindAll xs

/-- The params of a move, in the order of their names. -/
def ofParams (params : Dict Selection) : Bindings :=
  ofList (params.entries.map (fun e => (e.1, Value.ofSelection e.2)))

/-- The value of a name. -/
def get? (b : Bindings) (name : String) : Option Value := b.entries.lookup name

/-- Whether a name is bound. -/
def contains (b : Bindings) (name : String) : Bool := (b.get? name).isSome

/-- The number of bindings, hidden ones included. -/
def size (b : Bindings) : Nat := b.entries.length

/-- The first `n` bindings that were made. -/
def truncate (b : Bindings) (n : Nat) : Bindings := ⟨b.entries.drop (b.size - n)⟩

end Bindings

end Tabletop
