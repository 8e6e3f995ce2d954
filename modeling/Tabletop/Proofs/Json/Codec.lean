import Tabletop.Proofs.Board.Dict
import Tabletop.Seat

/-!
# What is written can be read back

A type has a lawful JSON form if reading the form of a value gives the value.  This file proves it
for the ground types and for lists, dictionaries, options and seats over a lawful type, and prepares
it for records: a field is found by its name among the fields that were written, wherever it stands.

One thing can go wrong.  An optional value is `null` when it is missing and stands for itself when
it is there, so a value whose own form is `null` would be read back as missing.  A type under an
option therefore has to have a form that is never `null`; this is a class of its own, and an option
is not in it.

For a record the proof is always the same rewriting: find the next field, read it back, go on.  It
is done with `-implicitDefEqProofs`, which keeps the single steps in the proof; without them the two
ends would be compared by computing both, down to the bounds of integers.

Main statements: the instances of `LawfulCoded` and `NeverNull`.
-/

namespace Tabletop

open Json

/-- Types whose JSON form can be read back. -/
class LawfulCoded (α : Type) [Coded α] : Prop where
  /-- Reading the form of a value gives the value. -/
  ofJson?_toJson (x : α) : ofJson? (toJson x) = some x

/-- Types whose JSON form is never `null`. -/
class NeverNull (α : Type) [Coded α] : Prop where
  toJson_ne_null (x : α) : toJson x ≠ .null

export LawfulCoded (ofJson?_toJson)
export NeverNull (toJson_ne_null)

attribute [simp] LawfulCoded.ofJson?_toJson NeverNull.toJson_ne_null

/-- A form is lawful if what its writer writes its reader reads back. -/
theorem LawfulCoded.of {α : Type} {write : α → Json} {read : Json → Option α}
    (h : ∀ x, read (write x) = some x) : @LawfulCoded α ⟨write, read⟩ :=
  @LawfulCoded.mk _ (_) h

/-! ## Records and alternatives -/

namespace Json

variable {α β : Type}

/-- An object has the fields that it was made of. -/
@[simp] theorem fields?_obj (fs : Fields) : (Json.obj fs).fields? = some fs := rfl

/-- A string is an alternative that carries nothing. -/
@[simp] theorem variant?_str (name : String) : (Json.str name).variant? = some (name, none) := rfl

/-- An alternative that carries something is read as its name and what it carries. -/
@[simp] theorem variant?_variant (name : String) (j : Json) :
    (variant name j).variant? = some (name, some j) := rfl

/-- An alternative that carries something is not `null`. -/
@[simp] theorem variant_ne_null (name : String) (j : Json) : variant name j ≠ .null := nofun

/-! What a reader has at hand it is given at once, before the rewriting goes into what it does next;
else every alternative that it might come to would be gone through with nothing known. -/

/-- Reading goes on with what has been read. -/
@[simp high] theorem bind_some (x : α) (f : α → Option β) : (some x >>= f) = f x := rfl

/-- Reading an object goes on with its fields. -/
@[simp ↓ high] theorem bind_fields?_obj (fs : Fields) (f : Fields → Option β) :
    ((Json.obj fs).fields? >>= f) = f fs := rfl

/-- Reading what an alternative carries goes on with the fields, if it carries an object. -/
@[simp ↓ high] theorem bind_contents_obj (fs : Fields) (f : Fields → Option β) :
    ((some (Json.obj fs) >>= Json.fields?) >>= f) = f fs := rfl

/-- Reading an alternative goes on with its name and what it carries. -/
@[simp ↓ high] theorem bind_variant?_variant (name : String) (j : Json)
    (f : String × Option Json → Option β) : ((variant name j).variant? >>= f) = f (name, some j) :=
  rfl

namespace Fields

variable {fs : Fields} {name other : String} {read : Json → Option α} {j : Json} {default : α}

/-- A required field is read as its type is. -/
@[simp] theorem required_eq [Coded α] : fs.required (α := α) name = fs.requiredBy ofJson? name :=
  rfl

/-- A field with a default is read as its type is. -/
@[simp] theorem withDefault_eq [Coded α] :
    fs.withDefault name default = fs.withDefaultBy ofJson? name default := rfl

/-- A required field is read where it comes first. -/
@[simp] theorem requiredBy_cons_self : requiredBy ((name, j) :: fs) read name = read j := by
  rw [requiredBy, List.lookup_cons_self]
  rfl

/-- A required field is looked for behind other fields. -/
@[simp] theorem requiredBy_cons_of_ne (h : name ≠ other) :
    requiredBy ((other, j) :: fs) read name = requiredBy fs read name := by
  rw [requiredBy, List.lookup_cons, beq_false_of_ne h]
  rfl

/-- A field with a default is read where it comes first. -/
@[simp] theorem withDefaultBy_cons_self :
    withDefaultBy ((name, j) :: fs) read name default = read j := by
  rw [withDefaultBy, List.lookup_cons_self]

/-- A field with a default is looked for behind other fields. -/
@[simp] theorem withDefaultBy_cons_of_ne (h : name ≠ other) :
    withDefaultBy ((other, j) :: fs) read name default = withDefaultBy fs read name default := by
  rw [withDefaultBy, withDefaultBy, List.lookup_cons, beq_false_of_ne h]

end Fields

/-! ## Containers, by what writes and reads their items -/

/-- What is not `null` is there. -/
@[simp] theorem optionBy_of_ne_null {read : Json → Option α} {j : Json} (h : j ≠ .null) :
    optionBy read j = (read j).map some := by
  cases j with
  | null => exact absurd rfl h
  | _ => rfl

/-- Items that are read back one by one are read back one after the other. -/
theorem mapM_map_eq_some {write : α → β} {read : β → Option α} :
    ∀ {xs : List α}, (∀ x ∈ xs, read (write x) = some x) → (xs.map write).mapM read = some xs
  | [], _ => rfl
  | x :: xs, h => by
    have hhead := h x List.mem_cons_self
    have htail := mapM_map_eq_some (fun y hy => h y (List.mem_cons_of_mem x hy))
    rw [List.map_cons, List.mapM_cons, hhead, htail]
    rfl

/-- A dictionary is read back from its form if its values are. -/
theorem dictBy_ofDict {write : α → Json} {read : Json → Option α}
    (h : ∀ x, read (write x) = some x) (d : Dict α) : dictBy read (ofDict write d) = some d := by
  have hentries : (d.entries.map (fun e => (e.1, write e.2))).mapM
      (fun f => (read f.2).map (f.1, ·)) = some d.entries := by
    refine mapM_map_eq_some (fun e _ => ?_)
    simp only [h, Option.map_some]
  rw [ofDict, dictBy, hentries, Option.map_some, Dict.ofList_entries]

/-! ## Integers of a width -/

/-- An integer within bounds is read back. -/
theorem intBetween?_of_mem {lo hi n : Int} (h : lo ≤ n ∧ n ≤ hi) :
    intBetween? lo hi (.int n) = some n := by
  rw [intBetween?, if_pos h]

/-- A number below a bound is read back. -/
theorem natBelow?_of_lt {bound n : Nat} (h : n < bound) : natBelow? bound (.int n) = some n := by
  rw [natBelow?, if_pos ⟨Int.natCast_nonneg n, Int.ofNat_lt.2 h⟩, Int.toNat_natCast]

/-- A count of 64 bits is read back. -/
theorem count?_of_lt {n : Nat} (h : n < UInt64.size) : count? (.int n) = some n := natBelow?_of_lt h

/-- What is read as a count is one of 64 bits. -/
theorem lt_of_count? {j : Json} {n : Nat} (h : count? j = some n) : n < UInt64.size := by
  cases j with
  | int k =>
    rw [count?, natBelow?] at h
    split at h
    · rename_i hbounds
      cases h
      omega
    · cases h
  | _ => cases h

end Json

instance : LawfulCoded Bool := ⟨fun _ => rfl⟩
instance : NeverNull Bool := ⟨nofun⟩

instance : LawfulCoded String := ⟨fun _ => rfl⟩
instance : NeverNull String := ⟨nofun⟩

/-- A boolean is read from its form. -/
@[simp] theorem Json.ofJson?_bool (b : Bool) : ofJson? (Json.bool b) = some b := rfl

/-- A string is read from its form. -/
@[simp] theorem Json.ofJson?_str (s : String) : ofJson? (Json.str s) = some s := rfl

instance : LawfulCoded Int64 where
  ofJson?_toJson n := by
    have hbounds := And.intro n.minValue_le_toInt n.toInt_le
    show (intBetween? _ _ (.int n.toInt)).map Int64.ofInt = some n
    rw [intBetween?_of_mem hbounds, Option.map_some, Int64.ofInt_toInt]

instance : NeverNull Int64 := ⟨nofun⟩

instance : LawfulCoded Int32 where
  ofJson?_toJson n := by
    have hbounds := And.intro n.minValue_le_toInt n.toInt_le
    show (intBetween? _ _ (.int n.toInt)).map Int32.ofInt = some n
    rw [intBetween?_of_mem hbounds, Option.map_some, Int32.ofInt_toInt]

instance : LawfulCoded UInt64 where
  ofJson?_toJson n := by
    show (natBelow? _ (.int n.toNat)).map UInt64.ofNat = some n
    rw [natBelow?_of_lt n.toNat_lt, Option.map_some, UInt64.ofNat_toNat]

instance : NeverNull UInt64 := ⟨nofun⟩

instance : LawfulCoded UInt32 where
  ofJson?_toJson n := by
    show (natBelow? _ (.int n.toNat)).map UInt32.ofNat = some n
    rw [natBelow?_of_lt n.toNat_lt, Option.map_some, UInt32.ofNat_toNat]

instance : NeverNull UInt32 := ⟨nofun⟩

instance : LawfulCoded UInt8 where
  ofJson?_toJson n := by
    show (natBelow? _ (.int n.toNat)).map UInt8.ofNat = some n
    rw [natBelow?_of_lt n.toNat_lt, Option.map_some, UInt8.ofNat_toNat]

instance : NeverNull UInt8 := ⟨nofun⟩

instance {w : Nat} : LawfulCoded (BitVec w) where
  ofJson?_toJson n := by
    have hbound : n.toNat < 1 <<< w := by
      rw [Nat.one_shiftLeft]
      exact n.isLt
    show (natBelow? _ (.int n.toNat)).map (BitVec.ofNat w) = some n
    rw [natBelow?_of_lt hbound, Option.map_some, BitVec.ofNat_toNat, BitVec.setWidth_eq]

section

variable {α : Type} [Coded α] [LawfulCoded α]

instance [NeverNull α] : LawfulCoded (Option α) where
  ofJson?_toJson x := by
    cases x with
    | none => rfl
    | some x =>
      show optionBy ofJson? (toJson x) = some (some x)
      simp

instance : LawfulCoded (List α) := ⟨fun _ => mapM_map_eq_some (fun x _ => ofJson?_toJson x)⟩
instance : NeverNull (List α) := ⟨nofun⟩

instance : LawfulCoded (Dict α) := ⟨dictBy_ofDict ofJson?_toJson⟩
instance : NeverNull (Dict α) := ⟨nofun⟩

end

/-! ## Seats -/

instance : LawfulCoded Seat where
  ofJson?_toJson s := by
    show (ofJson? (toJson s.index)).map Seat.mk = some s
    simp

instance : NeverNull Seat := ⟨nofun⟩

instance {α : Type} [Coded α] [LawfulCoded α] : LawfulCoded (PerSeat α) :=
  .of fun p => by simp -implicitDefEqProofs

end Tabletop
