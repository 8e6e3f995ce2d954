import Tabletop.Snapshot.Basic
import Tabletop.Proofs.Board.Dict
import Mathlib.Data.List.Basic
import Mathlib.Data.UInt

/-!
# Reading back what was written

Snapshots mark nothing, so that a reader finds the end of a value only by what it has read of it.
`Snapshot.Recovers` says that a reader does find it: given the bytes of a value with anything behind
them, it returns the value and what is behind; given only a part of these bytes, it returns nothing.
The second half is what makes readers compose, since a part of a pair is a part of its first half,
or all of it and a part of its second.

Readers of trees get a bound on the nesting.  Too small a bound makes them fail, also on whole
trees, but never makes them return anything else; and the number of bytes is large enough a bound.

Main statements: `Snapshot.Reads.bind`, `Snapshot.Reads.choice` and `Snapshot.Reads.list` build the
law of a reader from the laws of its parts, and `LawfulRestorable` packages it for a type.
-/

namespace Tabletop

namespace Snapshot

variable {α β : Type}

/-! ## A reader and the bytes of a value -/

/-- That a reader finds a value in its bytes, given `enough`, and never in a part of them. -/
structure Recovers (enough : Prop) (read : Reader α) (bytes : Bytes) (x : α) : Prop where
  /-- Before other bytes, nothing but the value is read. -/
  only (rest : Bytes) (r : α × Bytes) (h : read (bytes ++ rest) = some r) : r = (x, rest)
  /-- In the front of the bytes alone, nothing is read. -/
  truncated (front : Bytes) (h : front <+: bytes) (ne : front ≠ bytes) : read front = none
  /-- With enough, the value is read. -/
  back (h : enough) (rest : Bytes) : read (bytes ++ rest) = some (x, rest)

/-- A part of two pieces is a part of the first, or the first and a part of the second. -/
theorem front_cases {bytes bytes' front : Bytes} (h : front <+: bytes ++ bytes')
    (ne : front ≠ bytes ++ bytes') :
    (front <+: bytes ∧ front ≠ bytes) ∨
      ∃ front', front = bytes ++ front' ∧ front' <+: bytes' ∧ front' ≠ bytes' := by
  by_cases whole : bytes <+: front
  · obtain ⟨front', rfl⟩ := whole
    exact .inr ⟨front', rfl, (List.prefix_append_right_inj bytes).mp h, fun heq => ne (by rw [heq])⟩
  · refine .inl ⟨?_, fun heq => whole (heq ▸ List.prefix_refl front)⟩
    exact (List.prefix_or_prefix_of_prefix h (List.prefix_append bytes bytes')).resolve_right whole

namespace Recovers

variable {enough : Prop} {read : Reader α} {bytes bytes' : Bytes} {x : α} {y : β}

/-- A reader that goes on with what another read. -/
theorem bind {f : α × Bytes → Option (β × Bytes)} (first : Recovers enough read bytes x)
    (then' : Recovers enough (fun bs => f (x, bs)) bytes' y) :
    Recovers enough (fun bs => read bs >>= f) (bytes ++ bytes') y where
  only rest r h := by
    rw [List.append_assoc] at h
    obtain ⟨a, ha, hr⟩ := Option.bind_eq_some_iff.mp h
    obtain rfl := first.only _ a ha
    exact then'.only rest r hr
  truncated front h ne := by
    show read front >>= f = none
    rcases front_cases h ne with ⟨hfront, hne⟩ | ⟨front', rfl, hfront, hne⟩
    · rw [first.truncated front hfront hne]
      rfl
    · -- The first part is whole: if it is read at all, then with this rest.
      cases hread : read (bytes ++ front') with
      | none => rfl
      | some a =>
        obtain rfl := first.only _ a hread
        exact then'.truncated front' hfront hne
  back h rest := by
    show read (bytes ++ bytes' ++ rest) >>= f = _
    rw [List.append_assoc, first.back h]
    exact then'.back h rest

/-- A reader that reads nothing. -/
theorem pure {f : Reader β} (hf : ∀ bs, f bs = some (y, bs)) : Recovers enough f [] y where
  only rest _ h := (Option.some.inj ((hf rest).symm.trans h)).symm
  truncated _ h ne := absurd (List.prefix_nil.mp h) ne
  back _ := hf

/-- A reader that takes a fixed number of bytes. -/
theorem fixed (hback : ∀ rest, read (bytes ++ rest) = some (x, rest))
    (hshort : ∀ bs : Bytes, bs.length < bytes.length → read bs = none) :
    Recovers enough read bytes x where
  only rest _ h := (Option.some.inj ((hback rest).symm.trans h)).symm
  truncated front h ne :=
    hshort front (lt_of_le_of_ne h.length_le fun heq => ne (h.eq_of_length heq))
  back _ := hback

/-- A reader that fails, and has not enough. -/
theorem failing (hread : ∀ bs, read bs = none) (h : ¬enough) : Recovers enough read bytes x where
  only _ _ hr := nomatch (hread _).symm.trans hr
  truncated front _ _ := hread front
  back henough := absurd henough h

/-- A reader that fits itself to the bytes it is given, if any bytes fit the value's. -/
theorem fitted {reader : Nat → Reader α} {fit : Bytes → Nat} {needs : Nat → Prop}
    (h : ∀ k, Recovers (needs k) (reader k) bytes x) (hfit : ∀ rest, needs (fit (bytes ++ rest))) :
    Recovers enough (fun bs => reader (fit bs) bs) bytes x where
  only rest := (h _).only rest
  truncated front := (h _).truncated front
  back _ rest := (h _).back (hfit rest) rest

/-- What is enough may be more than enough. -/
theorem mono {enough' : Prop} (h : Recovers enough' read bytes x) (hle : enough → enough') :
    Recovers enough read bytes x where
  only := h.only
  truncated := h.truncated
  back henough := h.back (hle henough)

end Recovers

/-! ## Numbers, flags and texts -/

/-- A number takes as many bytes as its width. -/
@[simp] theorem length_encodeNat (width n : Nat) : (encodeNat width n).length = width := by
  induction width generalizing n with
  | zero => rfl
  | succ width ih => rw [encodeNat, List.length_cons, ih]

/-- A number that fits is read back. -/
theorem decodeNat_encodeNat (width n : Nat) (hn : n < 256 ^ width) (rest : Bytes) :
    decodeNat width (encodeNat width n ++ rest) = some (n, rest) := by
  induction width generalizing n with
  | zero =>
    obtain rfl : n = 0 := by simpa using hn
    rfl
  | succ width ih =>
    have hdiv : n / 256 < 256 ^ width :=
      Nat.div_lt_of_lt_mul (by rw [Nat.mul_comm, ← Nat.pow_succ]; exact hn)
    have hlow : (UInt8.ofNat n).toNat = n % 256 := by simp
    rw [encodeNat, List.cons_append, decodeNat, ih (n / 256) hdiv]
    show some ((UInt8.ofNat n).toNat + 256 * (n / 256), rest) = _
    rw [hlow, Nat.mod_add_div]

/-- Too few bytes hold no number. -/
theorem decodeNat_short (width : Nat) (bs : Bytes) (h : bs.length < width) :
    decodeNat width bs = none := by
  induction width generalizing bs with
  | zero => exact absurd h (Nat.not_lt_zero _)
  | succ width ih =>
    cases bs with
    | nil => rfl
    | cons b bs =>
      rw [decodeNat, ih bs (Nat.lt_of_succ_lt_succ h)]
      rfl

/-- Numbers are read back. -/
theorem Recovers.number {enough : Prop} (width n : Nat) (hn : n < 256 ^ width) :
    Recovers enough (decodeNat width) (encodeNat width n) n :=
  .fixed (decodeNat_encodeNat width n hn) fun bs h =>
    decodeNat_short width bs (length_encodeNat width n ▸ h)

/-- Flags are read back. -/
theorem Recovers.flag {enough : Prop} (b : Bool) :
    Recovers enough decodeFlag [if b then 1 else 0] b :=
  .fixed (by cases b <;> exact fun _ => rfl) fun bs h => by
    obtain rfl : bs = [] := List.length_eq_zero_iff.mp (Nat.lt_one_iff.mp h)
    rfl

/-- The bytes from a place on, behind those already gathered. -/
theorem toList_loop (bs : ByteArray) (i : Nat) (front : Bytes) :
    ByteArray.toList.loop bs i front = front.reverse ++ bs.data.toList.drop i := by
  induction i, front using ByteArray.toList.loop.induct bs with
  | case1 i front h ih =>
    have hi : i < bs.data.toList.length := h
    have hget : bs.get! i = bs.data.toList[i] := getElem!_pos bs.data i h
    rw [ByteArray.toList.loop, if_pos h, ih, List.drop_eq_getElem_cons hi, hget]
    simp
  | case2 i front h =>
    have hi : bs.data.toList.length ≤ i := Nat.le_of_not_lt h
    rw [ByteArray.toList.loop, if_neg h, List.drop_eq_nil_of_le hi, List.append_nil]

/-- The bytes of an array are listed in its order. -/
theorem byteArray_toList (bs : ByteArray) : bs.toList = bs.data.toList := by
  rw [ByteArray.toList, toList_loop, List.drop_zero]
  rfl

/-- A text takes as many bytes as its UTF-8 encoding has. -/
theorem length_toUTF8 (s : String) : s.toUTF8.toList.length = s.utf8ByteSize := by
  rw [byteArray_toList]
  rfl

/-- The bytes of a text are a text. -/
theorem fromUTF8?_toList (s : String) : String.fromUTF8? ⟨s.toUTF8.toList.toArray⟩ = some s := by
  have harray : (⟨s.toUTF8.toList.toArray⟩ : ByteArray) = s.toUTF8 := by
    rw [byteArray_toList, Array.toArray_toList]
  rw [harray]
  exact dif_pos s.isValidUTF8

/-- Texts whose length fits are read back. -/
theorem Recovers.text {enough : Prop} (s : String) (hs : s.utf8ByteSize < 256 ^ 8) :
    Recovers enough decodeText (encodeNat 8 s.utf8ByteSize ++ s.toUTF8.toList) s := by
  refine .bind (.number 8 s.utf8ByteSize hs) (.fixed (fun rest => ?_) fun bs h => ?_)
  · have hlength : ¬(s.toUTF8.toList ++ rest).length < s.utf8ByteSize := by
      rw [List.length_append, length_toUTF8]
      omega
    have htake : (s.toUTF8.toList ++ rest).take s.utf8ByteSize = s.toUTF8.toList :=
      List.take_left' (length_toUTF8 s)
    have hdrop : (s.toUTF8.toList ++ rest).drop s.utf8ByteSize = rest :=
      List.drop_left' (length_toUTF8 s)
    simp only [if_neg hlength, htake, hdrop, fromUTF8?_toList]
    rfl
  · exact if_pos (length_toUTF8 s ▸ h)

end Snapshot

/-! ## A reader and the atoms of a value -/

/-- That what an atom has to say of a length can be said in eight bytes. -/
def Atom.Fits : Atom → Prop
  | .text s => s.utf8ByteSize < UInt64.size
  | .length n => n < UInt64.size
  | _ => True

instance : DecidablePred Atom.Fits
  | .text s => inferInstanceAs (Decidable (s.utf8ByteSize < UInt64.size))
  | .length n => inferInstanceAs (Decidable (n < UInt64.size))
  | .byte _ | .word32 _ | .word64 _ | .word128 _ | .flag _ | .choice _ | .present _ =>
    .isTrue trivial

namespace Snapshot

variable {α β : Type}

/-- The bytes of some atoms. -/
def bytesOf (l : List Atom) : Bytes := l.flatMap encodeAtom

/-- No atoms are no bytes. -/
@[simp] theorem bytesOf_nil : bytesOf [] = [] := rfl

/-- The bytes of atoms begin with those of the first one. -/
@[simp] theorem bytesOf_cons (a : Atom) (l : List Atom) :
    bytesOf (a :: l) = encodeAtom a ++ bytesOf l := rfl

/-- The bytes of two lists of atoms stand one after the other. -/
@[simp] theorem bytesOf_append (l l' : List Atom) : bytesOf (l ++ l') = bytesOf l ++ bytesOf l' :=
  List.flatMap_append

/-- Every atom takes at least one byte. -/
theorem encodeAtom_ne_nil (a : Atom) : encodeAtom a ≠ [] := by
  cases a <;> simp [encodeAtom, encodeNat]

/-- Each atom is at least one byte. -/
theorem length_le_bytesOf (l : List Atom) : l.length ≤ (bytesOf l).length := by
  induction l with
  | nil => exact Nat.le_refl 0
  | cons a l ih =>
    have ha : 0 < (encodeAtom a).length := List.length_pos_iff.mpr (encodeAtom_ne_nil a)
    rw [bytesOf_cons, List.length_append, List.length_cons]
    omega

/-- That a reader finds a value in the bytes of its atoms, if there are no more of them than
`fuel`; of atoms whose lengths fit. -/
def Reads (fuel : Nat) (read : Reader α) (l : List Atom) (x : α) : Prop :=
  (∀ a ∈ l, a.Fits) → Recovers ((bytesOf l).length ≤ fuel) read (bytesOf l) x

namespace Reads

variable {fuel : Nat} {read : Reader α} {l l' : List Atom} {x : α} {y : β}

/-- A reader that goes on with what another read. -/
theorem bind {f : α × Bytes → Option (β × Bytes)} (first : Reads fuel read l x)
    (then' : Reads fuel (fun bs => f (x, bs)) l' y) :
    Reads fuel (fun bs => read bs >>= f) (l ++ l') y := by
  intro hfits
  obtain ⟨hl, hl'⟩ := List.forall_mem_append.mp hfits
  rw [bytesOf_append, List.length_append]
  exact ((first hl).mono (by omega)).bind ((then' hl').mono (by omega))

/-- A reader that goes on after one atom, with less fuel. -/
theorem step {f : α × Bytes → Option (β × Bytes)} {a : Atom}
    (first : a.Fits → ∀ enough, Recovers enough read (encodeAtom a) x)
    (then' : Reads (fuel - 1) (fun bs => f (x, bs)) l y) :
    Reads fuel (fun bs => read bs >>= f) (a :: l) y := by
  intro hfits
  obtain ⟨ha, hl⟩ := List.forall_mem_cons.mp hfits
  have hlength : 0 < (encodeAtom a).length := List.length_pos_iff.mpr (encodeAtom_ne_nil a)
  rw [bytesOf_cons, List.length_append]
  exact (first ha _).bind ((then' hl).mono (by omega))

/-- A reader that reads nothing. -/
theorem pure {f : Reader β} (hf : ∀ bs, f bs = some (y, bs)) : Reads fuel f [] y :=
  fun _ => .pure hf

/-- A reader that wraps up what another read. -/
theorem last {f : α × Bytes → Option (β × Bytes)} (first : Reads fuel read l x)
    (hf : ∀ bs, f (x, bs) = some (y, bs)) : Reads fuel (fun bs => read bs >>= f) l y :=
  List.append_nil l ▸ first.bind (.pure hf)

/-- A reader that changes what another read. -/
theorem map {g : α × Bytes → β × Bytes} (first : Reads fuel read l x)
    (hg : ∀ bs, g (x, bs) = (y, bs)) : Reads fuel (fun bs => (read bs).map g) l y := by
  have hmap : (fun bs => (read bs).map g) = fun bs => read bs >>= fun r => some (g r) :=
    funext fun bs => Option.map_eq_bind
  rw [hmap]
  exact first.last fun bs => congrArg some (hg bs)

/-- Texts are read back. -/
theorem text (s : String) : Reads fuel decodeText [.text s] s := by
  intro hfits
  rw [bytesOf_cons, bytesOf_nil, List.append_nil]
  exact .text s (hfits _ List.mem_cons_self)

/-- A number in an atom of its width. -/
theorem number {a : Atom} (width n : Nat) (ha : encodeAtom a = encodeNat width n)
    (hn : n < 256 ^ width) : Reads fuel (decodeNat width) [a] n := by
  intro _
  rw [bytesOf_cons, bytesOf_nil, List.append_nil, ha]
  exact .number width n hn

/-- Less fuel is enough for fewer values. -/
theorem mono {fuel' : Nat} (h : Reads fuel' read l x) (hle : fuel ≤ fuel') :
    Reads fuel read l x :=
  fun hsize => (h hsize).mono fun henough => Nat.le_trans henough hle

/-- A reader without fuel fails. -/
theorem exhausted (hread : ∀ bs, read bs = none) (hl : l ≠ []) : Reads 0 read l x := by
  intro _
  have hlength : 0 < l.length := List.length_pos_iff.mpr hl
  exact .failing hread (Nat.not_le_of_lt (Nat.lt_of_lt_of_le hlength (length_le_bytesOf l)))

/-- Which alternative follows. -/
theorem choice (n : Nat) {f : Nat × Bytes → Option (β × Bytes)}
    (then' : Reads (fuel - 1) (fun bs => f (n, bs)) l y) (hn : n < UInt32.size := by decide) :
    Reads fuel (fun bs => decodeChoice bs >>= f) (.choice (UInt32.ofNat n) :: l) y := by
  refine .step (fun _ enough => ?_) then'
  show Recovers enough (decodeNat 4) (encodeNat 4 (UInt32.ofNat n).toNat) n
  rw [UInt32.toNat_ofNat_of_lt' hn]
  exact .number 4 n hn

/-- Whether something follows. -/
theorem present (b : Bool) {f : Bool × Bytes → Option (β × Bytes)}
    (then' : Reads (fuel - 1) (fun bs => f (b, bs)) l y) :
    Reads fuel (fun bs => decodeFlag bs >>= f) (.present b :: l) y :=
  .step (fun _ _ => .flag b) then'

/-- As many items as there are. -/
theorem items (write : α → List Atom) (xs : List α) (h : ∀ x ∈ xs, Reads fuel read (write x) x) :
    Reads fuel (decodeItems read xs.length) (xs.flatMap write) xs := by
  induction xs with
  | nil => exact .pure fun _ => rfl
  | cons x xs ih =>
    have tail := ih fun x' hx' => h x' (List.mem_cons_of_mem x hx')
    exact (h x List.mem_cons_self).bind (tail.last fun _ => rfl)

/-- Lists of values that are read back. -/
theorem list (write : α → List Atom) (xs : List α) (h : ∀ x ∈ xs, Reads fuel read (write x) x) :
    Reads fuel (decodeList read) (.length xs.length :: xs.flatMap write) xs :=
  .step (fun hlength _ => .number 8 xs.length hlength)
    ((items write xs h).mono (Nat.sub_le fuel 1))

/-- What is missing is read back as missing. -/
theorem absent : Reads fuel (decodeOption read) [.present false] none :=
  .present false (.pure fun _ => rfl)

/-- What is there is read back. -/
theorem given (h : Reads (fuel - 1) read l x) :
    Reads fuel (decodeOption read) (.present true :: l) (some x) :=
  .present true (h.last fun _ => rfl)

end Reads

end Snapshot

open Snapshot

/-! ## Types whose values are read back -/

/-- Types whose readers find their values. -/
class LawfulRestorable (α : Type) [Atomic α] [Restorable α] : Prop where
  /-- A value is found in the bytes of its atoms. -/
  reads (x : α) (fuel : Nat) : Reads fuel restore (atoms x) x

export LawfulRestorable (reads)

instance : LawfulRestorable UInt8 where
  reads n _ := (Reads.number 1 n.toNat (by simp [encodeAtom, encodeNat]) n.toNat_lt).map
    fun bs => by rw [UInt8.ofNat_toNat]

instance : LawfulRestorable UInt32 where
  reads n _ := (Reads.number 4 n.toNat rfl n.toNat_lt).map fun bs => by rw [UInt32.ofNat_toNat]

instance : LawfulRestorable UInt64 where
  reads n _ := (Reads.number 8 n.toNat rfl n.toNat_lt).map fun bs => by rw [UInt64.ofNat_toNat]

instance : LawfulRestorable Int64 where
  reads n _ := (Reads.number 8 n.toUInt64.toNat rfl n.toUInt64.toNat_lt).map fun bs => by
    rw [UInt64.ofNat_toNat, Int64.toInt64_toUInt64]

instance : LawfulRestorable (BitVec 128) where
  reads n _ := (Reads.number 16 n.toNat rfl n.isLt).map fun bs => by
    rw [BitVec.ofNat_toNat, BitVec.setWidth_eq]

instance : LawfulRestorable Bool where
  reads b _ := fun _ => .flag b

instance : LawfulRestorable String where
  reads s _ := .text s

section Containers

variable {α β : Type} [Atomic α] [Restorable α] [LawfulRestorable α] [Atomic β] [Restorable β]
  [LawfulRestorable β]

instance : LawfulRestorable (Option α) where
  reads
    | none, _ => .absent
    | some x, _ => .given (reads x _)

instance : LawfulRestorable (List α) where
  reads xs fuel := .list atoms xs fun x _ => reads x fuel

instance : LawfulRestorable (α × β) where
  reads p fuel := (reads p.1 fuel).bind ((reads p.2 fuel).last fun _ => rfl)

instance : LawfulRestorable (Dict α) where
  reads d fuel := (reads d.entries fuel).map fun bs => by rw [Dict.ofList_entries]

end Containers

end Tabletop
