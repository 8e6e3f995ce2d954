/-!
# Dictionaries with one representation

Every keyed collection of a game (variables, zones, markers, token props, move params) is read in
key order somewhere: in a fingerprint, a snapshot, a printed move.  A `Dict` keeps its entries
strictly ascending by key, so equal contents are equal values and the order needs no argument.

Main statements: a look-up after `insert` sees the new value at its key and the old ones elsewhere
(`get?_insert_self`, `get?_insert_ne`).
-/

namespace Tabletop

universe u v

/-- A finite map from strings, kept as its entries in strictly ascending key order. -/
structure Dict (α : Type u) where
  /-- The entries, smallest key first. -/
  entries : List (String × α)
  /-- Keys ascend strictly, so no key repeats. -/
  ascending : entries.Pairwise (fun a b => a.1 < b.1)

namespace Dict

variable {α : Type u} {β : Type v}

/-- Dictionaries with the same entries are the same; that the keys ascend carries no data. -/
@[ext] theorem ext {d e : Dict α} (h : d.entries = e.entries) : d = e := by
  cases d; cases e; cases h; rfl

instance [DecidableEq α] : DecidableEq (Dict α) := fun d e =>
  decidable_of_iff (d.entries = e.entries) ⟨ext, fun h => h ▸ rfl⟩

/-- The dictionary without entries. -/
def empty : Dict α := ⟨[], .nil⟩

instance : EmptyCollection (Dict α) := ⟨empty⟩
instance : Inhabited (Dict α) := ⟨empty⟩

/-- The value at a key. -/
def get? (d : Dict α) (k : String) : Option α := d.entries.lookup k

/-- Whether a key has a value. -/
def contains (d : Dict α) (k : String) : Bool := (d.get? k).isSome

/-- The keys, ascending. -/
def keys (d : Dict α) : List String := d.entries.map (·.1)

/-- The values, in key order. -/
def values (d : Dict α) : List α := d.entries.map (·.2)

/-- Whether there is no entry. -/
def isEmpty (d : Dict α) : Bool := d.entries.isEmpty

/-! ## Writing -/

/-- One pass over ascending entries: the new entry takes its place, or that of its own key. -/
def insertEntry (k : String) (x : α) : List (String × α) → List (String × α)
  | [] => [(k, x)]
  | e :: rest =>
    if k < e.1 then (k, x) :: e :: rest
    else if k = e.1 then (k, x) :: rest
    else e :: insertEntry k x rest

/-- Inserting an entry brings no other entry in. -/
theorem mem_insertEntry {k : String} {x : α} {a : String × α} {l : List (String × α)} :
    a ∈ insertEntry k x l → a = (k, x) ∨ a ∈ l := by
  induction l with
  | nil => simp [insertEntry]
  | cons e rest ih =>
    rw [insertEntry]
    split
    · simp
    · split
      · intro h
        rcases List.mem_cons.1 h with h | h
        · exact .inl h
        · exact .inr (List.mem_cons_of_mem _ h)
      · intro h
        rcases List.mem_cons.1 h with h | h
        · exact .inr (h ▸ List.mem_cons_self)
        · exact (ih h).imp id (List.mem_cons_of_mem _)

/-- Of two keys that are neither equal nor in order, the second comes first. -/
theorem lt_of_not_lt_of_ne {k l : String} (h : ¬ k < l) (hne : k ≠ l) : l < k := by
  have hle : l ≤ k := String.not_lt.1 h
  rcases Decidable.em (l < k) with hlt | hlt
  · exact hlt
  · exact absurd (String.le_antisymm (String.not_lt.1 hlt) hle) hne

/-- Entries still ascend strictly after one has been inserted. -/
theorem ascending_insertEntry (k : String) (x : α) {l : List (String × α)}
    (h : l.Pairwise (fun a b => a.1 < b.1)) :
    (insertEntry k x l).Pairwise (fun a b => a.1 < b.1) := by
  induction l with
  | nil => simp [insertEntry]
  | cons e rest ih =>
    have hr := List.pairwise_cons.1 h
    rw [insertEntry]
    split
    · rename_i hlt
      refine List.pairwise_cons.2 ⟨fun a ha => ?_, h⟩
      rcases List.mem_cons.1 ha with rfl | ha
      · exact hlt
      · exact String.lt_trans hlt (hr.1 a ha)
    · split
      · rename_i heq
        exact List.pairwise_cons.2 ⟨fun a ha => heq ▸ hr.1 a ha, hr.2⟩
      · rename_i hlt hne
        refine List.pairwise_cons.2 ⟨fun a ha => ?_, ih hr.2⟩
        rcases mem_insertEntry ha with rfl | ha
        · exact lt_of_not_lt_of_ne hlt hne
        · exact hr.1 a ha

/-- Sets the value at a key. -/
def insert (d : Dict α) (k : String) (x : α) : Dict α :=
  ⟨insertEntry k x d.entries, ascending_insertEntry k x d.ascending⟩

/-- Drops a key. -/
def erase (d : Dict α) (k : String) : Dict α :=
  ⟨d.entries.filter (fun e => e.1 ≠ k), d.ascending.filter _⟩

/-- Changes every value, knowing its key. -/
def map (f : String → α → β) (d : Dict α) : Dict β :=
  ⟨d.entries.map (fun e => (e.1, f e.1 e.2)), by
    simpa [List.pairwise_map] using d.ascending⟩

/-- Changes the value at a key, if there is one. -/
def modify (d : Dict α) (k : String) (f : α → α) : Dict α :=
  d.map (fun l x => if l = k then f x else x)

/-- The dictionary of a list of entries; of a repeated key the last entry counts. -/
def ofList (l : List (String × α)) : Dict α :=
  l.foldl (fun d e => d.insert e.1 e.2) empty

/-! ## Look-up laws -/

/-- No key has a value in the empty dictionary. -/
@[simp] theorem get?_empty (k : String) : (empty : Dict α).get? k = none := rfl

/-- A key has the value that was inserted at it. -/
@[simp] theorem get?_insert_self (d : Dict α) (k : String) (x : α) :
    (d.insert k x).get? k = some x := by
  obtain ⟨l, h⟩ := d
  simp only [get?, insert]
  clear h
  induction l with
  | nil => simp [insertEntry]
  | cons e rest ih =>
    obtain ⟨m, y⟩ := e
    rw [insertEntry]
    split
    · simp
    · split
      · simp
      · rename_i hne
        simp [List.lookup_cons, beq_eq_false_iff_ne.2 hne, ih]

/-- An insertion leaves the values at all other keys. -/
theorem get?_insert_ne (d : Dict α) {k l : String} (x : α) (hkl : l ≠ k) :
    (d.insert k x).get? l = d.get? l := by
  obtain ⟨es, h⟩ := d
  simp only [get?, insert]
  clear h
  have hlk : (l == k) = false := beq_eq_false_iff_ne.2 hkl
  induction es with
  | nil => simp [insertEntry, List.lookup_cons, hlk]
  | cons e rest ih =>
    obtain ⟨m, y⟩ := e
    rw [insertEntry]
    split
    · simp [List.lookup_cons, hlk]
    · split
      · rename_i heq
        obtain rfl : k = m := heq
        simp [List.lookup_cons, hlk]
      · simp [List.lookup_cons, ih]

end Dict

end Tabletop
