import Mathlib.Data.List.Perm.Basic
import Tabletop.Dict

/-!
# Entries of dictionaries

A key that has a value stands in one place among the entries, and a new value takes that place.

Main statements: `Dict.get?_insert`, `Dict.insert_split`, `Dict.ext_get?` and `Dict.ofList_entries`.
-/

namespace Tabletop.Dict

universe u

variable {α : Type u}

/-- No key has a value in `∅`. -/
@[simp] theorem get?_emptyCollection (k : String) : (∅ : Dict α).get? k = none := rfl

/-- The keys of a dictionary ascend strictly. -/
theorem pairwise_keys (d : Dict α) : d.keys.Pairwise (· < ·) := by
  rw [keys, List.pairwise_map]
  exact d.ascending

/-- The inserted value is at its key, and no other key has another value. -/
theorem get?_insert (d : Dict α) (k : String) (x : α) (l : String) :
    (d.insert k x).get? l = if l = k then some x else d.get? l := by
  by_cases h : l = k
  · rw [if_pos h, h, get?_insert_self]
  · rw [if_neg h, get?_insert_ne d x h]

/-- Entries around a key: those before it, its own, those after it. -/
theorem insertEntry_split {k : String} {x : α} :
    ∀ {l : List (String × α)}, l.Pairwise (fun a b => a.1 < b.1) → l.lookup k = some x →
      ∃ pre post, l = pre ++ (k, x) :: post ∧
        ∀ y, insertEntry k y l = pre ++ (k, y) :: post
  | [], _, h => by cases h
  | (m, z) :: rest, hl, h => by
    have hr := List.pairwise_cons.1 hl
    rw [List.lookup_cons] at h
    by_cases hk : k = m
    · subst hk
      have hz : z = x := by simpa using h
      subst hz
      refine ⟨[], rest, rfl, fun y => ?_⟩
      rw [insertEntry, if_neg (String.lt_irrefl k), if_pos rfl]
      rfl
    · have hlookup : rest.lookup k = some x := by simpa [beq_eq_false_iff_ne.2 hk] using h
      obtain ⟨pre, post, hsplit, hinsert⟩ := insertEntry_split hr.2 hlookup
      -- The key stands further on, so it is greater than the first one.
      have hmem : (k, x) ∈ rest := by rw [hsplit]; simp
      have hlt : ¬ k < m := String.lt_asymm (hr.1 _ hmem)
      refine ⟨(m, z) :: pre, post, by rw [hsplit]; rfl, fun y => ?_⟩
      rw [insertEntry, if_neg hlt, if_neg hk, hinsert y]
      rfl

/-- A new value at a key takes the place of the old one. -/
theorem insert_split {d : Dict α} {k : String} {x : α} (h : d.get? k = some x) :
    ∃ pre post, d.entries = pre ++ (k, x) :: post ∧
      ∀ y, (d.insert k y).entries = pre ++ (k, y) :: post :=
  insertEntry_split d.ascending h

/-- A key without a value gets an entry besides those that are there. -/
theorem insertEntry_perm {k : String} (x : α) :
    ∀ {l : List (String × α)}, l.lookup k = none → (insertEntry k x l).Perm ((k, x) :: l)
  | [], _ => .refl _
  | (m, y) :: rest, h => by
    rw [List.lookup_cons] at h
    by_cases hk : k = m
    · simp [hk] at h
    · have hrest : rest.lookup k = none := by simpa [beq_eq_false_iff_ne.2 hk] using h
      rw [insertEntry, if_neg hk]
      split
      · exact .refl _
      · exact ((insertEntry_perm x hrest).cons (m, y)).trans (.swap _ _ _)

/-- A look-up after every value has changed. -/
theorem get?_map {β : Type u} (f : String → α → β) (d : Dict α) (k : String) :
    (d.map f).get? k = (d.get? k).map (f k) := by
  obtain ⟨l, hl⟩ := d
  simp only [get?, map]
  clear hl
  induction l with
  | nil => rfl
  | cons e rest ih =>
    obtain ⟨m, y⟩ := e
    simp only [List.map_cons, List.lookup_cons]
    by_cases hk : k = m
    · simp [hk]
    · simp [beq_eq_false_iff_ne.2 hk, ih]

/-- An entry is the value at its key. -/
theorem mem_entries_iff {d : Dict α} {k : String} {x : α} :
    (k, x) ∈ d.entries ↔ d.get? k = some x := by
  constructor
  · obtain ⟨l, hl⟩ := d
    simp only [get?]
    induction l with
    | nil => simp
    | cons e rest ih =>
      obtain ⟨m, y⟩ := e
      have hr := List.pairwise_cons.1 hl
      intro h
      rcases List.mem_cons.1 h with heq | h
      · cases heq
        simp
      · have hne : k ≠ m := (String.ne_of_lt (hr.1 _ h)).symm
        rw [List.lookup_cons, beq_eq_false_iff_ne.2 hne]
        exact ih hr.2 h
  · intro h
    obtain ⟨pre, post, hsplit, -⟩ := insert_split h
    rw [hsplit]
    simp

/-- Dictionaries with the same value at every key are the same. -/
theorem ext_get? {d e : Dict α} (h : ∀ k, d.get? k = e.get? k) : d = e := by
  have hnodup (d : Dict α) : d.entries.Nodup := by
    refine d.ascending.imp ?_
    rintro e _ hlt rfl
    exact String.lt_irrefl _ hlt
  have hperm : d.entries.Perm e.entries := by
    refine (List.perm_ext_iff_of_nodup (hnodup d) (hnodup e)).2 fun ⟨k, x⟩ => ?_
    rw [mem_entries_iff, mem_entries_iff, h k]
  refine ext (hperm.eq_of_pairwise (fun a b _ _ hab hba => ?_) d.ascending e.ascending)
  exact absurd hba (String.lt_asymm hab)

/-- An entry with the greatest key goes to the end. -/
theorem insertEntry_of_forall_lt {k : String} (x : α) :
    ∀ {l : List (String × α)}, (∀ e ∈ l, e.1 < k) → insertEntry k x l = l ++ [(k, x)]
  | [], _ => rfl
  | e :: rest, h => by
    have hlt : e.1 < k := h e List.mem_cons_self
    have hne : k ≠ e.1 := by
      rintro rfl
      exact String.lt_irrefl _ hlt
    rw [insertEntry, if_neg (String.lt_asymm hlt), if_neg hne,
      insertEntry_of_forall_lt x (fun e' he' => h e' (List.mem_cons_of_mem e he'))]
    rfl

/-- Entries that go on ascending are added as they are. -/
theorem entries_foldl_insert :
    ∀ {l : List (String × α)} {d : Dict α}, (d.entries ++ l).Pairwise (fun a b => a.1 < b.1) →
      (l.foldl (fun d e => d.insert e.1 e.2) d).entries = d.entries ++ l
  | [], d, _ => (List.append_nil d.entries).symm
  | e :: l, d, h => by
    have hlast : ∀ e' ∈ d.entries, e'.1 < e.1 := fun e' he' =>
      (List.pairwise_append.1 h).2.2 e' he' e List.mem_cons_self
    have hinsert : (d.insert e.1 e.2).entries = d.entries ++ [e] :=
      insertEntry_of_forall_lt e.2 hlast
    rw [List.foldl_cons, entries_foldl_insert, hinsert, List.append_assoc, List.singleton_append]
    rw [hinsert, List.append_assoc, List.singleton_append]
    exact h

/-- A dictionary is the dictionary of its entries. -/
@[simp] theorem ofList_entries (d : Dict α) : ofList d.entries = d :=
  ext (entries_foldl_insert (d := empty) d.ascending)

end Tabletop.Dict
