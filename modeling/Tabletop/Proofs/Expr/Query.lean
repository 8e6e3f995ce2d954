import Tabletop.Expr.Eval
import Tabletop.Proofs.Paired.Basic

/-!
# What queries collect

A query never collects an array: what it finds are tokens and scalars, and an array that is bound to
a name is taken apart.  So every item has an identity.

Main statement: `Query.collect_identified`.
-/

namespace Tabletop

/-- Items that a test keeps are in the order in which they were. -/
theorem keepM_sublist {α : Type} {test : α → Result Bool} :
    ∀ {xs ys : List α}, keepM test xs = .ok ys → ys.Sublist xs
  | [], _, h => by
    cases h
    exact .slnil
  | x :: xs, _, h => by
    obtain ⟨kept, -, h⟩ := bind_eq_ok h
    obtain ⟨rest, hrest, h⟩ := bind_eq_ok h
    have hsub := keepM_sublist hrest
    cases kept with
    | true =>
      cases h
      exact hsub.cons_cons x
    | false =>
      cases h
      exact hsub.cons x

/-- All of several values have an identity. -/
def Value.Identified (xs : List Value) : Prop := ∀ x ∈ xs, x.identity?.isSome = true

namespace Value

/-- Values are identified if each of them is made so. -/
theorem identified_map {α : Type} {f : α → Value} (h : ∀ a, (f a).identity?.isSome = true)
    (xs : List α) : Identified (xs.map f) := by
  intro x hx
  obtain ⟨a, -, rfl⟩ := List.mem_map.1 hx
  exact h a

/-- A part of identified values is identified. -/
theorem Identified.sublist {xs ys : List Value} (h : Identified xs) (hs : ys.Sublist xs) :
    Identified ys :=
  fun x hx => h x (hs.subset hx)

end Value

/-! ## What queries find -/

/-- The members of a range are identified. -/
theorem intRange_identified {lo hi : Int64} {xs : List Value} (h : intRange lo hi = .ok xs) :
    Value.Identified xs := by
  unfold intRange at h
  dsimp only at h
  split at h
  · cases h
    exact fun _ hx => absurd hx List.not_mem_nil
  · split at h
    · cases h
    · cases h
      exact Value.identified_map (fun _ => rfl) _

mutual

/-- What a query finds has an identity. -/
theorem Query.collect_identified (q : Query) {v : View} {xs : List Value}
    (h : q.collect v = .ok xs) : Value.Identified xs := by
  cases q with
  | tokensInZone zone filter =>
    obtain ⟨zone, -, h⟩ := bind_eq_ok h
    exact (Value.identified_map (fun _ => rfl) _).sublist (keepM_sublist h)
  | zones category filter =>
    exact (Value.identified_map (fun _ => rfl) _).sublist (keepM_sublist h)
  | adjacentZones zone filter =>
    obtain ⟨zone, -, h⟩ := bind_eq_ok h
    exact (Value.identified_map (fun _ => rfl) _).sublist (keepM_sublist h)
  | intRange min max =>
    obtain ⟨_, -, h⟩ := bind_eq_ok h
    obtain ⟨lo, -, h⟩ := bind_eq_ok h
    obtain ⟨_, -, h⟩ := bind_eq_ok h
    obtain ⟨hi, -, h⟩ := bind_eq_ok h
    exact intRange_identified h
  | enums names =>
    cases h
    exact Value.identified_map (fun _ => rfl) _
  | seats =>
    cases h
    exact Value.identified_map (fun _ => rfl) _
  | binding name =>
    obtain ⟨x, -, h⟩ := bind_eq_ok h
    cases x with
    | array xs =>
      cases h
      exact Value.identified_map (fun _ => rfl) _
    | scalar x =>
      cases h
      exact fun y hy => by rw [List.mem_singleton.1 hy]; rfl
    | token id =>
      cases h
      exact fun y hy => by rw [List.mem_singleton.1 hy]; rfl
  | tableColumn table field =>
    obtain ⟨t, -, h⟩ := bind_eq_ok h
    cases h
    intro x hx
    obtain ⟨row, -, hrow⟩ := List.mem_filterMap.1 hx
    obtain ⟨y, -, rfl⟩ := Option.map_eq_some_iff.1 hrow
    rfl
  | concat parts => exact Query.collectAll_identified parts h

/-- What queries find has an identity. -/
theorem Query.collectAll_identified (qs : List Query) {v : View} {xs : List Value}
    (h : Query.collectAll qs v = .ok xs) : Value.Identified xs := by
  cases qs with
  | nil =>
    cases h
    exact fun _ hx => absurd hx List.not_mem_nil
  | cons q qs =>
    obtain ⟨ys, hys, h⟩ := bind_eq_ok h
    obtain ⟨zs, hzs, h⟩ := bind_eq_ok h
    cases h
    intro x hx
    rcases List.mem_append.1 hx with hx | hx
    · exact q.collect_identified hys x hx
    · exact Query.collectAll_identified qs hzs x hx

end

end Tabletop
