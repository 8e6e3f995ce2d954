import Mathlib.Data.List.Sort

/-!
# Lists without repeats

A list that is sorted and then rid of what stands next to its like has every item once, and the
items ascend strictly.

Main statements: `mem_eraseReps` and `pairwise_eraseReps`.
-/

namespace Tabletop

variable {α : Type} [BEq α] [LawfulBEq α] {x : α}

/-- The items that are left of a list, after those that were kept before, are those that were
there. -/
theorem mem_eraseRepsBy_iff :
    ∀ {l kept : List α} {a : α},
      x ∈ List.eraseRepsBy.loop (· == ·) a l kept ↔ x = a ∨ x ∈ l ∨ x ∈ kept
  | [], kept, a => by simp [List.eraseRepsBy.loop, or_comm]
  | b :: l, kept, a => by
    unfold List.eraseRepsBy.loop
    by_cases hab : a = b
    · subst hab
      simp only [beq_self_eq_true]
      rw [mem_eraseRepsBy_iff, List.mem_cons]
      tauto
    · have hne : (a == b) = false := beq_eq_false_iff_ne.2 hab
      simp only [hne]
      rw [mem_eraseRepsBy_iff, List.mem_cons, List.mem_cons]
      tauto

/-- Of items that repeat, one is left each. -/
theorem mem_eraseReps {l : List α} : x ∈ l.eraseReps ↔ x ∈ l := by
  cases l with
  | nil => exact Iff.rfl
  | cons a l =>
    unfold List.eraseReps List.eraseRepsBy
    rw [mem_eraseRepsBy_iff, List.mem_cons, List.mem_nil_iff, or_false]

variable {le lt : α → α → Prop}

/-- Items in order that are kept, last first, stay in strict order with what is left of those after
them. -/
theorem pairwise_eraseRepsBy (hlt : ∀ {a b}, le a b → a ≠ b → lt a b)
    (htrans : ∀ {a b c}, lt a b → lt b c → lt a c) :
    ∀ {l kept : List α} {a : α}, (a :: l).Pairwise le → kept.Pairwise (fun b c => lt c b) →
      (∀ b ∈ kept, lt b a) → (List.eraseRepsBy.loop (· == ·) a l kept).Pairwise lt
  | [], kept, a, _, hkept, hbelow => by
    unfold List.eraseRepsBy.loop
    rw [List.pairwise_reverse]
    exact List.pairwise_cons.2 ⟨hbelow, hkept⟩
  | b :: l, kept, a, hsorted, hkept, hbelow => by
    unfold List.eraseRepsBy.loop
    obtain ⟨hfirst, hrest⟩ := List.pairwise_cons.1 hsorted
    by_cases hab : a = b
    · subst hab
      simp only [beq_self_eq_true]
      exact pairwise_eraseRepsBy hlt htrans hrest hkept hbelow
    · have hne : (a == b) = false := beq_eq_false_iff_ne.2 hab
      have hnext : lt a b := hlt (hfirst b List.mem_cons_self) hab
      simp only [hne]
      refine pairwise_eraseRepsBy hlt htrans hrest (List.pairwise_cons.2 ⟨hbelow, hkept⟩)
        fun c hc => ?_
      rcases List.mem_cons.1 hc with rfl | hc
      · exact hnext
      · exact htrans (hbelow c hc) hnext

/-- Items that are in order are in strict order once their repeats are gone. -/
theorem pairwise_eraseReps (hlt : ∀ {a b}, le a b → a ≠ b → lt a b)
    (htrans : ∀ {a b c}, lt a b → lt b c → lt a c) {l : List α} (hsorted : l.Pairwise le) :
    l.eraseReps.Pairwise lt := by
  cases l with
  | nil => exact .nil
  | cons a l =>
    unfold List.eraseReps List.eraseRepsBy
    exact pairwise_eraseRepsBy hlt htrans hsorted .nil nofun

end Tabletop
