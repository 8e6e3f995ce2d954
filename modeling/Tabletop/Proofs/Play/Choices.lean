import Mathlib.Data.List.Nodup
import Tabletop.Play.Legal
import Tabletop.Proofs.Effect.Asking
import Tabletop.Proofs.Paired.Plan

/-!
# The choices for a decision

An answer fits a decision if it is one of its options, or as many of them as are asked for, each
once; a decision takes the answers that fit.  The choices that are listed for a decision are all
different, and every answer that the decision takes is among them, if several options are given in
the order of the domain.

Main statements: `Decision.Clear.takes_iff`, `Decision.nodup_choices` and `Decision.mem_choices`.
-/

namespace Tabletop

/-! ## Combinations -/

section

variable {α : Type}

/-- The combinations of a size are the sublists of that length. -/
theorem mem_combinations :
    ∀ {n : Nat} {xs ys : List α}, ys ∈ combinations n xs ↔ ys.Sublist xs ∧ ys.length = n
  | 0, xs, ys => by
    rw [combinations, List.mem_singleton]
    constructor
    · rintro rfl
      exact ⟨List.nil_sublist xs, rfl⟩
    · exact fun h => List.length_eq_zero_iff.1 h.2
  | n + 1, [], ys => by
    rw [combinations]
    constructor
    · exact fun h => absurd h List.not_mem_nil
    · rintro ⟨hs, hlength⟩
      rw [List.sublist_nil.1 hs] at hlength
      cases hlength
  | n + 1, x :: xs, ys => by
    rw [combinations, List.mem_append, List.mem_map]
    constructor
    · rintro (⟨zs, hzs, rfl⟩ | hys)
      · obtain ⟨hs, hlength⟩ := mem_combinations.1 hzs
        exact ⟨hs.cons_cons x, congrArg (· + 1) hlength⟩
      · obtain ⟨hs, hlength⟩ := mem_combinations.1 hys
        exact ⟨hs.cons x, hlength⟩
    · rintro ⟨hs, hlength⟩
      cases hs with
      | cons _ hs => exact .inr (mem_combinations.2 ⟨hs, hlength⟩)
      | cons_cons _ hs => exact .inl ⟨_, mem_combinations.2 ⟨hs, Nat.succ.inj hlength⟩, rfl⟩

/-- No combination of different items comes twice. -/
theorem nodup_combinations :
    ∀ {n : Nat} {xs : List α}, xs.Nodup → (combinations n xs).Nodup
  | 0, xs, _ => by
    rw [combinations]
    exact List.nodup_singleton []
  | _ + 1, [], _ => by
    rw [combinations]
    exact .nil
  | n + 1, x :: xs, h => by
    obtain ⟨hx, hxs⟩ := List.nodup_cons.1 h
    rw [combinations]
    refine List.Nodup.append ?_ (nodup_combinations hxs) ?_
    · exact (nodup_combinations hxs).map (fun _ _ heq => (List.cons.inj heq).2)
    · -- Those that hold the first item differ from those that do not.
      intro ys hwith hwithout
      obtain ⟨zs, -, rfl⟩ := List.mem_map.1 hwith
      exact hx ((mem_combinations.1 hwithout).1.subset List.mem_cons_self)

end

/-! ## Answers that fit -/

/-- The first scalar that has come up before is none if all are different and new. -/
theorem Scalar.firstRepeated?_eq_none :
    ∀ {xs seen : List Scalar}, firstRepeated? seen xs = none ↔ xs.Nodup ∧ ∀ x ∈ xs, x ∉ seen
  | [], seen => by simp [firstRepeated?]
  | x :: xs, seen => by
    rw [firstRepeated?, List.nodup_cons]
    by_cases hx : x ∈ seen
    · rw [if_pos (List.contains_iff_mem.2 hx)]
      constructor
      · intro h
        cases h
      · intro h
        exact absurd hx (h.2 x List.mem_cons_self)
    · rw [if_neg (fun h => hx (List.contains_iff_mem.1 h)), firstRepeated?_eq_none]
      constructor
      · rintro ⟨hnodup, hnew⟩
        refine ⟨⟨fun hmem => hnew x hmem List.mem_cons_self, hnodup⟩, ?_⟩
        intro y hy hseen
        rcases List.mem_cons.1 hy with rfl | hy
        · exact hx hseen
        · exact hnew y hy (List.mem_cons_of_mem x hseen)
      · rintro ⟨⟨hmem, hnodup⟩, hnew⟩
        refine ⟨hnodup, fun y hy hseen => ?_⟩
        rcases List.mem_cons.1 hseen with rfl | hseen
        · exact hmem hy
        · exact hnew y (List.mem_cons_of_mem x hy) hseen

namespace Decision

/-- A scalar is the identity of one of the options. -/
def Offers (d : Decision) (x : Scalar) : Prop := ∃ option ∈ d.domain, option.identity? = some x

/-- An answer fits a decision: it is one of the options, or it is an array of options, as many as
are asked for and all different. -/
def Fits (d : Decision) : Selection → Prop
  | .one x => d.kind = .chooseOne ∧ d.Offers x
  | .many xs =>
    d.kind = .chooseN ∧ xs.Nodup ∧ d.min ≤ xs.length ∧ xs.length ≤ d.max ∧ ∀ x ∈ xs, d.Offers x

instance (d : Decision) (x : Scalar) : Decidable (d.Offers x) :=
  inferInstanceAs (Decidable (∃ option ∈ d.domain, option.identity? = some x))

instance (d : Decision) : DecidablePred d.Fits
  | .one x => inferInstanceAs (Decidable (d.kind = .chooseOne ∧ d.Offers x))
  | .many xs => inferInstanceAs (Decidable (d.kind = .chooseN ∧ xs.Nodup ∧ d.min ≤ xs.length ∧
      xs.length ≤ d.max ∧ ∀ x ∈ xs, d.Offers x))

variable {d : Decision}

/-- A scalar is the same as an option if it is the identity of one. -/
theorem Clear.offers_iff (h : d.Clear) (x : Scalar) :
    (∃ option ∈ d.domain, option.same (.scalar x)) ↔ d.Offers x := by
  have hsame {option : Value} (hoption : option ∈ d.domain) :
      option.same (.scalar x) ↔ option.identity? = some x := by
    obtain ⟨y, hy⟩ := Option.isSome_iff_exists.1 (h.identified option hoption)
    rw [Value.same, hy]
    simp [Value.identity?]
  constructor
  · rintro ⟨option, hoption, hx⟩
    exact ⟨option, hoption, (hsame hoption).1 hx⟩
  · rintro ⟨option, hoption, hx⟩
    exact ⟨option, hoption, (hsame hoption).2 hx⟩

/-- A selection of several is without fault exactly if nothing repeats, the number is right and all
of it is in the domain. -/
theorem choiceFault?_eq_none {name : String} {domain : List Value} {min max : Nat}
    {xs : List Scalar} :
    Site.choiceFault? name domain min max xs = none ↔
      xs.Nodup ∧ min ≤ xs.length ∧ xs.length ≤ max ∧
        ∀ x ∈ xs, ∃ option ∈ domain, option.same (.scalar x) := by
  have hrepeated : Scalar.firstRepeated? [] xs = none ↔ xs.Nodup := by
    simp [Scalar.firstRepeated?_eq_none]
  unfold Site.choiceFault?
  cases hfirst : Scalar.firstRepeated? [] xs with
  | some x =>
    rw [hfirst] at hrepeated
    simp [← hrepeated]
  | none =>
    have hnodup := hrepeated.1 hfirst
    by_cases hlength : xs.length < min ∨ max < xs.length
    · simp only [if_pos hlength]
      constructor
      · intro h
        cases h
      · intro h
        omega
    · simp only [if_neg hlength, Option.map_eq_none_iff, List.find?_eq_none]
      simp only [Bool.not_eq_true', Bool.not_eq_false, List.any_eq_true]
      constructor
      · intro h
        exact ⟨hnodup, by omega, by omega, h⟩
      · intro h
        exact h.2.2.2

/-- An array answers no question for one option. -/
theorem not_takes_array {d : Decision} (h : d.Clear) (hkind : d.kind = .chooseOne)
    (xs : List Scalar) : ¬ d.Takes (.array xs) := by
  unfold Takes
  rw [hkind]
  rintro ⟨option, hoption, hsame⟩
  obtain ⟨x, hx⟩ := Option.isSome_iff_exists.1 (h.identified option hoption)
  rw [Value.same, hx] at hsame
  cases option with
  | array ys => cases hx
  | scalar y => simp [Value.identity?] at hsame
  | token id => simp [Value.identity?] at hsame

/-- A clear decision takes the answers that fit. -/
theorem Clear.takes_iff (h : d.Clear) (v : Selection) : d.Takes (.ofSelection v) ↔ d.Fits v := by
  cases hkind : d.kind with
  | chooseOne =>
    cases v with
    | one x =>
      have htakes : d.Takes (.ofSelection (.one x)) ↔
          ∃ option ∈ d.domain, option.same (.scalar x) := by
        unfold Takes
        rw [hkind]
        rfl
      rw [htakes, h.offers_iff, Fits]
      simp [hkind]
    | many xs =>
      have hnot := not_takes_array h hkind xs
      simp only [Fits, hkind, reduceCtorEq, false_and, iff_false]
      exact hnot
  | chooseN =>
    cases v with
    | one x =>
      simp [Takes, Fits, hkind, Value.ofSelection]
    | many xs =>
      have htakes : d.Takes (.ofSelection (.many xs)) ↔
          Site.choiceFault? d.name d.domain d.min d.max xs = none := by
        unfold Takes
        rw [hkind]
        simp [Value.ofSelection]
      rw [htakes, choiceFault?_eq_none, Fits]
      simp only [hkind, true_and, h.offers_iff]

end Decision

/-! ## Choices -/

namespace Decision

/-- The choices for a clear decision are all different. -/
theorem nodup_choices {d : Decision} (h : d.Clear) : d.choices.Nodup := by
  unfold choices
  dsimp only
  cases d.kind with
  | chooseOne => exact h.nodup.map (fun _ _ heq => Selection.one.inj heq)
  | chooseN =>
    refine List.Nodup.map (fun _ _ heq => Selection.many.inj heq) ?_
    refine List.nodup_flatMap.2 ⟨fun n _ => nodup_combinations h.nodup, ?_⟩
    have hsizes (least number : Nat) : ((List.range number).map (least + ·)).Nodup :=
      List.nodup_range.map (fun _ _ heq => Nat.add_left_cancel heq)
    refine (hsizes _ _).imp (fun {m n} hne ys hm hn => hne ?_)
    -- Combinations of different sizes differ in length.
    exact (mem_combinations.1 hm).2.symm.trans (mem_combinations.1 hn).2

/-- A selection that answers a decision is among the choices, if it keeps the order of the
domain. -/
theorem mem_choices {d : Decision} (h : d.Clear) {x : Selection}
    (htakes : d.Takes (.ofSelection x))
    (hordered : ∀ xs, x = .many xs → xs.Sublist (d.domain.filterMap Value.identity?)) :
    x ∈ d.choices := by
  cases hkind : d.kind with
  | chooseOne =>
    cases x with
    | many xs => exact absurd htakes (not_takes_array h hkind xs)
    | one x =>
      unfold Takes at htakes
      rw [hkind] at htakes
      obtain ⟨option, hoption, hsame⟩ := htakes
      obtain ⟨y, hy⟩ := Option.isSome_iff_exists.1 (h.identified option hoption)
      rw [Value.same, hy] at hsame
      have hyx : y = x := by simpa [Value.ofSelection, Value.identity?] using hsame
      simp only [choices, hkind]
      exact List.mem_map.2 ⟨x, List.mem_filterMap.2 ⟨option, hoption, hyx ▸ hy⟩, rfl⟩
  | chooseN =>
    unfold Takes at htakes
    rw [hkind] at htakes
    obtain ⟨xs, hxs, hfits⟩ := htakes
    obtain rfl : x = .many xs := Value.ofSelection_injective hxs
    have hsublist := hordered xs rfl
    obtain ⟨-, hleast, hmost, -⟩ := choiceFault?_eq_none.1 hfits
    have hlength := hsublist.length_le
    simp only [choices, hkind]
    refine List.mem_map.2 ⟨xs, List.mem_flatMap.2 ⟨xs.length, ?_, ?_⟩, rfl⟩
    · refine List.mem_map.2 ⟨xs.length - d.min, List.mem_range.2 ?_, ?_⟩
      · omega
      · omega
    · exact mem_combinations.2 ⟨hsublist, rfl⟩

end Decision

end Tabletop
