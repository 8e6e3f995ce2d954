import Tabletop.Proofs.Board.Store

/-!
# Numbered tokens

The id of a token is made of its type and of the number under which it was created.  As long as the
numbers do not run out, no number is given twice, so all tokens on the table differ in their numbers
and all the more in their ids.

Main statement: `Numbered.add`.
-/

namespace Tabletop

/-! ## Numerals -/

/-- A number can be read back from its digits. -/
theorem eq_of_toDigits_eq {m n : Nat} (h : Nat.toDigits 10 m = Nat.toDigits 10 n) : m = n := by
  have hvalues := congrArg (fun ds => Nat.ofDigitChars 10 ds 0) h
  rwa [Nat.ofDigitChars_ten_toDigits, Nat.ofDigitChars_ten_toDigits] at hvalues

namespace TokenId

/-- The numeral of a token id, backwards: what stands after the last `#`. -/
def numeral (id : TokenId) : List Char := id.toList.reverse.takeWhile (fun c => c ≠ '#')

/-- The numeral of a numbered id is made of the decimal digits of its number, the last one first. -/
theorem numeral_ofOrdinal (type : String) (k : UInt64) :
    numeral (ofOrdinal type k) = (Nat.toDigits 10 k.toNat).reverse := by
  have hdigits : ∀ c ∈ (Nat.toDigits 10 k.toNat).reverse, decide (c ≠ '#') = true := by
    intro c hc
    have hdigit := Nat.isDigit_of_mem_toDigits (by omega) (by omega) (List.mem_reverse.1 hc)
    refine decide_eq_true ?_
    rintro rfl
    exact absurd hdigit (by decide)
  have hsplit : (ofOrdinal type k).toList.reverse =
      (Nat.toDigits 10 k.toNat).reverse ++ '#' :: type.toList.reverse := by
    simp [ofOrdinal, Nat.toList_repr]
  rw [numeral, hsplit, List.takeWhile_append_of_pos hdigits]
  simp

/-- Tokens with one numeral have one number. -/
theorem ordinal_eq_of_numeral_eq {type type' : String} {k l : UInt64}
    (h : numeral (ofOrdinal type k) = numeral (ofOrdinal type' l)) : k = l := by
  rw [numeral_ofOrdinal, numeral_ofOrdinal] at h
  exact UInt64.toNat_inj.1 (eq_of_toDigits_eq (List.reverse_injective h))

/-! ## Series -/

/-- The ids and types of tokens that are created one after the other, the first under a number. -/
def series : UInt64 → List String → List (TokenId × String)
  | _, [] => []
  | k, type :: types => (ofOrdinal type k, type) :: series (k + 1) types

/-- As many ids are handed out as tokens are created. -/
@[simp] theorem length_series (k : UInt64) (types : List String) :
    (series k types).length = types.length := by
  induction types generalizing k with
  | nil => rfl
  | cons type types ih => rw [series, List.length_cons, ih, List.length_cons]

/-- Numbers that stay within 64 bits add up as natural numbers. -/
theorem toNat_add_ofNat {k : UInt64} {n : Nat} (h : k.toNat + n < UInt64.size) :
    (k + UInt64.ofNat n).toNat = k.toNat + n := by
  rw [UInt64.toNat_add, UInt64.toNat_ofNat_of_lt' (by omega), Nat.mod_eq_of_lt h]

/-- Numbering goes on from the next number as it would have gone on from this one. -/
theorem succ_add_ofNat (k : UInt64) (n : Nat) :
    k + 1 + UInt64.ofNat n = k + UInt64.ofNat (n + 1) := by
  rw [UInt64.ofNat_add, UInt64.add_comm (UInt64.ofNat n), UInt64.add_assoc]
  rfl

/-- Tokens created in two runs are numbered as if they had been created in one. -/
theorem series_append (types types' : List String) (k : UInt64) :
    series k (types ++ types') = series k types ++
      series (k + UInt64.ofNat types.length) types' := by
  induction types generalizing k with
  | nil => simp [series]
  | cons type types ih =>
    rw [List.cons_append, series, series, ih, List.cons_append, List.length_cons, succ_add_ofNat]

/-- A token of a series has one of its numbers. -/
theorem exists_number_of_mem_series {k : UInt64} {types : List String} {e : TokenId × String}
    (h : e ∈ series k types) :
    ∃ i < types.length, e.1 = ofOrdinal e.2 (k + UInt64.ofNat i) := by
  induction types generalizing k with
  | nil => cases h
  | cons type types ih =>
    rw [series] at h
    rcases List.mem_cons.1 h with rfl | h
    · exact ⟨0, Nat.succ_pos _, by simp⟩
    · obtain ⟨i, hi, he⟩ := ih h
      rw [succ_add_ofNat] at he
      exact ⟨i + 1, Nat.succ_lt_succ hi, he⟩

/-- The tokens of a series differ in their numerals, if the numbers suffice. -/
theorem nodup_numerals_series {k : UInt64} {types : List String}
    (h : k.toNat + types.length < UInt64.size) :
    ((series k types).map (fun e => numeral e.1)).Nodup := by
  induction types generalizing k with
  | nil => exact .nil
  | cons type types ih =>
    rw [List.length_cons] at h
    have hsucc : (k + 1).toNat = k.toNat + 1 := toNat_add_ofNat (n := 1) (by omega)
    rw [series, List.map_cons, List.nodup_cons]
    refine ⟨?_, ih (by omega)⟩
    intro hmem
    obtain ⟨e, he, hnumeral⟩ := List.mem_map.1 hmem
    obtain ⟨i, hi, hid⟩ := exists_number_of_mem_series he
    rw [hid] at hnumeral
    have hnumber := congrArg UInt64.toNat (ordinal_eq_of_numeral_eq hnumeral)
    rw [toNat_add_ofNat (by omega), hsucc] at hnumber
    omega

end TokenId

/-! ## Tokens on the table -/

/-- All tokens have been created under numbers below the next one, no two under the same. -/
structure Numbered (kinds : Multiset (TokenId × String)) (next : UInt64) : Prop where
  number : ∀ e ∈ kinds, ∃ k < next, e.1 = .ofOrdinal e.2 k
  distinct : (kinds.map (fun e => e.1.numeral)).Nodup

namespace Numbered

open TokenId

variable {kinds : Multiset (TokenId × String)} {next : UInt64}

/-- Without tokens any number may be the next one. -/
theorem zero : Numbered 0 next := ⟨by simp, by simp⟩

/-- Fewer tokens are numbered too. -/
theorem mono (h : Numbered kinds next) {fewer : Multiset (TokenId × String)} (hle : fewer ≤ kinds) :
    Numbered fewer next where
  number e he := h.number e (Multiset.mem_of_le hle he)
  distinct := Multiset.nodup_of_le (Multiset.map_le_map hle) h.distinct

/-- Tokens that are created under the next numbers join those on the table. -/
theorem add (h : Numbered kinds next) {types : List String}
    (hroom : next.toNat + types.length < UInt64.size) :
    Numbered (kinds + series next types) (next + UInt64.ofNat types.length) := by
  have hnext := toNat_add_ofNat hroom
  constructor
  · intro e he
    rcases Multiset.mem_add.1 he with he | he
    · obtain ⟨k, hk, hid⟩ := h.number e he
      refine ⟨k, ?_, hid⟩
      rw [UInt64.lt_iff_toNat_lt] at hk ⊢
      omega
    · obtain ⟨i, hi, hid⟩ := exists_number_of_mem_series (Multiset.mem_coe.1 he)
      refine ⟨next + UInt64.ofNat i, ?_, hid⟩
      rw [UInt64.lt_iff_toNat_lt, toNat_add_ofNat (by omega)]
      omega
  · rw [Multiset.map_add, Multiset.nodup_add]
    refine ⟨h.distinct, ?_, ?_⟩
    · rw [Multiset.map_coe, Multiset.coe_nodup]
      exact nodup_numerals_series hroom
    · -- A number on the table is below the numbers of the series.
      rw [Multiset.disjoint_left]
      intro numeral hold hnew
      obtain ⟨e, he, rfl⟩ := Multiset.mem_map.1 hold
      obtain ⟨e', he', hsame⟩ := Multiset.mem_map.1 hnew
      obtain ⟨k, hk, hid⟩ := h.number e he
      obtain ⟨i, hi, hid'⟩ := exists_number_of_mem_series (Multiset.mem_coe.1 he')
      rw [hid, hid'] at hsame
      have hnumber := congrArg UInt64.toNat (ordinal_eq_of_numeral_eq hsame)
      rw [toNat_add_ofNat (by omega)] at hnumber
      rw [UInt64.lt_iff_toNat_lt] at hk
      omega

/-! ### The tokens of a store -/

variable {s : Store}

/-- The token that has an id has it under one of the numbers that have been given. -/
theorem exists_number (h : Numbered s.kinds next) :
    ∀ t ∈ s.allTokens, ∃ k < next, t.id = .ofOrdinal t.type k :=
  fun t ht => h.number t.kind (Multiset.mem_coe.2 (List.mem_map_of_mem ht))

/-- Numbered tokens differ in their numerals. -/
theorem pairwise_numeral_ne (h : Numbered s.kinds next) :
    s.allTokens.Pairwise (fun t t' => t.id.numeral ≠ t'.id.numeral) := by
  have hnodup := h.distinct
  rw [Store.kinds, Multiset.map_coe, Multiset.coe_nodup, List.map_map] at hnodup
  exact List.pairwise_map.1 hnodup

/-- Numbered tokens differ in their ids. -/
theorem nodup_ids (h : Numbered s.kinds next) : (s.allTokens.map (·.id)).Nodup := by
  refine List.pairwise_map.2 (h.pairwise_numeral_ne.imp ?_)
  intro t t' hne hid
  exact hne (congrArg numeral hid)

/-- Numbered tokens differ in their numbers. -/
theorem pairwise_number_ne (h : Numbered s.kinds next) :
    s.allTokens.Pairwise (fun t t' => ∀ k k', t.id = .ofOrdinal t.type k →
      t'.id = .ofOrdinal t'.type k' → k ≠ k') := by
  refine h.pairwise_numeral_ne.imp ?_
  rintro t t' hne k _ hid hid' rfl
  apply hne
  rw [hid, hid', numeral_ofOrdinal, numeral_ofOrdinal]

end Numbered

end Tabletop
