import Tabletop.Definition.Layout
import Tabletop.Proofs.Board.Store

/-!
# What dictionaries and stores hold

Which entries a dictionary has when it is made from a list, which keys it has when a value is
replaced, and which tokens are on the table when the tokens of a zone are.

Main statements: `Dict.get?_ofList` and `Dict.keys_insert`; `Store.mem_allTokens_replace` and
`Store.mem_allTokens_modify`; `Store.frame_relocate` and its fellows for the other changes.
-/

namespace Tabletop

universe u

/-! ## Dictionaries -/

namespace Dict

variable {α : Type u} {d : Dict α} {k : String} {x : α}

/-- Entries that are inserted one after the other: the last one of a key counts. -/
theorem mem_of_get?_foldl_insert {l : List (String × α)}
    (h : (l.foldl (fun d e => d.insert e.1 e.2) d).get? k = some x) :
    (k, x) ∈ l ∨ (∀ e ∈ l, e.1 ≠ k) ∧ d.get? k = some x := by
  induction l generalizing d with
  | nil => exact .inr ⟨nofun, h⟩
  | cons e l ih =>
    rcases ih h with hmem | ⟨hnone, hinsert⟩
    · exact .inl (List.mem_cons_of_mem _ hmem)
    · by_cases hk : k = e.1
      · subst hk
        rw [get?_insert_self] at hinsert
        cases hinsert
        exact .inl List.mem_cons_self
      · rw [get?_insert_ne d e.2 hk] at hinsert
        refine .inr ⟨fun e' he' => ?_, hinsert⟩
        rcases List.mem_cons.1 he' with rfl | he'
        · exact Ne.symm hk
        · exact hnone e' he'

/-- A value in the dictionary of a list is in the list. -/
theorem mem_of_get?_ofList {l : List (String × α)} (h : (ofList l).get? k = some x) :
    (k, x) ∈ l := by
  rcases mem_of_get?_foldl_insert h with hmem | ⟨-, hnone⟩
  · exact hmem
  · cases hnone

/-- A key that is among the inserted entries, or was there before, is there after all insertions. -/
theorem contains_foldl_insert {l : List (String × α)}
    (h : (∃ e ∈ l, e.1 = k) ∨ d.contains k = true) :
    (l.foldl (fun d e => d.insert e.1 e.2) d).contains k = true := by
  induction l generalizing d with
  | nil =>
    rcases h with ⟨e, he, -⟩ | h
    · cases he
    · exact h
  | cons e l ih =>
    refine ih ?_
    by_cases hk : k = e.1
    · right
      rw [contains, hk, get?_insert_self]
      rfl
    · rcases h with ⟨e', he', hkey⟩ | h
      · rcases List.mem_cons.1 he' with rfl | he'
        · exact absurd hkey.symm hk
        · exact .inl ⟨e', he', hkey⟩
      · right
        rw [contains, get?_insert_ne d e.2 hk]
        exact h

/-- Where no key repeats, the dictionary of a list has the values of the list. -/
theorem get?_ofList {l : List (String × α)} (hkeys : (l.map (·.1)).Nodup) :
    (ofList l).get? k = some x ↔ (k, x) ∈ l := by
  refine ⟨mem_of_get?_ofList, fun hmem => ?_⟩
  have hcontains : (ofList l).contains k = true := contains_foldl_insert (.inl ⟨_, hmem, rfl⟩)
  obtain ⟨y, hy⟩ := Option.isSome_iff_exists.1 hcontains
  have hsame := List.inj_on_of_nodup_map hkeys (mem_of_get?_ofList hy) hmem rfl
  rw [hy, (Prod.mk.inj hsame).2]

/-- The keys are those that have a value. -/
theorem mem_keys_iff : k ∈ d.keys ↔ d.contains k = true := by
  constructor
  · intro h
    obtain ⟨⟨k', y⟩, hmem, rfl⟩ := List.mem_map.1 h
    rw [contains, mem_entries_iff.1 hmem]
    rfl
  · intro h
    obtain ⟨y, hy⟩ := Option.isSome_iff_exists.1 h
    exact List.mem_map.2 ⟨_, mem_entries_iff.2 hy, rfl⟩

/-- A new value at a key that is there leaves the keys as they are. -/
theorem keys_insert (h : k ∈ d.keys) (x : α) : (d.insert k x).keys = d.keys := by
  obtain ⟨y, hy⟩ := Option.isSome_iff_exists.1 (mem_keys_iff.1 h)
  obtain ⟨pre, post, hsplit, hinsert⟩ := insert_split hy
  rw [keys, keys, hsplit, hinsert x, List.map_append, List.map_append]
  rfl

end Dict

/-! ## Stores -/

namespace Store

variable {s s' : Store} {zone other : ZoneId} {id : TokenId} {t : Token} {tokens : List Token}

/-- The tokens on the table are those that some zone holds. -/
theorem mem_allTokens :
    t ∈ s.allTokens ↔ ∃ zone tokens, s.tokens? zone = some tokens ∧ t ∈ tokens := by
  unfold allTokens Dict.values
  constructor
  · intro h
    obtain ⟨tokens, htokens, ht⟩ := List.mem_flatten.1 h
    obtain ⟨⟨zone, tokens'⟩, hentry, rfl⟩ := List.mem_map.1 htokens
    exact ⟨zone, tokens', Dict.mem_entries_iff.1 hentry, ht⟩
  · rintro ⟨zone, tokens, htokens, ht⟩
    exact List.mem_flatten.2 ⟨tokens, List.mem_map.2 ⟨_, Dict.mem_entries_iff.2 htokens, rfl⟩, ht⟩

/-- A token of a zone is on the table. -/
theorem mem_allTokens_of_mem_tokens (h : t ∈ s.tokens zone) : t ∈ s.allTokens := by
  have hzone := tokens?_of_ne_nil (List.ne_nil_of_mem h)
  exact mem_allTokens.2 ⟨zone, _, hzone, h⟩

/-- Replacing the tokens of a zone brings no others on the table. -/
theorem mem_allTokens_replace (h : t ∈ (s.replace zone tokens).allTokens) :
    t ∈ tokens ∨ t ∈ s.allTokens := by
  obtain ⟨other, tokens', htokens, ht⟩ := mem_allTokens.1 h
  by_cases hz : other = zone
  · rw [hz, tokens?_replace_self] at htokens
    cases htokens
    exact .inl ht
  · rw [tokens?_replace_ne s tokens hz] at htokens
    exact .inr (mem_allTokens.2 ⟨other, tokens', htokens, ht⟩)

/-- Replacing the tokens of a zone that is there makes no zone come or go. -/
theorem hasZone_replace_eq (h : s.hasZone zone = true) (tokens : List Token) (other : ZoneId) :
    (s.replace zone tokens).hasZone other = s.hasZone other := by
  change ((s.replace zone tokens).tokens? other).isSome = _
  by_cases hz : other = zone
  · rw [hz, tokens?_replace_self, h]
    rfl
  · rw [tokens?_replace_ne s tokens hz]
    rfl

/-- A zone that holds a list of tokens, be it empty, is there. -/
theorem hasZone_of_tokens? (h : s.tokens? zone = some tokens) : s.hasZone zone = true := by
  change (s.tokens? zone).isSome = true
  rw [h]
  rfl

/-- Adding a zone adds that zone and no other. -/
theorem hasZone_addZone_iff : (s.addZone zone).hasZone other = true ↔
    s.hasZone other = true ∨ zone = other := by
  constructor
  · intro h
    by_cases hz : zone = other
    · exact .inr hz
    · left
      unfold addZone at h
      split at h
      · exact h
      · change ((s.replace zone []).tokens? other).isSome = true at h
        rwa [tokens?_replace_ne s [] (Ne.symm hz)] at h
  · rintro (h | rfl)
    · exact s.hasZone_addZone zone h
    · exact s.hasZone_addZone_self zone

/-- Zones that are added come in besides those that are there. -/
theorem hasZone_foldl_addZone_iff {zones : List Zone} :
    (zones.foldl (fun store z => store.addZone z.id) s).hasZone other = true ↔
      s.hasZone other = true ∨ ∃ z ∈ zones, z.id = other := by
  induction zones generalizing s with
  | nil => simp
  | cons z zones ih =>
    rw [List.foldl_cons, ih, hasZone_addZone_iff]
    simp [or_assoc]

/-- A token of a list whose first token of an id has been changed was there before, or is that
changed one. -/
theorem mem_modifyFirst {f : Token → Token} (h : t ∈ modifyFirst id f tokens) :
    t ∈ tokens ∨ ∃ first, tokens.find? (·.id == id) = some first ∧ t = f first := by
  induction tokens with
  | nil => cases h
  | cons first rest ih =>
    unfold modifyFirst at h
    rw [List.find?_cons]
    split at h
    · rename_i hid
      rcases List.mem_cons.1 h with rfl | hrest
      · exact .inr ⟨first, by rw [hid], rfl⟩
      · exact .inl (List.mem_cons_of_mem _ hrest)
    · rename_i hid
      rcases List.mem_cons.1 h with rfl | hrest
      · exact .inl List.mem_cons_self
      · rw [Bool.not_eq_true] at hid
        rw [hid]
        exact (ih hrest).imp_left (List.mem_cons_of_mem _)

/-- The first token of an id stands in the first zone that has one. -/
theorem find?_flatten_of_find?_any {α β : Type} {p : α → Bool} {l : List (β × List α)}
    {e : β × List α}
    (h : l.find? (fun e => e.2.any p) = some e) : (l.map (·.2)).flatten.find? p = e.2.find? p := by
  induction l with
  | nil => cases h
  | cons first rest ih =>
    rw [List.map_cons, List.flatten_cons, List.find?_append]
    rw [List.find?_cons] at h
    split at h
    · rename_i hany
      cases h
      obtain ⟨x, hx, hp⟩ := List.any_eq_true.1 hany
      obtain ⟨y, hy⟩ := Option.isSome_iff_exists.1 (List.find?_isSome.2 ⟨x, hx, hp⟩)
      rw [hy]
      rfl
    · rename_i hany
      have hnone : first.2.find? p = none := List.find?_eq_none.2 (List.any_eq_false.1 hany)
      rw [hnone, ih h]
      rfl

/-- Only the first token of an id is changed. -/
theorem mem_allTokens_modify {f : Token → Token} (h : t ∈ (s.modify id f).allTokens) :
    t ∈ s.allTokens ∨ ∃ first, s.token? id = some first ∧ t = f first := by
  unfold modify at h
  split at h
  · rename_i zone tokens hfound
    have htokens : s.tokens? zone = some tokens :=
      Dict.mem_entries_iff.1 (List.mem_of_find?_eq_some hfound)
    rcases mem_allTokens_replace h with hmem | hmem
    · rcases mem_modifyFirst hmem with hold | ⟨first, hfirst, rfl⟩
      · exact .inl (mem_allTokens.2 ⟨zone, tokens, htokens, hold⟩)
      · exact .inr ⟨first, (find?_flatten_of_find?_any hfound).trans hfirst, rfl⟩
    · exact .inl hmem
  · exact .inl h

/-- Changing a token leaves the zones that are there. -/
theorem hasZone_modify_eq (s : Store) (id : TokenId) (f : Token → Token) (other : ZoneId) :
    (s.modify id f).hasZone other = s.hasZone other := by
  unfold modify
  split
  · rename_i zone tokens hfound
    have htokens : s.tokens? zone = some tokens :=
      Dict.mem_entries_iff.1 (List.mem_of_find?_eq_some hfound)
    exact hasZone_replace_eq (hasZone_of_tokens? htokens) _ _
  · rfl

/-- A token that is taken out leaves the zones and brings no token. -/
theorem frame_remove? {index : Nat} (h : s.remove? zone index = some (t, s')) :
    (∀ other, s'.hasZone other = s.hasZone other) ∧ t ∈ s.allTokens ∧
      ∀ token ∈ s'.allTokens, token ∈ s.allTokens := by
  obtain ⟨tokens, htokens, htoken, rfl⟩ := remove?_eq_some h
  have hmem := allTokens_remove? h
  exact ⟨hasZone_replace_eq (hasZone_of_tokens? htokens) _, hmem.mem_iff.2 List.mem_cons_self,
    fun token htoken => hmem.mem_iff.2 (List.mem_cons_of_mem _ htoken)⟩

/-- A token that is put in leaves the zones and brings no other. -/
theorem frame_insert? {place : Placement} (h : s.insert? zone t place = some s') :
    (∀ other, s'.hasZone other = s.hasZone other) ∧
      ∀ token ∈ s'.allTokens, token = t ∨ token ∈ s.allTokens := by
  obtain ⟨tokens, htokens, rfl⟩ := Option.map_eq_some_iff.1 h
  refine ⟨hasZone_replace_eq (hasZone_of_tokens? htokens) _, fun token htoken => ?_⟩
  exact List.mem_cons.1 ((allTokens_insert? h).mem_iff.1 htoken)

/-- Tokens that are taken from the front leave the zones and bring no token. -/
theorem frame_takeFront {n : Nat} (h : s.takeFront zone n = (tokens, s')) :
    (∀ other, s'.hasZone other = s.hasZone other) ∧ (∀ token ∈ tokens, token ∈ s.allTokens) ∧
      ∀ token ∈ s'.allTokens, token ∈ s.allTokens := by
  unfold takeFront at h
  cases hold : s.tokens? zone with
  | none =>
    rw [hold] at h
    cases h
    exact ⟨fun _ => rfl, nofun, fun _ => id⟩
  | some old =>
    rw [hold] at h
    cases h
    have hmem (token : Token) (h : token ∈ old) : token ∈ s.allTokens :=
      mem_allTokens.2 ⟨zone, old, hold, h⟩
    refine ⟨hasZone_replace_eq (hasZone_of_tokens? hold) _, fun token h => ?_, fun token h => ?_⟩
    · exact hmem token (List.mem_of_mem_take h)
    · rcases mem_allTokens_replace h with h | h
      · exact hmem token (List.mem_of_mem_drop h)
      · exact h

/-- A token that is taken out of one zone and put into another leaves the zones and brings no
token. -/
theorem frame_relocate {s'' : Store} {index : Nat} {place : Placement}
    (htaken : s.remove? zone index = some (t, s')) (hput : s'.insert? other t place = some s'') :
    (∀ z, s''.hasZone z = s.hasZone z) ∧ ∀ token ∈ s''.allTokens, token ∈ s.allTokens := by
  obtain ⟨hzones, htoken, htokens⟩ := frame_remove? htaken
  obtain ⟨hzones', htokens'⟩ := frame_insert? hput
  refine ⟨fun z => (hzones' z).trans (hzones z), fun token hmem => ?_⟩
  rcases htokens' token hmem with rfl | hmem
  · exact htoken
  · exact htokens token hmem

/-- Tokens of a zone in another order leave the zones and bring no token. -/
theorem frame_shuffle (hmany : 1 < (s.tokens zone).length) (hperm : tokens.Perm (s.tokens zone)) :
    (∀ other, (s.replace zone tokens).hasZone other = s.hasZone other) ∧
      ∀ token ∈ (s.replace zone tokens).allTokens, token ∈ s.allTokens := by
  have hnonempty : s.tokens zone ≠ [] := List.ne_nil_of_length_pos (Nat.lt_trans Nat.one_pos hmany)
  refine ⟨hasZone_replace_eq (hasZone_of_tokens? (tokens?_of_ne_nil hnonempty)) _,
    fun token h => ?_⟩
  rcases mem_allTokens_replace h with h | h
  · exact mem_allTokens_of_mem_tokens (hperm.mem_iff.1 h)
  · exact h

/-- A block of tokens that leaves a zone and comes to those of another one leaves the zones and
brings no token. -/
theorem frame_moveBlock {block rest old : List Token} (hblock : block ≠ [])
    (hparts : (s.tokens zone).Perm (block ++ rest)) (hold : s.tokens? other = some old)
    (htokens : ∀ token ∈ tokens, token ∈ old ∨ token ∈ block) :
    (∀ z, ((s.replace zone rest).replace other tokens).hasZone z = s.hasZone z) ∧
      ∀ token ∈ ((s.replace zone rest).replace other tokens).allTokens, token ∈ s.allTokens := by
  have hzones := hasZone_replace_eq (hasZone_of_tokens? (tokens?_of_block hblock hparts)) rest
  have hother := (hzones other).trans (hasZone_of_tokens? hold)
  have hfrom (token : Token) (h : token ∈ block ++ rest) : token ∈ s.allTokens :=
    mem_allTokens_of_mem_tokens (hparts.mem_iff.2 h)
  refine ⟨fun z => (hasZone_replace_eq hother tokens z).trans (hzones z), fun token h => ?_⟩
  rcases mem_allTokens_replace h with h | h
  · rcases htokens token h with h | h
    · exact mem_allTokens.2 ⟨other, old, hold, h⟩
    · exact hfrom token (List.mem_append_left _ h)
  · rcases mem_allTokens_replace h with h | h
    · exact hfrom token (List.mem_append_right _ h)
    · exact h

end Store

end Tabletop
