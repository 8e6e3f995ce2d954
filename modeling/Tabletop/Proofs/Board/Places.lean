import Tabletop.Proofs.Board.Whereabouts

/-!
# How many tokens of an id a zone holds

What the changes of a store do to the number of tokens of an id in each zone, and to all tokens
taken together.  Nothing is assumed about ids here: as long as no token has been found by its id,
there may be several tokens of one.

Main statements: `Store.count_moveBlock` and `Store.exists_split_of_modify`.
-/

namespace Tabletop

/-- Numbers of tokens in the zones that make one token at most. -/
structure Lone (f : ZoneId → Nat) : Prop where
  once (zone : ZoneId) : f zone ≤ 1
  zone_eq {zone other : ZoneId} (hzone : f zone ≠ 0) (hother : f other ≠ 0) : other = zone

namespace Lone

variable {f g : ZoneId → Nat}

/-- Fewer tokens than one are one at most. -/
theorem mono (h : Lone f) (hle : ∀ zone, g zone ≤ f zone) : Lone g where
  once zone := (hle zone).trans (h.once zone)
  zone_eq {zone other} hz ho :=
    h.zone_eq (fun hzero => hz (Nat.le_zero.1 (hzero ▸ hle zone)))
      (fun hzero => ho (Nat.le_zero.1 (hzero ▸ hle other)))

/-- A token in a single zone. -/
theorem of_ite (zone : ZoneId) (h : ∀ other, f other = if other = zone then 1 else 0) : Lone f where
  once other := by
    rw [h]
    split <;> omega
  zone_eq {zone' other} hz ho := by
    have hz' : zone' = zone := of_not_not fun hne => hz ((h zone').trans (if_neg hne))
    have ho' : other = zone := of_not_not fun hne => ho ((h other).trans (if_neg hne))
    rw [hz', ho']

end Lone

namespace Store

variable {s s' : Store} {zone other : ZoneId} {id : TokenId} {t : Token} {tokens : List Token}

/-- The number of tokens of an id in a zone. -/
def count (s : Store) (id : TokenId) (zone : ZoneId) : Nat := (s.ids zone).count id

/-! ## Counts -/

/-- A zone whose tokens are replaced holds as many tokens of an id as it is given. -/
theorem count_replace_self (s : Store) (zone : ZoneId) (tokens : List Token) (id : TokenId) :
    (s.replace zone tokens).count id zone = (tokens.map (·.id)).count id := by
  rw [count, ids_replace_self]

/-- Replacing the tokens of one zone leaves the numbers of tokens in the others. -/
theorem count_replace_ne (s : Store) (tokens : List Token) (id : TokenId) (h : other ≠ zone) :
    (s.replace zone tokens).count id other = s.count id other := by
  rw [count, ids_replace_ne s tokens h, count]

/-- The number of tokens of an id in a zone is read off its list of tokens. -/
theorem count_of_tokens? (h : s.tokens? zone = some tokens) (id : TokenId) :
    s.count id zone = (tokens.map (·.id)).count id := by
  rw [count, ids_of_tokens? h]

/-- One token more in front counts for its own id only. -/
theorem count_cons_id (id other : TokenId) (ids : List TokenId) :
    (other :: ids).count id = ids.count id + if id = other then 1 else 0 := by
  by_cases h : id = other
  · rw [h, List.count_cons_self, if_pos rfl]
  · rw [List.count_cons_of_ne (Ne.symm h), if_neg h, Nat.add_zero]

/-- A token that is put into a zone counts there. -/
theorem count_insert? {place : Placement} (h : s.insert? zone t place = some s') (id : TokenId)
    (other : ZoneId) :
    s'.count id other = s.count id other + if id = t.id ∧ other = zone then 1 else 0 := by
  obtain ⟨tokens, htokens, rfl⟩ := Option.map_eq_some_iff.1 h
  by_cases hz : other = zone
  · subst hz
    rw [count_replace_self, ((place.put_perm t tokens).map (·.id)).count_eq, List.map_cons,
      count_cons_id, count_of_tokens? htokens]
    simp
  · rw [count_replace_ne s _ id hz]
    simp [hz]

/-- A token that is taken out of a zone counts there no longer. -/
theorem count_remove? {index : Nat} (h : s.remove? zone index = some (t, s')) (id : TokenId)
    (other : ZoneId) :
    s.count id other = s'.count id other + if id = t.id ∧ other = zone then 1 else 0 := by
  obtain ⟨tokens, htokens, htoken, rfl⟩ := remove?_eq_some h
  by_cases hz : other = zone
  · subst hz
    rw [count_replace_self, count_of_tokens? htokens, ((eraseIdx_perm htoken).map (·.id)).count_eq,
      List.map_cons, count_cons_id]
    simp
  · rw [count_replace_ne s _ id hz]
    simp [hz]

/-- Where no two tokens have the same id, a search by id finds the token that has it. -/
theorem find?_id_of_nodup (h : (tokens.map (·.id)).Nodup) (ht : t ∈ tokens) :
    tokens.find? (·.id == t.id) = some t := by
  induction tokens with
  | nil => cases ht
  | cons first rest ih =>
    rw [List.map_cons, List.nodup_cons] at h
    rcases List.mem_cons.1 ht with rfl | hrest
    · exact List.find?_cons_of_pos (beq_self_eq_true _)
    · have hne : first.id ≠ t.id := fun hid => h.1 (hid ▸ List.mem_map_of_mem hrest)
      rw [List.find?_cons_of_neg (by simpa using hne)]
      exact ih h.2 hrest

/-- Where no two tokens have the same id, a token is found by its id. -/
theorem Distinct.token?_eq (h : s.Distinct) (ht : t ∈ s.allTokens) : s.token? t.id = some t :=
  find?_id_of_nodup h ht

/-- A token that is found by an id has it. -/
theorem token?_id (h : s.token? id = some t) : t ∈ s.allTokens ∧ t.id = id :=
  ⟨List.mem_of_find?_eq_some h, by simpa using List.find?_some (p := fun t : Token => t.id == id) h⟩

/-- There are as many places of an id as there are tokens. -/
theorem length_places (s : Store) (id : TokenId) :
    (s.places id).length = (s.allTokens.map (·.id)).count id := by
  unfold places allTokens Dict.values
  induction s.zones.entries with
  | nil => rfl
  | cons e rest ih =>
    have hzone : (e.2.zipIdx.filter (fun t => t.1.id == id)).length =
        (e.2.map (·.id)).count id := by
      rw [← List.countP_eq_length_filter, List.count, List.countP_map]
      conv_rhs => rw [← List.zipIdx_map_fst 0 e.2, List.countP_map]
      rfl
    rw [List.flatMap_cons, List.length_append, List.length_map, hzone, ih, List.map_cons,
      List.flatten_cons, List.map_append, List.count_append]

/-- A token that has been found is the only one of its id. -/
theorem count_of_locate {index : Nat} (h : s.locate id = .found zone index) :
    (s.allTokens.map (·.id)).count id = 1 := by
  unfold locate at h
  split at h
  · cases h
  · rename_i heq
    rw [← length_places, heq]
    rfl
  · cases h

/-- The change goes to the first token of the id, which is the one that a search finds, and the
tokens around it stay. -/
theorem exists_split_of_modifyFirst (h : tokens.find? (·.id == id) = some t) (f : Token → Token) :
    ∃ pre post, tokens = pre ++ t :: post ∧ modifyFirst id f tokens = pre ++ f t :: post := by
  induction tokens with
  | nil => cases h
  | cons first rest ih =>
    rw [List.find?_cons] at h
    unfold modifyFirst
    split at h
    · rename_i hid
      cases h
      rw [if_pos hid]
      exact ⟨[], rest, rfl, rfl⟩
    · rename_i hid
      obtain ⟨pre, post, hsplit, hmodified⟩ := ih h
      rw [if_neg (Bool.not_eq_true _ ▸ hid), hmodified, hsplit]
      exact ⟨first :: pre, post, rfl, rfl⟩

/-- A change of a token is a change of the first one of its id. -/
theorem exists_split_of_modify (h : s.token? id = some t) (f : Token → Token) :
    ∃ pre post, s.allTokens = pre ++ t :: post ∧
      (s.modify id f).allTokens = pre ++ f t :: post := by
  have hany : ∃ e ∈ s.zones.entries, e.2.any (·.id == id) = true := by
    obtain ⟨zone, tokens, htokens, ht⟩ := mem_allTokens.1 (List.mem_of_find?_eq_some h)
    have hid : (t.id == id) = true := List.find?_some (p := fun t : Token => t.id == id) h
    exact ⟨_, Dict.mem_entries_iff.2 htokens, List.any_eq_true.2 ⟨t, ht, hid⟩⟩
  obtain ⟨⟨zone, tokens⟩, hfound⟩ := Option.isSome_iff_exists.1 (List.find?_isSome.2 hany)
  have htokens : s.tokens? zone = some tokens :=
    Dict.mem_entries_iff.1 (List.mem_of_find?_eq_some hfound)
  have hfirst : tokens.find? (·.id == id) = some t :=
    (find?_flatten_of_find?_any hfound).symm.trans h
  obtain ⟨pre, post, hsplit, hmodified⟩ := exists_split_of_modifyFirst hfirst f
  obtain ⟨before, after, hall, hreplace⟩ := allTokens_split htokens
  refine ⟨before ++ pre, post ++ after, ?_, ?_⟩
  · rw [hall, hsplit]
    simp
  · unfold modify
    rw [hfound]
    dsimp only
    rw [hreplace, hmodified]
    simp

end Store

end Tabletop
