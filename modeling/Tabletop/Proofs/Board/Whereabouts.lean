import Tabletop.Proofs.Board.Contents
import Tabletop.Proofs.Board.Numbering

/-!
# Where a token is

As long as all tokens differ, a token is in one zone at most, and what a change of a store does to
the whereabouts of tokens can be read off zone by zone: by the ids of the tokens that each zone
holds.

Main statements: `Store.zoneOf?_eq_some_iff` and `Store.zoneOf?_eq_of_ids`.
-/

namespace Tabletop

namespace Store

/-- The zone in which a token is, the first if there are several. -/
def zoneOf? (s : Store) (id : TokenId) : Option ZoneId :=
  (s.zones.entries.find? (fun e => e.2.any (·.id == id))).map (·.1)

/-- The ids of the tokens in a zone. -/
def ids (s : Store) (zone : ZoneId) : List TokenId := (s.tokens zone).map (·.id)

/-- No two tokens have the same id. -/
def Distinct (s : Store) : Prop := (s.allTokens.map (·.id)).Nodup

variable {s s' : Store} {zone other : ZoneId} {id : TokenId} {t : Token} {tokens : List Token}

/-- The ids in a zone are those of the tokens that it holds. -/
theorem ids_of_tokens? (h : s.tokens? zone = some tokens) : s.ids zone = tokens.map (·.id) := by
  rw [ids, tokens_of_tokens? h]

/-- A zone in which a token is said to be holds it. -/
theorem mem_ids_of_zoneOf? (h : s.zoneOf? id = some zone) : id ∈ s.ids zone := by
  obtain ⟨⟨zone, tokens⟩, hfound, rfl⟩ := Option.map_eq_some_iff.1 h
  have htokens : s.tokens? zone = some tokens :=
    Dict.mem_entries_iff.1 (List.mem_of_find?_eq_some hfound)
  have hany := List.find?_some hfound
  obtain ⟨t, ht, hid⟩ := List.any_eq_true.1 hany
  rw [ids_of_tokens? htokens]
  exact List.mem_map.2 ⟨t, ht, by simpa using hid⟩

/-- A token in some zone is said to be in one. -/
theorem exists_zoneOf? (h : id ∈ s.ids zone) : ∃ other, s.zoneOf? id = some other := by
  obtain ⟨t, ht, rfl⟩ := List.mem_map.1 h
  have htokens := tokens?_of_ne_nil (List.ne_nil_of_mem ht)
  have hentry : (zone, s.tokens zone) ∈ s.zones.entries := Dict.mem_entries_iff.2 htokens
  have hany : (s.tokens zone).any (·.id == t.id) = true :=
    List.any_eq_true.2 ⟨t, ht, by simp⟩
  obtain ⟨e, he⟩ := Option.isSome_iff_exists.1
    (List.find?_isSome (p := fun e => e.2.any (·.id == t.id)).2 ⟨_, hentry, hany⟩)
  exact ⟨e.1, by rw [zoneOf?, he]; rfl⟩

/-- Where all tokens differ, no two zones hold the same. -/
theorem zone_unique (hdistinct : s.Distinct) (h : id ∈ s.ids zone) (h' : id ∈ s.ids other) :
    other = zone := by
  by_contra hne
  obtain ⟨t, ht, rfl⟩ := List.mem_map.1 h
  obtain ⟨t', ht', hid⟩ := List.mem_map.1 h'
  have htokens := tokens?_of_ne_nil (List.ne_nil_of_mem ht)
  -- Without the tokens of the zone, the other token is still there.
  have hall := allTokens_replace [] (s.tokens zone) [] htokens (by simp) (.refl _)
  have hleft : t' ∈ (s.replace zone []).allTokens := by
    refine mem_allTokens.2 ⟨other, s.tokens other, ?_, ht'⟩
    rw [tokens?_replace_ne s [] hne]
    exact tokens?_of_ne_nil (List.ne_nil_of_mem ht')
  have hnodup := (hall.map Token.id).nodup_iff.2 hdistinct
  rw [List.map_append, List.nodup_append] at hnodup
  exact hnodup.2.2 _ (List.mem_map_of_mem ht) _ (List.mem_map_of_mem hleft) hid.symm

/-- Where all tokens differ, a token is in the zone that holds it. -/
theorem zoneOf?_eq_some_iff (hdistinct : s.Distinct) :
    s.zoneOf? id = some zone ↔ id ∈ s.ids zone := by
  refine ⟨mem_ids_of_zoneOf?, fun h => ?_⟩
  obtain ⟨other, hother⟩ := exists_zoneOf? h
  rw [hother, zone_unique hdistinct h (mem_ids_of_zoneOf? hother)]

/-- A token is nowhere if no zone holds it. -/
theorem zoneOf?_eq_none_iff : s.zoneOf? id = none ↔ ∀ zone, id ∉ s.ids zone := by
  constructor
  · intro h zone hmem
    obtain ⟨other, hother⟩ := exists_zoneOf? hmem
    rw [h] at hother
    cases hother
  · intro h
    cases hzone : s.zoneOf? id with
    | none => rfl
    | some zone => exact absurd (mem_ids_of_zoneOf? hzone) (h zone)

/-- A token that is not on the table is nowhere. -/
theorem zoneOf?_eq_none (h : ∀ t ∈ s.allTokens, t.id ≠ id) : s.zoneOf? id = none := by
  refine zoneOf?_eq_none_iff.2 fun zone hmem => ?_
  obtain ⟨t, ht, hid⟩ := List.mem_map.1 hmem
  exact h t (mem_allTokens_of_mem_tokens ht) hid

/-- Where all tokens differ, those in a zone do. -/
theorem nodup_ids (hdistinct : s.Distinct) (zone : ZoneId) : (s.ids zone).Nodup := by
  cases htokens : s.tokens? zone with
  | none =>
    rw [ids, Store.tokens, htokens]
    exact List.nodup_nil
  | some tokens =>
    obtain ⟨pre, post, hall, -⟩ := allTokens_split htokens
    rw [Distinct, hall, List.append_assoc] at hdistinct
    rw [ids_of_tokens? htokens]
    have hsublist : tokens.Sublist (pre ++ (tokens ++ post)) :=
      (List.sublist_append_left tokens post).trans (List.sublist_append_right pre _)
    exact (hsublist.map _).nodup hdistinct

/-- A token that every zone holds or not as before is where it was. -/
theorem zoneOf?_eq_of_ids (hdistinct : s.Distinct) (hdistinct' : s'.Distinct)
    (h : ∀ zone, id ∈ s'.ids zone ↔ id ∈ s.ids zone) : s'.zoneOf? id = s.zoneOf? id := by
  refine Option.ext fun zone => ?_
  rw [zoneOf?_eq_some_iff hdistinct, zoneOf?_eq_some_iff hdistinct', h zone]

/-! ## Changes -/

/-- A zone that is given tokens has their ids. -/
theorem ids_replace_self (s : Store) (zone : ZoneId) (tokens : List Token) :
    (s.replace zone tokens).ids zone = tokens.map (·.id) :=
  ids_of_tokens? (tokens?_replace_self s zone tokens)

/-- A zone has the ids that it had when another one is given tokens. -/
theorem ids_replace_ne (s : Store) (tokens : List Token) (h : other ≠ zone) :
    (s.replace zone tokens).ids other = s.ids other := by
  rw [ids, Store.tokens, tokens?_replace_ne s tokens h]
  rfl

/-- Other tokens in a zone matter to those ids only that are among the old or the new ones. -/
theorem mem_ids_replace (h : id ∈ tokens.map (·.id) ↔ id ∈ s.ids zone) (other : ZoneId) :
    id ∈ (s.replace zone tokens).ids other ↔ id ∈ s.ids other := by
  by_cases hz : other = zone
  · subst hz
    rw [ids_replace_self]
    exact h
  · rw [ids_replace_ne s tokens hz]

/-- A token that is put into a zone is the only one that is new there. -/
theorem mem_ids_insert? {place : Placement} (h : s.insert? zone t place = some s') :
    id ∈ s'.ids other ↔ other = zone ∧ id = t.id ∨ id ∈ s.ids other := by
  obtain ⟨tokens, htokens, rfl⟩ := Option.map_eq_some_iff.1 h
  by_cases hz : other = zone
  · subst hz
    rw [ids_replace_self, ((place.put_perm t tokens).map (·.id)).mem_iff, List.map_cons,
      List.mem_cons, ids_of_tokens? htokens]
    simp
  · rw [ids_replace_ne s _ hz]
    simp [hz]

/-- A token that is taken out of a zone is the only one that is missing there. -/
theorem mem_ids_remove? {index : Nat} (h : s.remove? zone index = some (t, s')) :
    id ∈ s.ids other ↔ other = zone ∧ id = t.id ∨ id ∈ s'.ids other := by
  obtain ⟨tokens, htokens, htoken, rfl⟩ := remove?_eq_some h
  by_cases hz : other = zone
  · subst hz
    rw [ids_replace_self, ids_of_tokens? htokens, ((eraseIdx_perm htoken).map (·.id)).mem_iff,
      List.map_cons, List.mem_cons]
    simp
  · rw [ids_replace_ne s _ hz]
    simp [hz]

/-- Where all tokens differed, a token that has been taken is nowhere. -/
theorem zoneOf?_remove? (hdistinct : s.Distinct) {index : Nat}
    (h : s.remove? zone index = some (t, s')) : s'.zoneOf? t.id = none := by
  refine zoneOf?_eq_none fun t' ht' hid => ?_
  have hnodup := ((allTokens_remove? h).map Token.id).nodup_iff.1 hdistinct
  rw [List.map_cons, List.nodup_cons] at hnodup
  exact hnodup.1 (List.mem_map.2 ⟨t', ht', hid⟩)

/-- A token that is changed but for its id is where it was. -/
theorem ids_modify (s : Store) (id : TokenId) {f : Token → Token} (hf : ∀ t, (f t).kind = t.kind)
    (other : ZoneId) : (s.modify id f).ids other = s.ids other := by
  unfold modify
  split
  · rename_i zone tokens hfound
    have htokens : s.tokens? zone = some tokens :=
      Dict.mem_entries_iff.1 (List.mem_of_find?_eq_some hfound)
    by_cases hz : other = zone
    · subst hz
      have hkinds : (modifyFirst id f tokens).map Token.kind = tokens.map Token.kind :=
        map_kind_modifyFirst hf tokens
      have hids := congrArg (List.map Prod.fst) hkinds
      rw [List.map_map, List.map_map] at hids
      rw [ids_replace_self, ids_of_tokens? htokens]
      exact hids
    · exact ids_replace_ne s _ hz
  · rfl

/-- A token that is taken out of one zone and put into another goes there, and no other token
moves. -/
theorem zoneOf?_relocate (hdistinct : s.Distinct) {s'' : Store} (hdistinct' : s''.Distinct)
    {index : Nat} {place : Placement} (htaken : s.remove? zone index = some (t, s'))
    (hput : s'.insert? other t place = some s'') :
    s.zoneOf? t.id = some zone ∧ s''.zoneOf? t.id = some other ∧
      ∀ id, id ≠ t.id → s''.zoneOf? id = s.zoneOf? id := by
  refine ⟨?_, ?_, fun id hne => zoneOf?_eq_of_ids hdistinct hdistinct' fun z => ?_⟩
  · exact (zoneOf?_eq_some_iff hdistinct).2 ((mem_ids_remove? htaken).2 (.inl ⟨rfl, rfl⟩))
  · exact (zoneOf?_eq_some_iff hdistinct').2 ((mem_ids_insert? hput).2 (.inl ⟨rfl, rfl⟩))
  · rw [mem_ids_insert? hput, mem_ids_remove? htaken]
    simp [hne]

/-- The tokens of a block that moves to another zone go there, and no other token moves. -/
theorem zoneOf?_moveBlock {source target : ZoneId} {block rest old : List Token}
    (hdistinct : s.Distinct)
    (hdistinct' : ((s.replace source rest).replace target tokens).Distinct)
    (hparts : (s.tokens source).Perm (block ++ rest)) (hold : s.tokens? target = some old)
    (htokens : tokens.Perm (block ++ old)) :
    (∀ t ∈ block, s.zoneOf? t.id = some source ∧
      ((s.replace source rest).replace target tokens).zoneOf? t.id = some target) ∧
      ∀ id ∉ block.map (·.id),
        ((s.replace source rest).replace target tokens).zoneOf? id = s.zoneOf? id := by
  have hbefore (id : TokenId) : id ∈ s.ids source ↔
      id ∈ block.map (·.id) ∨ id ∈ rest.map (·.id) := by
    rw [ids, (hparts.map (·.id)).mem_iff, List.map_append, List.mem_append]
  have hafter (id : TokenId) :
      id ∈ tokens.map (·.id) ↔ id ∈ block.map (·.id) ∨ id ∈ s.ids target := by
    rw [(htokens.map (·.id)).mem_iff, List.map_append, List.mem_append, ids_of_tokens? hold]
  refine ⟨fun t ht => ⟨?_, ?_⟩, fun id hid => zoneOf?_eq_of_ids hdistinct hdistinct' fun z => ?_⟩
  · exact (zoneOf?_eq_some_iff hdistinct).2 ((hbefore _).2 (.inl (List.mem_map_of_mem ht)))
  · refine (zoneOf?_eq_some_iff hdistinct').2 ?_
    rw [ids_replace_self]
    exact (hafter _).2 (.inl (List.mem_map_of_mem ht))
  · have hrest : id ∈ rest.map (·.id) ↔ id ∈ s.ids source := by simp [hbefore, hid]
    have hsource := mem_ids_replace (s := s) hrest
    refine (mem_ids_replace ?_ z).trans (hsource z)
    rw [hafter, hsource target]
    simp [hid]

end Store

/-- Where tokens are numbered below the next number, no token has that number yet. -/
theorem Numbered.zoneOf?_next {s : Store} {next : UInt64} (h : Numbered s.kinds next)
    (type : String) :
    s.zoneOf? (.ofOrdinal type next) = none := by
  refine Store.zoneOf?_eq_none fun t ht hid => ?_
  obtain ⟨k, hk, hnumber⟩ := h.exists_number t ht
  have hsame := TokenId.ordinal_eq_of_numeral_eq (congrArg TokenId.numeral (hnumber.symm.trans hid))
  exact absurd hk (hsame ▸ UInt64.lt_irrefl next)

end Tabletop
