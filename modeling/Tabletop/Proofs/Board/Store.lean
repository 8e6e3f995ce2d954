import Mathlib.Data.Multiset.Bind
import Tabletop.Board.Store
import Tabletop.Proofs.Board.Dict

/-!
# Tokens that come, go and stay

What the changes of a store do to all tokens taken together.  The order in which they are listed is
of no account, so the statements are up to permutation.

Main statements: `Store.allTokens_insert?`, `Store.allTokens_remove?`, `Store.allTokens_relocate`
and `Store.allTokens_moveBlock`.
-/

namespace Tabletop

open scoped List

namespace Placement

/-- A token that is put somewhere comes in besides those that are there. -/
theorem put_perm {α : Type} (p : Placement) (x : α) (xs : List α) :
    (p.put x xs).Perm (x :: xs) := by
  cases p with
  | front => exact .refl _
  | back => exact List.perm_append_singleton x xs
  | index n =>
    refine List.perm_middle.trans ?_
    rw [List.take_append_drop]

end Placement

namespace Store

variable {s s' : Store} {zone : ZoneId} {id : TokenId} {t : Token}

/-- The tokens of a zone that is there are those that it holds. -/
theorem tokens_of_tokens? {tokens : List Token} (h : s.tokens? zone = some tokens) :
    s.tokens zone = tokens := by
  rw [Store.tokens, h]
  rfl

/-- A zone that is there holds its tokens. -/
theorem tokens?_of_hasZone (h : s.hasZone zone = true) :
    s.tokens? zone = some (s.tokens zone) := by
  obtain ⟨tokens, htokens⟩ := Option.isSome_iff_exists.1 h
  rw [tokens_of_tokens? htokens]
  exact htokens

/-- A zone with tokens is there. -/
theorem tokens?_of_ne_nil (h : s.tokens zone ≠ []) : s.tokens? zone = some (s.tokens zone) := by
  unfold tokens at h ⊢
  cases hz : s.tokens? zone with
  | none => rw [hz] at h; exact absurd rfl h
  | some tokens => rfl

/-- A zone that has a first token is there. -/
theorem tokens?_of_cons {rest : List Token} (h : s.tokens zone = t :: rest) :
    s.tokens? zone = some (t :: rest) := by
  rw [← h]
  exact tokens?_of_ne_nil (by simp [h])

/-! ## Zones -/

/-- A zone holds the tokens that it has been given. -/
@[simp] theorem tokens?_replace_self (s : Store) (zone : ZoneId) (tokens : List Token) :
    (s.replace zone tokens).tokens? zone = some tokens :=
  s.zones.get?_insert_self zone tokens

/-- A zone holds what it held when another one is given new tokens. -/
theorem tokens?_replace_ne (s : Store) {zone other : ZoneId} (tokens : List Token)
    (h : other ≠ zone) : (s.replace zone tokens).tokens? other = s.tokens? other :=
  s.zones.get?_insert_ne tokens h

/-- Replacing tokens makes no zone go. -/
theorem hasZone_replace (s : Store) (zone : ZoneId) (tokens : List Token) {other : ZoneId}
    (h : s.hasZone other = true) : (s.replace zone tokens).hasZone other = true := by
  change ((s.replace zone tokens).tokens? other).isSome = true
  by_cases hz : other = zone
  · rw [hz, tokens?_replace_self]
    rfl
  · rw [tokens?_replace_ne s tokens hz]
    exact h

/-- Putting a token in takes no zone away. -/
theorem hasZone_insert? {place : Placement} (h : s.insert? zone t place = some s')
    {other : ZoneId} (hother : s.hasZone other = true) : s'.hasZone other = true := by
  obtain ⟨tokens, -, rfl⟩ := Option.map_eq_some_iff.1 h
  exact s.hasZone_replace _ _ hother

/-- What is taken out of a zone is the token at that index, and the others close up. -/
theorem remove?_eq_some {index : Nat} (h : s.remove? zone index = some (t, s')) :
    ∃ tokens, s.tokens? zone = some tokens ∧ tokens[index]? = some t ∧
      s' = s.replace zone (tokens.eraseIdx index) := by
  obtain ⟨tokens, htokens, h⟩ := Option.bind_eq_some_iff.1 h
  obtain ⟨token, htoken, h⟩ := Option.bind_eq_some_iff.1 h
  cases h
  exact ⟨tokens, htokens, htoken, rfl⟩

/-- Taking a token out takes no zone away. -/
theorem hasZone_remove? {index : Nat} (h : s.remove? zone index = some (t, s')) {other : ZoneId}
    (hother : s.hasZone other = true) : s'.hasZone other = true := by
  obtain ⟨tokens, -, -, rfl⟩ := remove?_eq_some h
  exact s.hasZone_replace _ _ hother

/-- Changing a token takes no zone away. -/
theorem hasZone_modify (s : Store) (id : TokenId) (f : Token → Token) {other : ZoneId}
    (hother : s.hasZone other = true) : (s.modify id f).hasZone other = true := by
  unfold modify
  split
  · exact s.hasZone_replace _ _ hother
  · exact hother

/-- A zone that has been added is there. -/
theorem hasZone_addZone_self (s : Store) (zone : ZoneId) :
    (s.addZone zone).hasZone zone = true := by
  unfold addZone
  split
  · assumption
  · change ((s.replace zone []).tokens? zone).isSome = true
    rw [tokens?_replace_self]
    rfl

/-- Adding a zone takes no other zone away. -/
theorem hasZone_addZone (s : Store) (zone : ZoneId) {other : ZoneId}
    (h : s.hasZone other = true) : (s.addZone zone).hasZone other = true := by
  unfold addZone
  split
  · exact h
  · exact s.hasZone_replace _ _ h

/-! ## All tokens -/

/-- The tokens of a zone stand together among all tokens. -/
theorem allTokens_split {tokens : List Token} (h : s.tokens? zone = some tokens) :
    ∃ pre post, s.allTokens = pre ++ tokens ++ post ∧
      ∀ new, (s.replace zone new).allTokens = pre ++ new ++ post := by
  obtain ⟨pre, post, hsplit, hinsert⟩ := Dict.insert_split h
  refine ⟨(pre.map (·.2)).flatten, (post.map (·.2)).flatten, ?_, fun new => ?_⟩
  · simp [allTokens, Dict.values, hsplit]
  · simp [allTokens, Dict.values, replace, hinsert]

/-- What is in a zone that was not there comes in besides the other tokens. -/
theorem allTokens_replace_new (tokens : List Token) (h : s.tokens? zone = none) :
    (s.replace zone tokens).allTokens.Perm (tokens ++ s.allTokens) := by
  have hperm := Dict.insertEntry_perm tokens h
  have hflat := (hperm.map (·.2)).flatten
  simpa [allTokens, Dict.values, replace, Dict.insert] using hflat

/-- Exchanging a zone's tokens for others does so among all tokens. -/
theorem allTokens_replace {old new : List Token} (kept left come : List Token)
    (h : s.tokens? zone = some old) (hold : old.Perm (left ++ kept))
    (hnew : new.Perm (come ++ kept)) :
    (left ++ (s.replace zone new).allTokens).Perm (come ++ s.allTokens) := by
  obtain ⟨pre, post, hall, hreplace⟩ := allTokens_split h
  rw [hall, hreplace new]
  calc left ++ (pre ++ new ++ post)
    _ ~ left ++ (pre ++ (come ++ kept) ++ post) :=
      ((hnew.append_left pre).append_right post).append_left left
    _ ~ come ++ (pre ++ (left ++ kept) ++ post) := by
      simp only [← Multiset.coe_eq_coe, ← Multiset.coe_add]
      ac_rfl
    _ ~ come ++ (pre ++ old ++ post) :=
      ((hold.symm.append_left pre).append_right post).append_left come

/-- A token that is put into a zone comes in besides the others. -/
theorem allTokens_insert? {place : Placement} (h : s.insert? zone t place = some s') :
    s'.allTokens.Perm (t :: s.allTokens) := by
  obtain ⟨tokens, htokens, rfl⟩ := Option.map_eq_some_iff.1 h
  exact allTokens_replace tokens [] [t] htokens (.refl _) (place.put_perm t tokens)

/-- The item at an index, in front of the others, is a permutation of the list. -/
theorem eraseIdx_perm {α : Type} {x : α} :
    ∀ {l : List α} {i : Nat}, l[i]? = some x → l.Perm (x :: l.eraseIdx i)
  | y :: l, 0, h => by
    cases h
    exact .refl _
  | y :: l, i + 1, h => ((eraseIdx_perm (l := l) h).cons y).trans (.swap _ _ _)

/-- A token that is taken leaves all the others. -/
theorem allTokens_remove? {index : Nat} (h : s.remove? zone index = some (t, s')) :
    s.allTokens.Perm (t :: s'.allTokens) := by
  obtain ⟨tokens, htokens, htoken, rfl⟩ := remove?_eq_some h
  exact (allTokens_replace _ [t] [] htokens (eraseIdx_perm htoken) (.refl _)).symm

/-- A token that is taken out of one zone and put into another stays on the table. -/
theorem allTokens_relocate {s'' : Store} {other : ZoneId} {index : Nat} {place : Placement}
    (htaken : s.remove? zone index = some (t, s')) (hput : s'.insert? other t place = some s'') :
    s''.allTokens.Perm s.allTokens :=
  (allTokens_insert? hput).trans (allTokens_remove? htaken).symm

/-- Tokens of a zone that are put into another order stay on the table. -/
theorem allTokens_replace_perm {tokens new : List Token} (h : s.tokens? zone = some tokens)
    (hperm : new.Perm tokens) : (s.replace zone new).allTokens.Perm s.allTokens := by
  simpa using allTokens_replace tokens [] [] h (.refl _) hperm

/-- A zone with a block of tokens is there. -/
theorem tokens?_of_block {block rest : List Token} (hblock : block ≠ [])
    (hparts : (s.tokens zone).Perm (block ++ rest)) : s.tokens? zone = some (s.tokens zone) := by
  apply tokens?_of_ne_nil
  intro hnil
  rw [hnil] at hparts
  exact hblock (List.append_eq_nil_iff.1 hparts.nil_eq.symm).1

/-- A block of tokens that moves to another zone stays on the table. -/
theorem allTokens_moveBlock {source target : ZoneId} {block rest old tokens : List Token}
    (hne : source ≠ target) (hblock : block ≠ [])
    (hparts : (s.tokens source).Perm (block ++ rest)) (hold : s.tokens? target = some old)
    (htokens : tokens.Perm (block ++ old)) :
    ((s.replace source rest).replace target tokens).allTokens.Perm s.allTokens := by
  have htarget : (s.replace source rest).tokens? target = some old := by
    rw [tokens?_replace_ne s rest hne.symm]
    exact hold
  have htaken := allTokens_replace rest block [] (tokens?_of_block hblock hparts) hparts (.refl _)
  exact (allTokens_replace old [] block htarget (.refl _) htokens).trans htaken

/-! ## Places -/

/-- A token is where it is found. -/
theorem remove?_of_locate {index : Nat} (h : s.locate id = .found zone index) :
    ∃ t s', s.remove? zone index = some (t, s') ∧ t.id = id := by
  have hmem : (zone, index) ∈ s.places id := by
    unfold locate at h
    split at h
    · cases h
    · rename_i heq
      cases h
      rw [heq]
      exact List.mem_singleton_self _
    · cases h
  obtain ⟨⟨z, tokens⟩, hentry, hmem⟩ := List.mem_flatMap.1 hmem
  obtain ⟨⟨t, i⟩, hfiltered, heq⟩ := List.mem_map.1 hmem
  obtain ⟨hzip, hid⟩ := List.mem_filter.1 hfiltered
  cases heq
  have htokens : s.tokens? z = some tokens := Dict.mem_entries_iff.1 hentry
  have htoken : tokens[i]? = some t := List.mem_zipIdx_iff_getElem?.1 hzip
  refine ⟨t, s.replace z (tokens.eraseIdx i), ?_, by simpa using hid⟩
  simp [remove?, htokens, htoken]

end Store

/-! ## Kinds -/

/-- The id and the type of a token. -/
def Token.kind (t : Token) : TokenId × String := (t.id, t.type)

namespace Store

/-- The ids and types of all tokens. -/
def kinds (s : Store) : Multiset (TokenId × String) := (s.allTokens.map Token.kind : List _)

variable {s s' : Store} {zone : ZoneId} {t : Token}

/-- Tokens that change places between the table and two lists beside it keep their ids and types. -/
theorem kinds_eq_of_perm (ts ts' : List Token)
    (h : (ts ++ s'.allTokens).Perm (ts' ++ s.allTokens)) :
    (ts.map Token.kind : List _) + s'.kinds = (ts'.map Token.kind : List _) + s.kinds := by
  have hmap := h.map Token.kind
  rw [List.map_append, List.map_append] at hmap
  exact Multiset.coe_eq_coe.2 hmap

/-- A token that is put in adds its id and type. -/
theorem kinds_insert? {place : Placement} (h : s.insert? zone t place = some s') :
    s'.kinds = t.kind ::ₘ s.kinds := by
  simpa using kinds_eq_of_perm [] [t] (allTokens_insert? h)

/-- A token that is taken out leaves with its id and type. -/
theorem kinds_remove? {index : Nat} (h : s.remove? zone index = some (t, s')) :
    t.kind ::ₘ s'.kinds = s.kinds := by
  simpa using kinds_eq_of_perm [t] [] (allTokens_remove? h).symm

/-- A zone that is added holds no tokens of its own. -/
theorem kinds_addZone (s : Store) (zone : ZoneId) : (s.addZone zone).kinds = s.kinds := by
  unfold addZone
  split
  · rfl
  · rename_i hzone
    have hnone : s.tokens? zone = none := by
      cases htokens : s.tokens? zone with
      | none => rfl
      | some tokens => exact absurd (congrArg Option.isSome htokens) hzone
    have hperm := allTokens_replace_new [] hnone
    exact Multiset.coe_eq_coe.2 (hperm.map Token.kind)

/-- Where the same tokens are on the table, so are their kinds. -/
theorem kinds_eq_of_allTokens_perm (h : s'.allTokens.Perm s.allTokens) : s'.kinds = s.kinds :=
  Multiset.coe_eq_coe.2 (h.map Token.kind)

/-- A change that keeps the ids and types of tokens keeps those of a list. -/
theorem map_kind_modifyFirst {id : TokenId} {f : Token → Token} (hf : ∀ t, (f t).kind = t.kind)
    (ts : List Token) : (modifyFirst id f ts).map Token.kind = ts.map Token.kind := by
  induction ts with
  | nil => rfl
  | cons t ts ih =>
    rw [modifyFirst]
    split
    · rw [List.map_cons, List.map_cons, hf]
    · rw [List.map_cons, List.map_cons, ih]

/-- A token that is changed otherwise keeps its id and its type. -/
theorem kinds_modify (s : Store) (id : TokenId) {f : Token → Token}
    (hf : ∀ t, (f t).kind = t.kind) : (s.modify id f).kinds = s.kinds := by
  unfold modify
  split
  · rename_i zone tokens hfound
    have htokens : s.tokens? zone = some tokens :=
      Dict.mem_entries_iff.1 (List.mem_of_find?_eq_some hfound)
    obtain ⟨pre, post, hall, hreplace⟩ := allTokens_split htokens
    simp only [kinds, hall, hreplace, List.map_append, map_kind_modifyFirst hf]
  · rfl

end Store

end Tabletop
