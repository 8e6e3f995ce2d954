import Tabletop.Proofs.Play.Completeness
import Tabletop.Proofs.Play.Compound

/-!
# Shorter lists of legal moves

A cap on the number of listed moves does nothing but cut the list off.  Exploring adds moves at the
end and looks at the cap only to stop, so with a smaller cap it does the same for as long as there
is room, and then nothing.  Moves with a special activity are explored from the moves that have been
found: under a smaller cap there may be fewer of those, but then there is no room for any other move
either.

Main statement: `Game.legalMoves_take`.
-/

namespace Tabletop

namespace Rules

/-! ## Cutting off -/

/-- The first moves are the second ones, cut off at the cap. -/
def Cut (cap : Nat) (found found' : Array Move) : Prop := found.toList = found'.toList.take cap

/-- What the second step does to some moves, the first does to them as far as the cap admits. -/
def Shortens (cap : Nat) (f f' : Array Move → Result (Array Move)) : Prop :=
  ∀ found found' out', Cut cap found found' → f' found' = .ok out' →
    ∃ out, f found = .ok out ∧ Cut cap out out'

variable {r : Rules} {s : State} {cap cap' : Nat} {found found' out' : Array Move}

namespace Cut

/-- Moves for which there is room are not cut off. -/
theorem of_size_le (h : found.size ≤ cap) : Cut cap found found := by
  unfold Cut
  rw [List.take_of_length_le]
  rwa [Array.length_toList]

/-- Moves that are cut off at a cap are as many as there are, or as the cap admits. -/
theorem size_eq (h : Cut cap found found') : found.size = min cap found'.size := by
  have hlength := congrArg List.length h
  rwa [List.length_take, Array.length_toList, Array.length_toList] at hlength

/-- Where there is room left, nothing has been cut off. -/
theorem eq_of_lt (h : Cut cap found found') (hroom : found.size < cap) : found = found' := by
  have hsize := h.size_eq
  apply Array.toList_inj.1
  rw [show found.toList = _ from h, List.take_of_length_le]
  rw [Array.length_toList]
  omega

/-- Where there is no room left, what else is found is cut off. -/
theorem keeps (h : Cut cap found found') (hfull : cap ≤ found.size)
    (hkept : found'.toList <+: out'.toList) : Cut cap found out' := by
  obtain ⟨new, hnew⟩ := hkept
  have hsize := h.size_eq
  unfold Cut
  rw [← hnew, List.take_append_of_le_length, ← h]
  rw [Array.length_toList]
  omega

end Cut

namespace Shortens

/-- A fold whose steps are cut off. -/
theorem foldlM {γ : Type} {f f' : Array Move → γ → Result (Array Move)}
    (hf : ∀ c, Shortens cap (fun found => f found c) (fun found => f' found c)) :
    ∀ l : List γ, Shortens cap (fun found => l.foldlM f found) (fun found => l.foldlM f' found)
  | [], found, _, _, hcut, h => by
    cases h
    exact ⟨found, rfl, hcut⟩
  | c :: l, found, _, _, hcut, h => by
    dsimp only at h ⊢
    rw [List.foldlM_cons] at h
    obtain ⟨mid', hstep, hrest⟩ := bind_eq_ok h
    obtain ⟨mid, hmid, hcut⟩ := hf c _ _ _ hcut hstep
    obtain ⟨out, hout, hcut⟩ := foldlM hf l _ _ _ hcut hrest
    rw [List.foldlM_cons]
    exact ⟨out, bind_ok hmid hout, hcut⟩

end Shortens

/-! ## Exploring -/

/-- Where the cap is reached, exploring a move finds nothing more. -/
theorem explore_full (hfull : cap ≤ found.size) (fuel : Nat) (m : Move) :
    r.explore s cap fuel m found = .ok found := by
  cases fuel with
  | zero => rfl
  | succ fuel => rw [explore, if_pos hfull]

/-- Where the cap is reached, exploring several moves finds nothing more. -/
theorem exploreAll_full (hfull : cap ≤ found.size) (ms : List Move) :
    r.exploreAll s cap ms found = .ok found := by
  induction ms with
  | nil => rfl
  | cons m ms ih =>
    rw [exploreAll]
    exact bind_ok (explore_full hfull _ m) ih

/-- Exploring a move under a smaller cap. -/
theorem explore_shortens (hcap : cap ≤ cap') :
    ∀ (fuel : Nat) (m : Move), Shortens cap (r.explore s cap fuel m) (r.explore s cap' fuel m)
  | 0, m, found, _, _, hcut, h => by
    cases h
    exact ⟨found, rfl, hcut⟩
  | fuel + 1, m, found, found', out', hcut, h => by
    by_cases hfull : cap ≤ found.size
    · exact ⟨found, explore_full hfull _ m, hcut.keeps hfull (explore_adds h).keeps⟩
    -- With room left both have found the same, and go on in the same way.
    have hroom := Nat.lt_of_not_le hfull
    obtain rfl := hcut.eq_of_lt hroom
    rw [explore, if_neg (by omega)] at h
    rw [explore, if_neg hfull]
    cases hresolve : r.resolve s m with
    | ok x =>
      rw [hresolve] at h
      cases h
      refine ⟨found.push m, rfl, .of_size_le ?_⟩
      rw [Array.size_push]
      exact hroom
    | error st =>
      rw [hresolve] at h
      cases st with
      | refused rejection =>
        cases h
        exact ⟨found, rfl, hcut⟩
      | fault fault => cases h
      | pending q =>
        have hbranches := Shortens.foldlM
          (fun x => explore_shortens hcap fuel (m.answer q x)) q.decision.choices
        exact hbranches _ _ _ hcut h

/-- Exploring several moves under a smaller cap. -/
theorem exploreAll_shortens (hcap : cap ≤ cap') :
    ∀ ms : List Move, Shortens cap (r.exploreAll s cap ms) (r.exploreAll s cap' ms)
  | [], found, _, _, hcut, h => by
    cases h
    exact ⟨found, rfl, hcut⟩
  | m :: ms, found, _, _, hcut, h => by
    rw [exploreAll] at h
    obtain ⟨mid', hstep, hrest⟩ := bind_eq_ok h
    obtain ⟨mid, hmid, hcut⟩ := explore_shortens hcap _ m _ _ _ hcut hstep
    obtain ⟨out, hout, hcut⟩ := exploreAll_shortens hcap ms _ _ _ hcut hrest
    rw [exploreAll]
    exact ⟨out, bind_ok hmid hout, hcut⟩

/-- Adding the moves with a special activity, under a smaller cap: the hosts are those found until
then. -/
theorem exploreCompounds_shortens (hcap : cap ≤ cap') :
    Shortens cap (fun plain => r.exploreAll s cap (plain.toList.flatMap r.compoundsOf) plain)
      (fun plain => r.exploreAll s cap' (plain.toList.flatMap r.compoundsOf) plain) := by
  intro plain plain' all' hcut h
  by_cases hfull : cap ≤ plain.size
  · exact ⟨plain, exploreAll_full hfull _, hcut.keeps hfull (exploreAll_adds h).keeps⟩
  · obtain rfl := hcut.eq_of_lt (Nat.lt_of_not_le hfull)
    exact exploreAll_shortens hcap _ _ _ _ hcut h

/-! ## The list -/

section

variable {compounds : Bool} {moves : List Move}

/-- A list under a smaller cap is cut off. -/
theorem legalMoves_cut (hcap : cap ≤ cap') (h : r.legalMoves s cap' compounds = .ok moves) :
    r.legalMoves s cap compounds = .ok (moves.take cap) := by
  obtain ⟨outcome, houtcome, h⟩ := bind_eq_ok h
  unfold legalMoves
  refine bind_ok houtcome ?_
  cases outcome with
  | some o =>
    cases h
    exact congrArg Except.ok List.take_nil.symm
  | none =>
    obtain ⟨plain', hplain', h⟩ := bind_eq_ok h
    have hnone : Cut cap #[] #[] := .of_size_le (Nat.zero_le cap)
    obtain ⟨plain, hplain, hcut⟩ := exploreAll_shortens hcap _ _ _ _ hnone hplain'
    refine bind_ok hplain ?_
    cases compounds with
    | false =>
      cases h
      exact congrArg Except.ok hcut
    | true =>
      obtain ⟨all', hall', h⟩ := bind_eq_ok h
      obtain ⟨all, hall, hcut⟩ := exploreCompounds_shortens hcap _ _ _ hcut hall'
      cases h
      exact bind_ok hall (congrArg Except.ok hcut)

/-- A list begins with the moves without a special activity, and without those it is empty. -/
theorem exists_plain (h : r.legalMoves s cap compounds = .ok moves) :
    ∃ plain, r.legalMoves s cap false = .ok plain ∧ plain <+: moves ∧
      (plain = [] → moves = []) := by
  cases compounds with
  | false => exact ⟨moves, h, List.prefix_rfl, id⟩
  | true =>
    obtain ⟨outcome, houtcome, h⟩ := bind_eq_ok h
    cases outcome with
    | some o =>
      cases h
      exact ⟨[], bind_ok houtcome rfl, List.prefix_rfl, id⟩
    | none =>
      obtain ⟨plain, hplain, h⟩ := bind_eq_ok h
      obtain ⟨all, hall, h⟩ := bind_eq_ok h
      cases h
      refine ⟨plain.toList, bind_ok houtcome (bind_ok hplain rfl), (exploreAll_adds hall).keeps, ?_⟩
      intro hnone
      rw [hnone] at hall
      cases hall
      exact hnone

/-- Whether there is a legal move can be told from any list that has room for one. -/
theorem hasLegalMove_eq (h : r.legalMoves s cap compounds = .ok moves) (hcap : 1 ≤ cap) :
    r.hasLegalMove s = .ok (!moves.isEmpty) := by
  obtain ⟨plain, hplain, hkept, hempty⟩ := exists_plain h
  have hsame : (plain.take 1).isEmpty = moves.isEmpty := by
    cases plain with
    | nil => rw [hempty rfl]; rfl
    | cons m ms =>
      obtain ⟨rest, rfl⟩ := hkept
      rfl
  unfold hasLegalMove
  rw [← hsame]
  exact bind_ok (legalMoves_cut hcap hplain) rfl

end

end Rules

/-- With a smaller cap, a list of legal moves is the same list cut off.  With room for one move, it
tells whether there is any. -/
theorem Game.legalMoves_take (g : Game) (s : State) (l : Listing) {moves : List Move}
    (h : g.legalMoves s l = .ok moves) :
    (∀ k ≤ l.maxMoves, g.legalMoves s { l with maxMoves := k } = .ok (moves.take k)) ∧
      (1 ≤ l.maxMoves →
        Rules.hasLegalMove { game := g, limits := l.limits } s = .ok (!moves.isEmpty)) :=
  ⟨fun _ hk => Rules.legalMoves_cut hk h, fun hroom => Rules.hasLegalMove_eq h hroom⟩

/-- A march, a raid, and a march with a raid at three times are listed for a convoy; with a cap of
four the last of them is left out. -/
theorem Game.legalMoves_take_convoy :
    ∃ moves, Rules.convoy.game.legalMoves .convoy { compounds := true } = .ok moves ∧
      moves.length = 5 ∧
      Rules.convoy.game.legalMoves .convoy { compounds := true, maxMoves := 4 } =
        .ok (moves.take 4) ∧
      Rules.convoy.hasLegalMove .convoy = .ok true := by
  obtain ⟨moves, hmoves⟩ :
      ∃ moves, Rules.convoy.game.legalMoves .convoy { compounds := true } = .ok moves :=
    exists_ok_of_isOk (by decide +kernel)
  have hlength : (Rules.convoy.game.legalMoves .convoy { compounds := true }).toOption.map
      List.length = some 5 := by decide +kernel
  rw [hmoves] at hlength
  have hfive : moves.length = 5 := Option.some.inj hlength
  obtain ⟨hcut, hhas⟩ := Rules.convoy.game.legalMoves_take .convoy { compounds := true } hmoves
  have hsome : moves.isEmpty = false := by
    cases moves with
    | nil => cases hfive
    | cons m ms => rfl
  refine ⟨moves, hmoves, hfive, hcut 4 (by decide), ?_⟩
  have hroom := hhas (by decide)
  rw [hsome] at hroom
  exact hroom

end Tabletop
