import Tabletop.Play.Make
import Tabletop.Proofs.Play.Cost
import Tabletop.Proofs.Play.DecisionPoint

/-!
# What a list of legal moves leaves out

A list that is not full leaves out nothing that matters: every complete move without a special
activity is listed, perhaps without selections that nothing asks for.

Exploring follows such a move: whenever a decision is open, the move has a selection for it, and
that selection is among the choices.  It never runs out of levels, because each level settles a
selection that the move needs, and a move needs no more selections than there are levels.

Main statement: `Rules.legalMoves_spec`.
-/

namespace Tabletop

namespace Rules

variable (r : Rules) (s : State)

/-- A move lists its selections in the order of the domains: where it selects several options for a
decision that it would be asked for without them, they stand in the order of the decision's
domain. -/
def KeepsOrder (m : Move) : Prop :=
  ∀ q xs, r.resolve s (m.without q.decision.name) = .error (.pending q) →
    m.params.get? q.decision.name = some (.many xs) →
      xs.Sublist (q.decision.domain.filterMap Value.identity?)

variable {r s} in
/-- A move that selects nothing but single options keeps the order. -/
theorem keepsOrder_of_single {m : Move} (h : ∀ e ∈ m.params.entries, e.2 matches .one _) :
    r.KeepsOrder s m := by
  intro q xs _ hmany
  have hone := h _ (Dict.mem_entries_iff.2 hmany)
  cases hone

/-- Exploring leads from a move with fewer selections to another: the named selections, which the
second move needs, have been settled as it has them. -/
structure Leads (n m : Move) (names : Finset String) : Prop where
  eq : m = { n with params := m.params }
  within : n.params.Within m.params
  selected : ∀ name ∈ names, n.params.get? name ≠ none
  needed : ∀ name ∈ names, r.NeedsSelection s m name

variable {r s} {m n : Move} {x : Resolution}

/-! ## One level -/

/-- A move without a special activity lacks the selection for which its resolution stops. -/
theorem lacks_of_pending (hn : n.compound = none) {q : Request}
    (hq : r.resolve s n = .error (.pending q)) : n.Lacks false q := by
  have hasks := r.resolve_asks s n
  rw [hq] at hasks
  rcases hasks.1 with hlacks | ⟨c, hc, -⟩
  · exact hlacks
  · rw [hn] at hc
    cases hc

/-- What an open decision tells about a move with more selections: it is open there too, or it is
settled by a selection that it takes. -/
theorem resolve_of_pending (hn : n.compound = none) (heq : m = { n with params := m.params })
    (hwithin : n.params.Within m.params) {q : Request}
    (hq : r.resolve s n = .error (.pending q)) :
    (m.params.get? q.decision.name = none ∧ r.resolve s m = .error (.pending q)) ∨
      ∃ y, m.params.get? q.decision.name = some y ∧
        ∀ x, r.resolve s m = .ok x → q.decision.Takes (.ofSelection y) := by
  have hspecial := (lacks_of_pending hn hq).1
  have hmoves := Widening.moves_of_within hn heq hwithin
  have hmissing : Missing _ (Widening.settles? _ q) q.decision.Takes (r.resolve s m) :=
    (r.resolve_paired s hmoves).of_error hq
  rw [Widening.settles?_eq (fun h => by rw [hspecial] at h; cases h)] at hmissing
  change Missing _ ((Bindings.ofParams m.params).get? q.decision.name) _ _ at hmissing
  rw [Bindings.get?_ofParams] at hmissing
  cases hy : m.params.get? q.decision.name with
  | none =>
    rw [hy] at hmissing
    exact .inl ⟨rfl, hmissing.none rfl⟩
  | some y =>
    rw [hy] at hmissing
    exact .inr ⟨y, rfl, hmissing.some _ rfl⟩

section

variable {names : Finset String}

/-- A decision on the way to a move is asked of the move itself, without the selection for it. -/
theorem Leads.asked (h : r.Leads s n m names) (hn : n.compound = none) {q : Request}
    (hq : r.resolve s n = .error (.pending q)) :
    r.resolve s (m.without q.decision.name) = .error (.pending q) := by
  have hlacks := (lacks_of_pending hn hq).2
  have hmissing : (m.without q.decision.name).params.get? q.decision.name = none := by
    rw [Move.without, Dict.get?_erase, if_pos rfl]
  have hwithin : n.params.Within (m.without q.decision.name).params := by
    intro k y hk
    have hne : k ≠ q.decision.name := by
      rintro rfl
      rw [hlacks] at hk
      cases hk
    rw [Move.without, Dict.get?_erase, if_neg hne]
    exact h.within k y hk
  have heq : m.without q.decision.name =
      { n with params := (m.without q.decision.name).params } := by
    rw [Move.without, h.eq]
  rcases resolve_of_pending hn heq hwithin hq with ⟨-, hasked⟩ | ⟨y, hy, -⟩
  · exact hasked
  · rw [hmissing] at hy
    cases hy

/-- A complete move has an answer to every decision on the way to it, and the answer leads on. -/
theorem Leads.answer (h : r.Leads s n m names) (hn : n.compound = none)
    (hx : r.resolve s m = .ok x) {q : Request} (hq : r.resolve s n = .error (.pending q)) :
    q.decision.name ∉ names ∧ ∃ y, m.params.get? q.decision.name = some y ∧
      q.decision.Takes (.ofSelection y) ∧ (n.answer q y).compound = none ∧
      r.Leads s (n.answer q y) m (insert q.decision.name names) := by
  have hlacks := (lacks_of_pending hn hq).2
  refine ⟨fun hname => h.selected _ hname hlacks, ?_⟩
  rcases resolve_of_pending hn h.eq h.within hq with ⟨-, hpending⟩ | ⟨y, hy, htakes⟩
  · cases hpending.symm.trans hx
  · have hanswer : n.answer q y = n.select q.decision.name y := by
      unfold Move.answer
      rw [hn]
    refine ⟨y, hy, htakes x hx, by rw [hanswer]; exact hn, ?_⟩
    rw [hanswer]
    constructor
    · exact h.eq
    · intro k z hk
      by_cases hname : k = q.decision.name
      · subst hname
        rw [Move.select, Dict.get?_insert_self] at hk
        rw [hy, hk]
      · rw [Move.select, Dict.get?_insert_ne _ _ hname] at hk
        exact h.within k z hk
    · intro name hname
      by_cases heq : name = q.decision.name
      · subst heq
        rw [Move.select, Dict.get?_insert_self]
        exact Option.some_ne_none y
      · rw [Move.select, Dict.get?_insert_ne _ _ heq]
        exact h.selected name ((Finset.mem_insert.1 hname).resolve_left heq)
    · intro name hname
      rcases Finset.mem_insert.1 hname with rfl | hname
      · exact ⟨q, h.asked hn hq, rfl⟩
      · exact h.needed name hname

end

/-! ## All levels -/

/-- A listed move stands for another: it has fewer selections and comes to the same. -/
structure StandsFor (r : Rules) (s : State) (n m : Move) (x : Resolution) : Prop where
  eq : m = { n with params := m.params }
  within : n.params.Within m.params
  resolves : r.resolve s n = .ok x

/-- Exploring keeps the moves that have been found before. -/
theorem Adds.keeps {starts : List Move} {found found' : Array Move}
    (h : r.Adds s starts found found') : found.toList <+: found'.toList := by
  obtain ⟨new, hnew, -⟩ := h
  exact ⟨new, hnew.symm⟩

/-- Among several explorations one after the other, each is made at some time, and what it finds
is kept. -/
theorem exists_step {γ : Type} {f : Array Move → γ → Result (Array Move)} {start : γ → Move}
    (hf : ∀ c found found', f found c = .ok found' → r.Adds s [start c] found found') {c : γ} :
    ∀ {l : List γ} {found found' : Array Move}, c ∈ l → l.foldlM f found = .ok found' →
      ∃ before after, f before c = .ok after ∧ after.toList <+: found'.toList
  | d :: l, found, found', hc, h => by
    rw [List.foldlM_cons] at h
    obtain ⟨found₁, hstep, hrest⟩ := bind_eq_ok h
    rcases List.mem_cons.1 hc with rfl | hc
    · exact ⟨found, found₁, hstep, (Adds.foldlM hf hrest).keeps⟩
    · exact exists_step hf hc hrest

/-- Exploring finds a move that stands for a complete move to which it leads, if the list does not
become full and there are enough levels. -/
theorem explore_complete (hm : m.compound = none) {a : Action}
    (ha : r.definition.action? m.action = some a) (hx : r.resolve s m = .ok x)
    (horder : r.KeepsOrder s m) {cap : Nat} :
    ∀ {fuel : Nat} {n : Move} {names : Finset String} {found found' : Array Move},
      n.compound = none → r.Leads s n m names →
      a.params.length + r.limits.maxOps.toNat < fuel + names.card →
      r.explore s cap fuel n found = .ok found' → found'.size < cap →
      ∃ n' ∈ found'.toList, r.StandsFor s n' m x := by
  intro fuel
  induction fuel with
  | zero =>
    intro n names found found' _ hleads hfuel _ _
    have hcard := card_needed_le hm ha hx hleads.needed
    omega
  | succ fuel ih =>
    intro n names found found' hn hleads hfuel hfound hroom
    have hadds := explore_adds hfound
    rw [explore] at hfound
    split at hfound
    · rename_i hfull
      cases hfound
      omega
    have hpaired := r.resolve_paired s (Widening.moves_of_within hn hleads.eq hleads.within)
    cases hresolve : r.resolve s n with
    | ok y =>
      rw [hresolve] at hfound
      cases hfound
      obtain ⟨z, hz, hsame⟩ := hpaired.of_ok hresolve
      cases hz.symm.trans hx
      cases hsame.eq
      exact ⟨n, by simp, ⟨hleads.eq, hleads.within, hresolve⟩⟩
    | error st =>
      rw [hresolve] at hfound
      cases st with
      | fault fault => cases hfound
      | refused rejection =>
        have hrefused := hpaired.of_error hresolve
        cases hrefused.symm.trans hx
      | pending q =>
        obtain ⟨hnew, y, hy, htakes, hcompound, hleads'⟩ := hleads.answer hn hx hresolve
        have hasks := r.resolve_asks s n
        rw [hresolve] at hasks
        have hchoice : y ∈ q.decision.choices := by
          apply Decision.mem_choices hasks.2 htakes
          rintro xs rfl
          exact horder q xs (hleads.asked hn hresolve) hy
        obtain ⟨before, after, hstep, hkept⟩ :=
          exists_step (fun _ _ _ hstep => explore_adds hstep) hchoice hfound
        have hsize := hkept.length_le
        rw [Array.length_toList, Array.length_toList] at hsize
        have hcard := Finset.card_insert_of_notMem hnew
        obtain ⟨n', hn', hstands⟩ :=
          ih hcompound hleads' (by omega) hstep (Nat.lt_of_le_of_lt hsize hroom)
        exact ⟨n', hkept.subset hn', hstands⟩

/-! ## The list -/

/-- Every one of several moves is explored in its turn, and what it adds stays. -/
theorem exists_explored {cap : Nat} :
    ∀ {ms : List Move} {m : Move} {found found' : Array Move}, m ∈ ms →
      r.exploreAll s cap ms found = .ok found' →
        ∃ before after, r.explore s cap (r.depthOf m) m before = .ok after ∧
          after.toList <+: found'.toList
  | d :: ms, m, found, found', hm, h => by
    rw [exploreAll] at h
    obtain ⟨found₁, hstep, hrest⟩ := bind_eq_ok h
    rcases List.mem_cons.1 hm with rfl | hm
    · exact ⟨found, found₁, hstep, (exploreAll_adds hrest).keeps⟩
    · exact exists_explored hm hrest

/-- Once the game is over, no move resolves. -/
theorem outcome?_of_resolve (h : r.resolve s m = .ok x) : r.game.outcome? s = .ok none := by
  obtain ⟨a, grant, host, special, y, hgoes, -⟩ := resolve_eq_ok_iff.1 h
  exact hgoes

/-- A list that is not full has a move that stands for a complete move without a special
activity. -/
theorem exists_standsFor {cap : Nat} {compounds : Bool} {found : List Move}
    (h : r.legalMoves s cap compounds = .ok found) (hroom : found.length < cap)
    (hm : m.compound = none) (hclass : m.classOverride = none)
    (hfree : m.free = (s.order.inGrantWindow && !r.definition.isPass m.action))
    (hx : r.resolve s m = .ok x) (horder : r.KeepsOrder s m) :
    ∃ n ∈ found, r.StandsFor s n m x := by
  obtain ⟨a, -, -, ha, -⟩ := resolve_plain_eq_ok hm hx
  have hbare : r.bareMove s m.action ∈ r.bareMoves s := by
    have hid : a.id = m.action := by simpa using List.find?_some ha
    exact List.mem_map.2 ⟨a, List.mem_of_find?_eq_some ha, by rw [hid]⟩
  have hleads : r.Leads s (r.bareMove s m.action) m ∅ := by
    constructor
    · obtain ⟨action, params, free, classOverride, compound⟩ := m
      dsimp only at hm hclass hfree
      subst hm hclass hfree
      rfl
    · intro k y hk
      cases hk
    · simp
    · simp
  have hdepth : a.params.length + r.limits.maxOps.toNat <
      r.depthOf (r.bareMove s m.action) + (∅ : Finset String).card := by
    simp only [depthOf, bareMove, ha, Finset.card_empty]
    omega
  rcases legalMoves_eq_ok h with ⟨-, outcome, houtcome⟩ | ⟨plain, hplain, hfound⟩
  · cases houtcome.symm.trans (outcome?_of_resolve hx)
  · obtain ⟨before, after, hstep, hkept⟩ := exists_explored hbare hplain
    have hkept' : plain.toList <+: found := by
      rcases hfound with rfl | ⟨all, hall, rfl⟩
      · exact List.prefix_refl _
      · exact (exploreAll_adds hall).keeps
    have hsize := (hkept.trans hkept').length_le
    rw [Array.length_toList] at hsize
    obtain ⟨n, hn, hstands⟩ := explore_complete hm ha hx horder rfl hleads hdepth hstep
      (Nat.lt_of_le_of_lt hsize hroom)
    exact ⟨n, (hkept.trans hkept').subset hn, hstands⟩

/-- A list of legal moves holds moves that can be made, none of them twice.  If it is not full, it
has for every complete move without a special activity or another class one with the same action, no
other selections, and the same resolution. -/
theorem legalMoves_spec (hids : (r.definition.actions.map (·.id)).Nodup) {l : Listing}
    (hl : l.limits = r.limits) {found : List Move} (h : r.game.legalMoves s l = .ok found) :
    (∀ m ∈ found, r.standing s m = .ok .complete ∧
      ∀ rejection, r.makeMove s m ≠ .error (.illegal rejection)) ∧
    found.Nodup ∧
    (found.length < l.maxMoves → ∀ m : Move, m.compound = none → m.classOverride = none →
      m.free = (s.order.inGrantWindow && !r.definition.isPass m.action) →
      r.standing s m = .ok .complete → r.KeepsOrder s m →
      ∃ n ∈ found, n.action = m.action ∧ n.free = m.free ∧ n.params.Within m.params ∧
        ∃ x, r.resolve s m = .ok x ∧ r.resolve s n = .ok x) := by
  obtain ⟨game, limits⟩ := r
  obtain rfl : l.limits = limits := hl
  replace h : Rules.legalMoves { game, limits := l.limits } s l.maxMoves l.compounds = .ok found :=
    h
  refine ⟨?_, ?_, ?_⟩
  · intro m hm
    obtain ⟨x, hx⟩ := resolve_of_mem_legalMoves h hm
    refine ⟨standing_complete.2 ⟨x, hx⟩, ?_⟩
    intro rejection hillegal
    unfold makeMove at hillegal
    rw [hx] at hillegal
    dsimp only at hillegal
    split at hillegal <;> cases hillegal
  · exact (apart_legalMoves hids h).imp Move.Apart.ne
  · intro hroom m hm hclass hfree hcomplete horder
    obtain ⟨x, hx⟩ := standing_complete.1 hcomplete
    obtain ⟨n, hn, hstands⟩ := exists_standsFor h hroom hm hclass hfree hx horder
    obtain ⟨haction, hfree⟩ : n.action = m.action ∧ n.free = m.free := by
      rw [hstands.eq]
      exact ⟨rfl, rfl⟩
    exact ⟨n, hn, haction, hfree, hstands.within, x, hx, hstands.resolves⟩

end Rules

/-- Melts the first coin of the mint; nothing asks for the other selection. -/
def Move.meltFirst : Move :=
  { action := "melt"
    params := .ofList [("coin", .one (.str "coin#0")), ("stray", .one (.int 1))] }

/-- At the mint the listing has no repetitions and only complete moves, and melting the first coin
is listed without the selection that nothing asks for. -/
theorem Rules.legalMoves_spec_mint :
    ∃ found, Rules.mint.game.legalMoves .mint {} = .ok found ∧ found.Nodup ∧
      (∀ m ∈ found, Rules.mint.standing .mint m = .ok .complete) ∧
      ∃ n ∈ found, n.action = "melt" ∧ n.params.Within Move.meltFirst.params := by
  obtain ⟨found, hfound⟩ : ∃ found, Rules.mint.game.legalMoves .mint {} = .ok found :=
    exists_ok_of_isOk (by decide +kernel)
  obtain ⟨hsound, hnodup, hcomplete⟩ :=
    Rules.legalMoves_spec (r := .mint) (by decide +kernel) rfl hfound
  have hroom : found.length < ({} : Listing).maxMoves := by
    have hlength : (Rules.mint.game.legalMoves .mint {}).toOption.map List.length = some 2 := by
      decide +kernel
    rw [hfound] at hlength
    rw [Option.some.inj hlength]
    decide
  have hm : Rules.mint.standing .mint .meltFirst = .ok .complete :=
    eq_ok_of_toOption (by decide +kernel)
  have horder : Rules.mint.KeepsOrder .mint .meltFirst :=
    Rules.keepsOrder_of_single (by decide +kernel)
  obtain ⟨n, hn, haction, -, hwithin, -⟩ :=
    hcomplete hroom .meltFirst rfl rfl (by decide +kernel) hm horder
  exact ⟨found, hfound, hnodup, fun m hm => (hsound m hm).1, n, hn, haction, hwithin⟩

end Tabletop
