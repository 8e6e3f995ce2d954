import Tabletop.Proofs.Play.Asking
import Tabletop.Proofs.Play.Choices

/-!
# Listed moves

Exploring a move only ever fills in selections that it lacks.  Two branches give different answers
to the same request, and what they lead to can never be made into the same move: the moves are
apart.  So every listed move is complete, and no move is listed twice.

Main statements: `Rules.resolve_of_mem_legalMoves`, `Rules.apart_legalMoves`.
-/

namespace Tabletop

/-! ## More selections -/

/-- The second dictionary has every value of the first. -/
def Dict.Within {α : Type} (d e : Dict α) : Prop := ∀ k x, d.get? k = some x → e.get? k = some x

namespace Dict.Within

variable {α : Type} {d e f : Dict α}

/-- A dictionary has its own values. -/
theorem refl (d : Dict α) : d.Within d := fun _ _ h => h

/-- What is within a dictionary is within whatever that one is within. -/
theorem trans (hde : d.Within e) (hef : e.Within f) : d.Within f := fun k x h => hef k x (hde k x h)

/-- A new key leaves the other values. -/
theorem insert {k : String} (h : d.get? k = none) (x : α) : d.Within (d.insert k x) := by
  intro l y hl
  have hne : l ≠ k := by
    rintro rfl
    rw [h] at hl
    cases hl
  rw [get?_insert_ne d x hne]
  exact hl

end Dict.Within

namespace Move

/-- The second special activity is the first with more selections. -/
structure Alongside (c d : Accompaniment Move) : Prop where
  timing : d.timing = c.timing
  afterStage : d.afterStage = c.afterStage
  action : d.special.action = c.special.action
  params : c.special.params.Within d.special.params

/-- The second move is the first with more selections, for itself or for its special activity. -/
structure Within (m n : Move) : Prop where
  action : n.action = m.action
  free : n.free = m.free
  classOverride : n.classOverride = m.classOverride
  params : m.params.Within n.params
  compound : Option.Rel Alongside m.compound n.compound

/-- A special activity accompanies as itself. -/
theorem Alongside.refl (c : Accompaniment Move) : Alongside c c := ⟨rfl, rfl, rfl, .refl _⟩

/-- More selections may be added to a special activity twice. -/
theorem Alongside.trans {a b c : Accompaniment Move} (hab : Alongside a b) (hbc : Alongside b c) :
    Alongside a c where
  timing := hbc.timing.trans hab.timing
  afterStage := hbc.afterStage.trans hab.afterStage
  action := hbc.action.trans hab.action
  params := hab.params.trans hbc.params

namespace Within

variable {a b c : Move}

/-- A move is itself, with no more selections. -/
theorem refl (m : Move) : m.Within m where
  action := rfl
  free := rfl
  classOverride := rfl
  params := .refl _
  compound := by
    cases m.compound with
    | none => exact .none
    | some c => exact .some (.refl c)

/-- More selections may be added to a move twice. -/
theorem trans (hab : a.Within b) (hbc : b.Within c) : a.Within c where
  action := hbc.action.trans hab.action
  free := hbc.free.trans hab.free
  classOverride := hbc.classOverride.trans hab.classOverride
  params := hab.params.trans hbc.params
  compound := by
    have h₁ := hab.compound
    have h₂ := hbc.compound
    revert h₁ h₂
    cases a.compound <;> cases b.compound <;> cases c.compound <;> intro h₁ h₂ <;>
      cases h₁ <;> cases h₂
    · exact .none
    · rename_i h₁ h₂
      exact .some (h₁.trans h₂)

end Within

/-- No move is both of two moves with more selections. -/
def Apart (m n : Move) : Prop := ∀ z, m.Within z → ¬ n.Within z

namespace Apart

variable {m n m' n' : Move}

/-- Moves that are apart are different. -/
theorem ne (h : m.Apart n) : m ≠ n := by
  rintro rfl
  exact h m (.refl m) (.refl m)

/-- Moves with more selections stay apart. -/
theorem mono (h : m.Apart n) (hm : m.Within m') (hn : n.Within n') : m'.Apart n' :=
  fun z hz hz' => h z (hm.trans hz) (hn.trans hz')

/-- Moves of different actions are apart. -/
theorem of_action (h : m.action ≠ n.action) : m.Apart n :=
  fun _ hm hn => h (hm.action.symm.trans hn.action)

end Apart

/-! ## Answers -/

variable {m : Move} {q : Request}

/-- The selections of the side to which a request is made. -/
def asked (m : Move) (q : Request) : Dict Selection :=
  match m.compound, q.special with
  | some c, true => c.special.params
  | _, _ => m.params

/-- A move is asked for what the side to which the request is made lacks. -/
theorem Wants.lacks (h : m.Wants q) : (m.asked q).get? q.decision.name = none := by
  unfold asked
  rcases h with ⟨hspecial, hlacks⟩ | ⟨c, hc, hspecial, hlacks⟩
  · rw [hspecial]
    cases m.compound <;> exact hlacks
  · rw [hspecial, hc]
    exact hlacks

/-- An answer adds its selection to the side that is asked. -/
theorem asked_answer (m : Move) (q : Request) (x : Selection) :
    (m.answer q x).asked q = (m.asked q).insert q.decision.name x := by
  unfold asked answer
  cases hc : m.compound with
  | none => simp only [select, hc]
  | some c =>
    cases hq : q.special with
    | true => rfl
    | false => simp only [select, hc]

/-- An answer to what a move lacks leaves its other selections. -/
theorem within_answer (h : m.Wants q) (x : Selection) : m.Within (m.answer q x) := by
  have hlacks := h.lacks
  unfold asked at hlacks
  unfold answer
  have hselect (hlacks : m.params.get? q.decision.name = none) :
      m.Within (m.select q.decision.name x) :=
    ⟨rfl, rfl, rfl, .insert hlacks x, (Within.refl m).compound⟩
  cases hc : m.compound with
  | none =>
    rw [hc] at hlacks
    exact hselect hlacks
  | some c =>
    rw [hc] at hlacks
    cases hq : q.special with
    | false =>
      rw [hq] at hlacks
      exact hselect hlacks
    | true =>
      rw [hq] at hlacks
      refine ⟨rfl, rfl, rfl, .refl _, ?_⟩
      rw [hc]
      exact .some ⟨rfl, rfl, rfl, .insert hlacks x⟩

/-- Selections on the side of a request stay. -/
theorem Within.asked {z : Move} (h : m.Within z) (q : Request) :
    (m.asked q).Within (z.asked q) := by
  have hcompound := h.compound
  unfold Move.asked
  revert hcompound
  cases m.compound <;> cases z.compound <;> intro hcompound <;> cases hcompound
  · exact h.params
  · rename_i halong
    cases q.special with
    | true => exact halong.params
    | false => exact h.params

/-- Different answers to a request set moves apart. -/
theorem apart_answer (m : Move) (q : Request) {x y : Selection} (hne : x ≠ y) :
    (m.answer q x).Apart (m.answer q y) := by
  intro z hx hy
  have hzx := hx.asked q q.decision.name x (by rw [asked_answer, Dict.get?_insert_self])
  have hzy := hy.asked q q.decision.name y (by rw [asked_answer, Dict.get?_insert_self])
  rw [hzx] at hzy
  exact hne (Option.some.inj hzy)

end Move

/-! ## Exploring -/

namespace Rules

variable (r : Rules) (s : State)

/-- What exploring some moves may add to those that have been found: complete moves, each of them
one of the explored moves with more selections, and apart if the explored moves are. -/
def Adds (starts : List Move) (found found' : Array Move) : Prop :=
  ∃ new, found'.toList = found.toList ++ new ∧
    (starts.Pairwise Move.Apart → new.Pairwise Move.Apart) ∧
    ∀ n ∈ new, (∃ m ∈ starts, m.Within n) ∧ ∃ x, r.resolve s n = .ok x

variable {r s}

namespace Adds

variable {starts starts' : List Move} {found found' found'' : Array Move}

/-- Exploring may find nothing. -/
theorem none (starts : List Move) (found : Array Move) : r.Adds s starts found found :=
  ⟨[], (List.append_nil _).symm, fun _ => .nil, fun _ h => absurd h List.not_mem_nil⟩

/-- A move that resolves is found as it is. -/
theorem one {m : Move} {x : Resolution} (h : r.resolve s m = .ok x) (found : Array Move) :
    r.Adds s [m] found (found.push m) := by
  refine ⟨[m], Array.toList_push, fun _ => List.pairwise_singleton _ _, fun n hn => ?_⟩
  obtain rfl := List.mem_singleton.1 hn
  exact ⟨⟨n, List.mem_singleton_self n, .refl n⟩, x, h⟩

/-- What is found from moves is found from moves with fewer selections, as long as those are not
apart. -/
theorem mono (h : r.Adds s starts found found')
    (hstarts : ∀ m ∈ starts, ∃ m' ∈ starts', m'.Within m)
    (hapart : starts'.Pairwise Move.Apart → starts.Pairwise Move.Apart) :
    r.Adds s starts' found found' := by
  obtain ⟨new, hfound, hnew, hwithin⟩ := h
  refine ⟨new, hfound, fun h => hnew (hapart h), fun n hn => ?_⟩
  obtain ⟨⟨m, hm, hmn⟩, hcomplete⟩ := hwithin n hn
  obtain ⟨m', hm', hmm⟩ := hstarts m hm
  exact ⟨⟨m', hm', hmm.trans hmn⟩, hcomplete⟩

/-- Exploring some moves and then others adds what both add. -/
theorem trans (h : r.Adds s starts found found') (h' : r.Adds s starts' found' found'') :
    r.Adds s (starts ++ starts') found found'' := by
  obtain ⟨new, hfound, hnew, hwithin⟩ := h
  obtain ⟨new', hfound', hnew', hwithin'⟩ := h'
  refine ⟨new ++ new', by rw [hfound', hfound, List.append_assoc], fun hapart => ?_, fun n hn => ?_⟩
  · obtain ⟨hstarts, hstarts', hacross⟩ := List.pairwise_append.1 hapart
    refine List.pairwise_append.2 ⟨hnew hstarts, hnew' hstarts', fun n hn n' hn' => ?_⟩
    obtain ⟨⟨m, hm, hmn⟩, -⟩ := hwithin n hn
    obtain ⟨⟨m', hm', hmn'⟩, -⟩ := hwithin' n' hn'
    exact (hacross m hm m' hm').mono hmn hmn'
  · rcases List.mem_append.1 hn with hn | hn
    · obtain ⟨⟨m, hm, hmn⟩, hcomplete⟩ := hwithin n hn
      exact ⟨⟨m, List.mem_append_left _ hm, hmn⟩, hcomplete⟩
    · obtain ⟨⟨m, hm, hmn⟩, hcomplete⟩ := hwithin' n hn
      exact ⟨⟨m, List.mem_append_right _ hm, hmn⟩, hcomplete⟩

/-- Exploring loses nothing that has been found. -/
theorem size_le (h : r.Adds s starts found found') : found.size ≤ found'.size := by
  obtain ⟨new, hfound, -⟩ := h
  have hlength := congrArg List.length hfound
  rw [List.length_append, Array.length_toList, Array.length_toList] at hlength
  omega

/-- What is added from several moves, one after the other. -/
theorem foldlM {γ : Type} {f : Array Move → γ → Result (Array Move)} {start : γ → Move}
    (hf : ∀ c found found', f found c = .ok found' → r.Adds s [start c] found found') :
    ∀ {l : List γ} {found found' : Array Move},
      l.foldlM f found = .ok found' → r.Adds s (l.map start) found found'
  | [], found, _, h => by
    cases h
    exact .none _ found
  | c :: l, found, found', h => by
    rw [List.foldlM_cons] at h
    obtain ⟨found₁, hstep, hrest⟩ := bind_eq_ok h
    exact (hf c found found₁ hstep).trans (foldlM hf hrest)

end Adds

/-- Exploring a move adds complete moves that are apart. -/
theorem explore_adds {cap : Nat} :
    ∀ {fuel : Nat} {m : Move} {found found' : Array Move},
      r.explore s cap fuel m found = .ok found' → r.Adds s [m] found found'
  | 0, m, found, _, h => by
    cases h
    exact .none _ found
  | fuel + 1, m, found, found', h => by
    have hasks := r.resolve_asks s m
    rw [explore] at h
    split at h
    · cases h
      exact .none _ found
    · cases hresolve : r.resolve s m with
      | ok x =>
        rw [hresolve] at h
        cases h
        exact .one hresolve found
      | error st =>
        rw [hresolve] at h hasks
        cases st with
        | refused rejection =>
          cases h
          exact .none _ found
        | fault fault => cases h
        | pending q =>
          obtain ⟨hwants, hclear⟩ := hasks
          refine (Adds.foldlM (fun x _ _ hx => explore_adds hx) h).mono (fun n hn => ?_)
            (fun _ => ?_)
          · obtain ⟨x, -, rfl⟩ := List.mem_map.1 hn
            exact ⟨m, List.mem_singleton_self m, Move.within_answer hwants x⟩
          · -- Every choice opens a branch, and the branches are apart.
            exact List.pairwise_map.2 ((Decision.nodup_choices hclear).imp (m.apart_answer q))

/-- Exploring several moves adds complete moves, apart if the explored moves are. -/
theorem exploreAll_adds {cap : Nat} :
    ∀ {ms : List Move} {found found' : Array Move},
      r.exploreAll s cap ms found = .ok found' → r.Adds s ms found found'
  | [], found, _, h => by
    cases h
    exact .none _ found
  | m :: ms, found, found', h => by
    rw [exploreAll] at h
    obtain ⟨found₁, hstep, hrest⟩ := bind_eq_ok h
    exact (explore_adds hstep).trans (exploreAll_adds hrest)

/-- Exploring does not come past a move that comes to a fault, unless enough moves have been found
before. -/
theorem size_of_exploreAll {cap : Nat} {m : Move} {fault : Fault}
    (hfault : r.resolve s m = .error (.fault fault)) :
    ∀ {ms : List Move} {found found' : Array Move}, m ∈ ms →
      r.exploreAll s cap ms found = .ok found' → cap ≤ found'.size
  | [], _, _, hm, _ => absurd hm List.not_mem_nil
  | n :: ms, found, found', hm, h => by
    rw [exploreAll] at h
    obtain ⟨found₁, hstep, hrest⟩ := bind_eq_ok h
    rcases List.mem_cons.1 hm with rfl | hm
    · have hmore : found₁.size ≤ found'.size := (exploreAll_adds hrest).size_le
      unfold depthOf at hstep
      rw [explore, hfault] at hstep
      split at hstep
      · cases hstep
        omega
      · cases hstep
    · exact size_of_exploreAll hfault hm hrest

/-! ## Moves with special activities -/

section

variable {host host' : Move}

/-- What a move with a special activity can be made into, its host can be made into but for the
special activity. -/
theorem within_of_accompanied (hhost : host.compound = none) {special : Move} {timing : Timing}
    {afterStage : Option UInt64} {z : Move}
    (h : (host.accompaniedBy special timing afterStage).Within z) :
    host.Within { z with compound := none } where
  action := h.action
  free := h.free
  classOverride := h.classOverride
  params := h.params
  compound := by
    rw [hhost]
    exact .none

/-- A move with more selections than an accompanied one is accompanied by that special activity with
more selections. -/
theorem accompanied_of_within {special : Move} {timing : Timing} {afterStage : Option UInt64}
    {z : Move} (h : (host.accompaniedBy special timing afterStage).Within z) :
    ∃ c, z.compound = some c ∧
      Move.Alongside { special, timing, afterStage } c := by
  have hcompound := h.compound
  revert hcompound
  cases z.compound with
  | none =>
    intro hcompound
    cases hcompound
  | some c =>
    intro hcompound
    cases hcompound with
    | some halong => exact ⟨c, rfl, halong⟩

/-- Special activities with other actions, or at other times, set moves apart. -/
theorem apart_accompanied {special special' : Move} {t t' : Timing × Option UInt64}
    (hne : special.action ≠ special'.action ∨ t ≠ t') :
    (host.accompaniedBy special t.1 t.2).Apart (host.accompaniedBy special' t'.1 t'.2) := by
  intro z h h'
  obtain ⟨c, hc, hcz⟩ := accompanied_of_within h
  obtain ⟨c', hc', hcz'⟩ := accompanied_of_within h'
  rw [hc] at hc'
  cases hc'
  rcases hne with hne | hne
  · exact hne (hcz.action.symm.trans hcz'.action)
  · exact hne (Prod.ext (hcz.timing.symm.trans hcz'.timing)
      (hcz.afterStage.symm.trans hcz'.afterStage))

/-- The times at which a special activity is tried are all different. -/
theorem nodup_timings (stages : Nat) : (timings stages).Nodup := by
  unfold timings
  refine List.Nodup.append (by decide) ?_ ?_
  · refine List.Nodup.map_on (fun k hk l hl heq => ?_) List.nodup_range
    have hk := List.mem_range.1 hk
    have hl := List.mem_range.1 hl
    have hnat : (UInt64.ofNat k).toNat = (UInt64.ofNat l).toNat := by
      rw [Option.some.inj (Prod.mk.inj heq).2]
    rwa [UInt64.toNat_ofNat_of_lt' (by omega), UInt64.toNat_ofNat_of_lt' (by omega)] at hnat
  · intro t ht ht'
    obtain ⟨k, -, rfl⟩ := List.mem_map.1 ht'
    simp at ht

/-- What is left without repeats has none; the number bounds the length for the induction. -/
theorem nodup_eraseDups {α : Type} [BEq α] [LawfulBEq α] :
    ∀ (n : Nat) (l : List α), l.length ≤ n → l.eraseDups.Nodup
  | _, [], _ => by
    rw [List.eraseDups_nil]
    exact .nil
  | n + 1, a :: l, h => by
    rw [List.eraseDups_cons]
    have hlength := Nat.le_trans (List.length_filter_le (fun b => !b == a) l)
      (Nat.le_of_succ_le_succ h)
    refine List.nodup_cons.2 ⟨fun ha => ?_, nodup_eraseDups n _ hlength⟩
    simpa using List.mem_eraseDups.1 ha

/-- The moves with a special activity that are explored for a host are apart. -/
theorem apart_compoundsOf (r : Rules) (host : Move) :
    (r.compoundsOf host).Pairwise Move.Apart := by
  unfold compoundsOf
  refine List.pairwise_flatMap.2 ⟨fun special _ => ?_, ?_⟩
  · exact List.pairwise_map.2 ((nodup_timings _).imp (fun hne => apart_accompanied (.inr hne)))
  · refine (nodup_eraseDups _ _ (Nat.le_refl _)).imp (fun {special special'} hne m hm m' hm' => ?_)
    obtain ⟨t, -, rfl⟩ := List.mem_map.1 hm
    obtain ⟨t', -, rfl⟩ := List.mem_map.1 hm'
    exact apart_accompanied (.inl hne)

/-- Hosts that are apart stay apart with special activities. -/
theorem apart_compoundsOf_hosts (r : Rules) (hhost : host.compound = none)
    (hhost' : host'.compound = none) (hapart : host.Apart host') :
    ∀ m ∈ r.compoundsOf host, ∀ m' ∈ r.compoundsOf host', m.Apart m' := by
  intro m hm m' hm' z hz hz'
  obtain ⟨special, -, hm⟩ := List.mem_flatMap.1 hm
  obtain ⟨special', -, hm'⟩ := List.mem_flatMap.1 hm'
  obtain ⟨t, -, rfl⟩ := List.mem_map.1 hm
  obtain ⟨t', -, rfl⟩ := List.mem_map.1 hm'
  exact hapart _ (within_of_accompanied hhost hz) (within_of_accompanied hhost' hz')

/-- A move without a special activity is apart from every one with a special activity. -/
theorem apart_compound (r : Rules) {n : Move} (hn : n.compound = none) :
    ∀ m ∈ r.compoundsOf host, n.Apart m := by
  intro m hm z hz hz'
  obtain ⟨special, -, hm⟩ := List.mem_flatMap.1 hm
  obtain ⟨t, -, rfl⟩ := List.mem_map.1 hm
  obtain ⟨c, hc, -⟩ := accompanied_of_within hz'
  have hcompound := hz.compound
  rw [hn, hc] at hcompound
  cases hcompound

end

/-! ## The list -/

section

variable {r : Rules} {s : State} {cap : Nat} {compounds : Bool} {found : List Move}

/-- The moves from which the actions are explored. -/
def bareMoves (r : Rules) (s : State) : List Move :=
  r.definition.actions.map (fun a => r.bareMove s a.id)

/-- How a list of legal moves has come about. -/
theorem legalMoves_eq_ok (h : r.legalMoves s cap compounds = .ok found) :
    (found = [] ∧ ∃ outcome, r.game.outcome? s = .ok (some outcome)) ∨
      ∃ plain, r.exploreAll s cap (r.bareMoves s) #[] = .ok plain ∧
        (found = plain.toList ∨ ∃ all,
          r.exploreAll s cap (plain.toList.flatMap r.compoundsOf) plain = .ok all ∧
            found = all.toList) := by
  obtain ⟨outcome, houtcome, h⟩ := bind_eq_ok h
  split at h
  · rename_i hover
    obtain ⟨o, rfl⟩ := Option.isSome_iff_exists.1 hover
    cases h
    exact .inl ⟨rfl, o, houtcome⟩
  · right
    obtain ⟨plain, hplain, h⟩ := bind_eq_ok h
    refine ⟨plain, hplain, ?_⟩
    split at h
    · obtain ⟨all, hall, h⟩ := bind_eq_ok h
      cases h
      exact .inr ⟨all, hall, rfl⟩
    · cases h
      exact .inl rfl

/-- Every listed move is complete. -/
theorem resolve_of_mem_legalMoves (h : r.legalMoves s cap compounds = .ok found) {m : Move}
    (hm : m ∈ found) : ∃ x, r.resolve s m = .ok x := by
  rcases legalMoves_eq_ok h with ⟨rfl, -⟩ | ⟨plain, hplain, hfound⟩
  · exact absurd hm List.not_mem_nil
  obtain ⟨new, hnew, -, hcomplete⟩ := exploreAll_adds hplain
  rw [show plain.toList = new from hnew] at hfound
  rcases hfound with rfl | ⟨all, hall, rfl⟩
  · exact (hcomplete m hm).2
  · obtain ⟨new', hnew', -, hcomplete'⟩ := exploreAll_adds hall
    rw [hnew', hnew] at hm
    rcases List.mem_append.1 hm with hm | hm
    · exact (hcomplete m hm).2
    · exact (hcomplete' m hm).2

/-- No list of legal moves goes past an action that comes to a fault at once, unless it is full. -/
theorem length_of_legalMoves {m : Move} {fault : Fault} (hm : m ∈ r.bareMoves s)
    (hfault : r.resolve s m = .error (.fault fault))
    (h : r.legalMoves s cap compounds = .ok found) : cap ≤ found.length := by
  rcases legalMoves_eq_ok h with ⟨-, outcome, hover⟩ | ⟨plain, hplain, hfound⟩
  · unfold resolve at hfault
    rw [hover] at hfault
    cases hfault
  · have hfull : cap ≤ plain.size := size_of_exploreAll hfault hm hplain
    rcases hfound with rfl | ⟨all, hall, rfl⟩
    · rw [Array.length_toList]
      exact hfull
    · have hmore : plain.size ≤ all.size := (exploreAll_adds hall).size_le
      rw [Array.length_toList]
      omega

/-- No list of legal moves with special activities goes past one that comes to a fault at once for a
host that has been found, unless it is full. -/
theorem length_of_legalMoves_compound {m host : Move} {plain : List Move} {fault : Fault}
    (hplain : r.legalMoves s cap false = .ok plain) (hhost : host ∈ plain)
    (hm : m ∈ r.compoundsOf host) (hfault : r.resolve s m = .error (.fault fault))
    (h : r.legalMoves s cap true = .ok found) : cap ≤ found.length := by
  obtain ⟨outcome, houtcome, hplain⟩ := bind_eq_ok hplain
  obtain ⟨outcome', houtcome', h⟩ := bind_eq_ok h
  obtain rfl : outcome = outcome' := Except.ok.inj (houtcome.symm.trans houtcome')
  cases outcome with
  | some o =>
    cases hplain
    exact absurd hhost List.not_mem_nil
  | none =>
    obtain ⟨hosts, hhosts, hplain⟩ := bind_eq_ok hplain
    obtain ⟨hosts', hhosts', h⟩ := bind_eq_ok h
    obtain rfl : hosts = hosts' := Except.ok.inj (hhosts.symm.trans hhosts')
    cases hplain
    obtain ⟨all, hall, h⟩ := bind_eq_ok h
    cases h
    rw [Array.length_toList]
    exact size_of_exploreAll hfault (List.mem_flatMap.2 ⟨host, hhost, hm⟩) hall

/-- The moves without selections, of actions with different ids, are apart. -/
theorem apart_bareMoves (hids : (r.definition.actions.map (·.id)).Nodup) :
    (r.bareMoves s).Pairwise Move.Apart :=
  List.pairwise_map.2 ((List.pairwise_map.1 hids).imp (fun hne => .of_action hne))

/-- Listed moves are apart, if no two actions share an id. -/
theorem apart_legalMoves (hids : (r.definition.actions.map (·.id)).Nodup)
    (h : r.legalMoves s cap compounds = .ok found) : found.Pairwise Move.Apart := by
  rcases legalMoves_eq_ok h with ⟨rfl, -⟩ | ⟨plain, hplain, hfound⟩
  · exact .nil
  obtain ⟨new, hnew, hapart, hwithin⟩ := exploreAll_adds hplain
  have hplainApart := hapart (apart_bareMoves hids)
  -- A move that is made out of a bare one has no special activity.
  have hbare : ∀ n ∈ new, n.compound = none := by
    intro n hn
    obtain ⟨⟨m, hm, hmn⟩, -⟩ := hwithin n hn
    obtain ⟨a, -, rfl⟩ := List.mem_map.1 hm
    have hcompound := hmn.compound
    revert hcompound
    cases n.compound with
    | none => exact fun _ => rfl
    | some c =>
      intro hcompound
      cases hcompound
  rw [show plain.toList = new from hnew] at hfound
  rcases hfound with rfl | ⟨all, hall, rfl⟩
  · exact hplainApart
  · obtain ⟨new', hnew', hapart', hwithin'⟩ := exploreAll_adds hall
    rw [hnew', hnew]
    refine List.pairwise_append.2 ⟨hplainApart, hapart' ?_, fun n hn n' hn' => ?_⟩
    · refine List.pairwise_flatMap.2 ⟨fun host _ => apart_compoundsOf r host, ?_⟩
      refine List.Pairwise.imp_of_mem ?_ hplainApart
      exact fun hhost hhost' hapart =>
        apart_compoundsOf_hosts r (hbare _ hhost) (hbare _ hhost') hapart
    · obtain ⟨⟨m, hm, hmn⟩, -⟩ := hwithin' n' hn'
      obtain ⟨host, -, hm⟩ := List.mem_flatMap.1 hm
      exact (apart_compound r (hbare n hn) m hm).mono (.refl n) hmn

/-- Where a seat has a legal move, some move is complete. -/
theorem exists_resolve_of_hasLegalMove (h : r.hasLegalMove s = .ok true) :
    ∃ m x, r.resolve s m = .ok x := by
  obtain ⟨found, hfound, h⟩ := bind_eq_ok h
  cases found with
  | nil => cases h
  | cons m ms => exact ⟨m, resolve_of_mem_legalMoves hfound List.mem_cons_self⟩

end

end Rules

end Tabletop
