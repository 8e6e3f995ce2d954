import Tabletop.Proofs.Effect.Calls
import Tabletop.Proofs.Effect.Modes
import Tabletop.Proofs.Play.Choices

/-!
# The choices for a decision and the selections that are accepted

Two things say what may be selected: the list of the choices for a decision, and the effect that
looks at a selection.  They agree.  The choices among several options are the subsets of the options
of an allowed size, each once, as arrays in the order of the domain; the effect accepts the arrays
that are such a subset in some order, and nothing else.

The first half is about `Decision.choices` alone (`Decision.Clear.exists_lists`).  For the second, a
run that stops for a selection is followed to the call that asked, and the run with the selection to
the same call (`Calls.adding`).

Main statement: `Session.choices_of_pending`.
-/

namespace Tabletop

/-! ## Sublists of a list without repetition -/

section

variable {α : Type}

/-- Combinations of items whose positions increase come in the lexicographic order of positions. -/
theorem combinations_pairwise_lex {position : α → Nat} :
    ∀ {n : Nat} {xs : List α}, xs.Pairwise (fun a b => position a < position b) →
      (combinations n xs).Pairwise
        (fun ys zs => List.Lex (· < ·) (ys.map position) (zs.map position))
  | 0, xs, _ => by
    rw [combinations]
    exact List.pairwise_singleton _ _
  | n + 1, [], _ => by
    rw [combinations]
    exact .nil
  | n + 1, x :: xs, h => by
    obtain ⟨hx, hxs⟩ := List.pairwise_cons.1 h
    rw [combinations, List.pairwise_append]
    refine ⟨?_, combinations_pairwise_lex hxs, ?_⟩
    · rw [List.pairwise_map]
      exact (combinations_pairwise_lex hxs).imp (fun hlex => .cons hlex)
    · -- Those that hold the first item come before those whose first item is a later one.
      intro ys hwith zs hwithout
      obtain ⟨ys, -, rfl⟩ := List.mem_map.1 hwith
      obtain ⟨hsublist, hlength⟩ := mem_combinations.1 hwithout
      cases zs with
      | nil => cases hlength
      | cons z zs => exact .rel (hx z (hsublist.subset List.mem_cons_self))

variable [DecidableEq α]

/-- Positions in a list without repetition increase. -/
theorem pairwise_idxOf_lt {xs : List α} (h : xs.Nodup) :
    xs.Pairwise (fun a b => xs.idxOf a < xs.idxOf b) := by
  rw [List.pairwise_iff_getElem]
  intro i j hi hj hij
  rw [h.idxOf_getElem i hi, h.idxOf_getElem j hj]
  exact hij

/-- A sublist of a list without repetition keeps the items that are in it. -/
theorem filter_mem_eq {xs ys : List α} (h : xs.Nodup) (hs : ys.Sublist xs) :
    xs.filter (· ∈ ys) = ys := by
  have hfilter := (List.filter_sublist (p := (· ∈ ys)) (l := xs))
  apply (h.perm_iff_eq_of_sublist hfilter hs).1
  rw [List.perm_ext_iff_of_nodup (h.sublist hfilter) (h.sublist hs)]
  intro a
  simp only [List.mem_filter, decide_eq_true_eq]
  exact ⟨fun ha => ha.2, fun ha => ⟨hs.subset ha, ha⟩⟩

/-- A subset of a list without repetition has as many members as are kept of the list. -/
theorem length_filter_mem {xs : List α} (h : xs.Nodup) {S : Finset α} (hS : S ⊆ xs.toFinset) :
    (xs.filter (· ∈ S)).length = S.card := by
  have hmembers : (xs.filter (· ∈ S)).toFinset = S := by
    ext a
    simp only [List.mem_toFinset, List.mem_filter, decide_eq_true_eq, and_iff_right_iff_imp]
    exact fun ha => List.mem_toFinset.1 (hS ha)
  rw [← List.toFinset_card_of_nodup (h.filter _), hmembers]

end

/-! ## The list of the choices -/

namespace Decision

/-- The options of a decision, as selections name them. -/
def options (d : Decision) : List Scalar := d.domain.filterMap Value.identity?

/-- One array of options comes before another: it is shorter, or as long and before it in the
lexicographic order of the positions of options. -/
def Precedes (d : Decision) (xs ys : List Scalar) : Prop :=
  xs.length < ys.length ∨ xs.length = ys.length ∧
    List.Lex (· < ·) (xs.map (d.options.idxOf ·)) (ys.map (d.options.idxOf ·))

/-- The arrays are the sets of options of an allowed size, each set once, as the array of its
members in the order of the domain, and in their order. -/
structure Lists (d : Decision) (listed : List (List Scalar)) : Prop where
  mem_iff : ∀ xs, xs ∈ listed ↔ ∃ S ⊆ d.options.toFinset,
    d.min ≤ S.card ∧ S.card ≤ Min.min d.max d.domain.length ∧ xs = d.options.filter (· ∈ S)
  nodup : listed.Nodup
  ordered : listed.Pairwise d.Precedes

variable {d : Decision}

/-- Options that are told apart by their identities are different as selections. -/
theorem Clear.nodup_options (h : d.Clear) : d.options.Nodup := h.nodup

/-- Every value of the domain is an option. -/
theorem Clear.length_options (h : d.Clear) : d.options.length = d.domain.length :=
  List.filterMap_length_eq_length.2 h.identified

/-- A decision offers exactly its options. -/
theorem offers_iff_mem_options (x : Scalar) : d.Offers x ↔ x ∈ d.options := by
  rw [options, List.mem_filterMap]
  rfl

/-- The choices among several options are the sublists of the options that have an allowed
length. -/
theorem mem_choices_iff (hkind : d.kind = .chooseN) (xs : List Scalar) :
    .many xs ∈ d.choices ↔ xs.Sublist d.options ∧ d.min ≤ xs.length ∧ xs.length ≤ d.max := by
  simp only [choices, hkind]
  rw [List.mem_map_of_injective (fun _ _ heq => Selection.many.inj heq), List.mem_flatMap]
  constructor
  · rintro ⟨n, hn, hxs⟩
    obtain ⟨k, hk, rfl⟩ := List.mem_map.1 hn
    obtain ⟨hsublist, hlength⟩ := mem_combinations.1 hxs
    have hk' := List.mem_range.1 hk
    exact ⟨hsublist, by omega, by omega⟩
  · rintro ⟨hsublist, hleast, hmost⟩
    have hlength := hsublist.length_le
    unfold options at hlength
    refine ⟨xs.length, List.mem_map.2 ⟨xs.length - d.min, List.mem_range.2 ?_, ?_⟩,
      mem_combinations.2 ⟨hsublist, rfl⟩⟩
    · omega
    · omega

/-- The sublists of the options that have an allowed length are the subsets of an allowed size. -/
theorem Clear.sublist_iff (h : d.Clear) (xs : List Scalar) :
    (xs.Sublist d.options ∧ d.min ≤ xs.length ∧ xs.length ≤ d.max) ↔
      ∃ S ⊆ d.options.toFinset, d.min ≤ S.card ∧ S.card ≤ Min.min d.max d.domain.length ∧
        xs = d.options.filter (· ∈ S) := by
  rw [← h.length_options]
  constructor
  · rintro ⟨hsublist, hleast, hmost⟩
    have hcard := List.toFinset_card_of_nodup (h.nodup_options.sublist hsublist)
    refine ⟨xs.toFinset, ?_, ?_, ?_, ?_⟩
    · intro x hx
      exact List.mem_toFinset.2 (hsublist.subset (List.mem_toFinset.1 hx))
    · exact hcard ▸ hleast
    · exact hcard ▸ Nat.le_min.2 ⟨hmost, hsublist.length_le⟩
    · simp only [List.mem_toFinset]
      exact (filter_mem_eq h.nodup_options hsublist).symm
  · rintro ⟨S, hS, hleast, hmost, rfl⟩
    rw [length_filter_mem h.nodup_options hS]
    exact ⟨List.filter_sublist, hleast, (Nat.le_min.1 hmost).1⟩

/-- Combinations of the options come in the order of arrays, if their sizes increase. -/
theorem Clear.pairwise_precedes (h : d.Clear) {sizes : List Nat} (hsizes : sizes.Pairwise (· < ·)) :
    (sizes.flatMap (combinations · d.options)).Pairwise d.Precedes := by
  rw [List.pairwise_flatMap]
  constructor
  · intro n _
    have hlex := combinations_pairwise_lex (n := n) (pairwise_idxOf_lt h.nodup_options)
    refine hlex.imp_of_mem (fun {xs ys} hxs hys hprecedes => .inr ⟨?_, hprecedes⟩)
    rw [(mem_combinations.1 hxs).2, (mem_combinations.1 hys).2]
  · refine hsizes.imp (fun {m n} hlt xs hxs ys hys => .inl ?_)
    rw [(mem_combinations.1 hxs).2, (mem_combinations.1 hys).2]
    exact hlt

/-- The choices for a clear decision over several options list the sets of options. -/
theorem Clear.exists_lists (h : d.Clear) (hkind : d.kind = .chooseN) :
    ∃ listed : List (List Scalar), d.choices = listed.map .many ∧ d.Lists listed := by
  have hinjective : Function.Injective Selection.many := fun _ _ heq => Selection.many.inj heq
  obtain ⟨sizes, hsizes, hchoices⟩ : ∃ sizes : List Nat, sizes.Pairwise (· < ·) ∧
      d.choices = (sizes.flatMap (combinations · d.options)).map .many := by
    simp only [choices, hkind]
    refine ⟨_, ?_, rfl⟩
    rw [List.pairwise_map]
    exact List.pairwise_lt_range.imp (fun hlt => Nat.add_lt_add_left hlt d.min)
  refine ⟨_, hchoices, ?_, ?_, h.pairwise_precedes hsizes⟩
  · intro xs
    rw [← h.sublist_iff, ← mem_choices_iff hkind, hchoices, List.mem_map_of_injective hinjective]
  · have hnodup := nodup_choices h
    rw [hchoices] at hnodup
    exact hnodup.of_map _

/-- The choices for a clear decision over one option are the options. -/
theorem Clear.choices_eq (h : d.Clear) (hkind : d.kind = .chooseOne) :
    d.choices = d.options.map .one ∧ d.choices.Nodup := by
  refine ⟨?_, nodup_choices h⟩
  simp only [choices, hkind]
  rfl

/-! ## The selections that fit -/

/-- An array fits if it is one of the choices, in some order. -/
theorem Clear.takes_iff_perm (h : d.Clear) (hkind : d.kind = .chooseN) (v : Selection) :
    d.Takes (.ofSelection v) ↔ ∃ xs ys, v = .many ys ∧ .many xs ∈ d.choices ∧ ys.Perm xs := by
  rw [h.takes_iff]
  constructor
  · intro hfits
    cases v with
    | one x => exact absurd (hfits.1.symm.trans hkind) (by decide)
    | many ys =>
      obtain ⟨-, hnodup, hleast, hmost, hoffers⟩ := hfits
      -- The options that are among the items are the items in the order of the domain.
      have hperm : ys.Perm (d.options.filter (· ∈ ys)) := by
        rw [List.perm_ext_iff_of_nodup hnodup (h.nodup_options.filter _)]
        intro x
        simp only [List.mem_filter, decide_eq_true_eq, iff_and_self]
        exact fun hx => (offers_iff_mem_options x).1 (hoffers x hx)
      refine ⟨_, ys, rfl, (mem_choices_iff hkind _).2 ⟨List.filter_sublist, ?_, ?_⟩, hperm⟩
      · exact hperm.length_eq ▸ hleast
      · exact hperm.length_eq ▸ hmost
  · rintro ⟨xs, ys, rfl, hxs, hperm⟩
    obtain ⟨hsublist, hleast, hmost⟩ := (mem_choices_iff hkind xs).1 hxs
    refine ⟨hkind, ?_, ?_, ?_, ?_⟩
    · exact hperm.nodup_iff.2 (h.nodup_options.sublist hsublist)
    · exact hperm.length_eq ▸ hleast
    · exact hperm.length_eq ▸ hmost
    · intro x hx
      exact (offers_iff_mem_options x).2 (hsublist.subset (hperm.mem_iff.1 hx))

/-- A selection of one option fits if it is one of the choices. -/
theorem Clear.takes_iff_mem (h : d.Clear) (hkind : d.kind = .chooseOne) (v : Selection) :
    d.Takes (.ofSelection v) ↔ v ∈ d.choices := by
  rw [h.takes_iff, (h.choices_eq hkind).1, List.mem_map]
  cases v with
  | one x =>
    simp only [Fits, hkind, true_and, offers_iff_mem_options, Selection.one.injEq, exists_eq_right]
  | many xs =>
    simp only [Fits, hkind, reduceCtorEq, false_and, and_false, exists_false]

end Decision

/-! ## The selections that are accepted -/

/-- Bindings that have a value below them under a free name have it bound. -/
theorem Widening.below_iff_bind {b b' : Bindings} {name : String} (h : b.get? name = none)
    (v : Value) : (Widening.adding (Bindings.bind ∅ name v)).Below b b' ↔
      ∀ other, b'.get? other = (b.bind name v).get? other := by
  apply forall_congr'
  intro other
  suffices heq : (b.get? other).or ((Bindings.bind ∅ name v).get? other) =
      (b.bind name v).get? other by
    rw [← heq]
    rfl
  simp only [Bindings.get?, Bindings.bind, List.lookup_cons] at h ⊢
  by_cases hother : other = name
  · subst hother
    rw [h]
    simp
  · rw [beq_eq_false_iff_ne.2 hother]
    exact Option.or_none

namespace Call

/-- A call accepts what it looks at: it does not stop. -/
def Accepts (c : Call) : Prop := ∃ y, c.run = .ok y

/-- The name under which a call asks is free, and what comes in under it is accepted if it is taken
for an answer, and refused if not. -/
structure Answers (c : Call) (d : Decision) : Prop where
  free : c.site.bindings.get? d.name = none
  accepts : ∀ v b', (Widening.adding (Bindings.bind ∅ d.name v)).Below c.site.bindings b' →
    d.Takes v → (c.under b').Accepts
  refuses : ∀ v b', (Widening.adding (Bindings.bind ∅ d.name v)).Below c.site.bindings b' →
    ¬d.Takes v → ∃ cause, (c.under b').run = .error (.refused d.name cause)

section

variable {e : Effect} {choice : Site → Attempt Bindings} {s : Site} {x : Session} {d : Decision}

/-- A choice does with its answer what its operation does. -/
theorem answers_of_choice (hrun : ∀ s, e.run s x = do return (x, ← choice s))
    (hfree : s.bindings.get? d.name = none)
    (hreplied : ∀ p b' v, (Widening.adding p).Below s.bindings b' → p.get? d.name = some v →
      (d.Takes v → ∃ c, choice (s.under b') = .ok c) ∧
        (¬d.Takes v → ∃ cause, choice (s.under b') = .error (.refused d.name cause))) :
    Call.Answers ⟨e, s, x⟩ d := by
  have hbound (v : Value) : (Bindings.bind ∅ d.name v).get? d.name = some v := by
    simp [Bindings.get?, Bindings.bind]
  refine ⟨hfree, ?_, ?_⟩
  · intro v b' hb htakes
    obtain ⟨c, hc⟩ := (hreplied _ b' v hb (hbound v)).1 htakes
    exact ⟨(x, c), (hrun _).trans (bind_ok hc rfl)⟩
  · intro v b' hb hnot
    obtain ⟨cause, hcause⟩ := (hreplied _ b' v hb (hbound v)).2 hnot
    exact ⟨cause, (hrun _).trans (bind_error hcause)⟩

end

/-- A choice of one option answers its decision. -/
theorem answers_chooseOne {bind : String} {options : Query} {s : Site} {x : Session} {d : Decision}
    (h : Call.run ⟨.chooseOne bind options, s, x⟩ = .error (.pending d)) :
    d.kind = .chooseOne ∧ Call.Answers ⟨.chooseOne bind options, s, x⟩ d := by
  have hpending := choice_eq_pending (Effect.run_chooseOne s x bind options) h
  obtain ⟨name, domain, -, -, hfree, -, hd⟩ := s.chooseOne_eq_pending x hpending
  refine ⟨hd ▸ rfl, answers_of_choice (Effect.run_chooseOne · x bind options) (hd ▸ hfree) ?_⟩
  intro p b' v hb hv
  exact s.chooseOne_replied x hb bind options hpending hv

/-- A choice of several options answers its decision. -/
theorem answers_chooseN {bind : String} {options : Query} {cardinality : Cardinality} {s : Site}
    {x : Session} {d : Decision}
    (h : Call.run ⟨.chooseN bind options cardinality, s, x⟩ = .error (.pending d)) :
    d.kind = .chooseN ∧ Call.Answers ⟨.chooseN bind options cardinality, s, x⟩ d := by
  have hpending := choice_eq_pending (Effect.run_chooseN s x bind options cardinality) h
  obtain ⟨name, domain, min, max, -, -, -, -, hfree, -, hd⟩ := s.chooseN_eq_pending x hpending
  refine ⟨hd ▸ rfl,
    answers_of_choice (Effect.run_chooseN · x bind options cardinality) (hd ▸ hfree) ?_⟩
  intro p b' v hb hv
  exact s.chooseN_replied x hb bind options cardinality hpending hv

end Call

namespace Session

/-- A run with a value under a name comes to a call of the run without it again, with nothing but
the value added to what is in scope there. -/
def MakesWith (x : Session) (setting : Setting) (root : String) (b : Bindings)
    (effects : List Effect) (c : Call) (name : String) (v : Value) (b' : Bindings) : Prop :=
  x.Makes setting root (b.bind name v) effects (c.under b') ∧
    ∀ other, b'.get? other = (c.site.bindings.bind name v).get? other

/-- In the run with a selection for a decision, the call that asked for it accepts just the
selections with a property; any other is refused there under the name of the decision, which ends
the run. -/
def AcceptsJust (x : Session) (setting : Setting) (root : String) (b : Bindings)
    (effects : List Effect) (c : Call) (d : Decision) (fits : Selection → Prop) : Prop :=
  ∀ v : Selection, ∃ b', x.MakesWith setting root b effects c d.name (.ofSelection v) b' ∧
    ((c.under b').Accepts ↔ fits v) ∧
    (¬fits v → ∃ cause, x.run setting root (b.bind d.name (.ofSelection v)) effects =
      .error (.refused d.name cause))

variable {x : Session} {setting : Setting} {root : String} {b : Bindings} {effects : List Effect}
  {d : Decision}

/-- A call that answers accepts just the selections that are taken for an answer. -/
theorem acceptsJust_takes {c : Call} (hmakes : x.Makes setting root b effects c)
    (hfree : b.get? d.name = none) (hanswers : c.Answers d) :
    x.AcceptsJust setting root b effects c d (fun v => d.Takes (.ofSelection v)) := by
  intro v
  have hbelow := (Widening.below_iff_bind hfree (.ofSelection v)).2 (fun _ => rfl)
  obtain ⟨b', hcall, hagain⟩ := hmakes.adding hbelow
  refine ⟨b', ⟨hagain, (Widening.below_iff_bind hanswers.free _).1 hcall⟩, ⟨?_, ?_⟩, ?_⟩
  · rintro ⟨y, hy⟩
    by_contra hnot
    obtain ⟨cause, hcause⟩ := hanswers.refuses _ b' hcall hnot
    cases hy.symm.trans hcause
  · exact hanswers.accepts _ b' hcall
  · intro hnot
    obtain ⟨cause, hcause⟩ := hanswers.refuses _ b' hcall hnot
    exact ⟨cause, hagain.run_error hcause⟩

/-- Properties that hold of the same selections are accepted alike. -/
theorem AcceptsJust.congr {c : Call} {fits fits' : Selection → Prop}
    (h : x.AcceptsJust setting root b effects c d fits) (hfits : ∀ v, fits v ↔ fits' v) :
    x.AcceptsJust setting root b effects c d fits' := by
  obtain rfl : fits = fits' := funext (fun v => propext (hfits v))
  exact h

/-- A run of effects that stops for a selection has come to a choice that asks for it.

If several options are asked for, the choices for the decision list the sets of options whose size
lies between the bounds, each once, as arrays in the order of the domain, the smaller before the
larger and those of one size by the positions of their members.  In the run with a selection, this
very choice accepts the selection exactly if it is an array that is one of the choices in some
order.

If one option is asked for, the choices are the options, each once and in the order of the domain,
and the selections that are accepted are the choices. -/
theorem choices_of_pending (h : x.run setting root b effects = .error (.pending d)) :
    ∃ c, x.Makes setting root b effects c ∧ c.run = .error (.pending d) ∧
      ((∃ bind options cardinality, c.effect = .chooseN bind options cardinality ∧
          d.kind = .chooseN ∧
          (∃ listed : List (List Scalar), d.choices = listed.map .many ∧ d.Lists listed) ∧
          x.AcceptsJust setting root b effects c d
            (fun v => ∃ xs ys, v = .many ys ∧ .many xs ∈ d.choices ∧ ys.Perm xs)) ∨
        ∃ bind options, c.effect = .chooseOne bind options ∧
          d.kind = .chooseOne ∧
          (d.choices = d.options.map .one ∧ d.choices.Nodup) ∧
          x.AcceptsJust setting root b effects c d (fun v => v ∈ d.choices)) := by
  have hasks := x.run_asks setting root b effects
  rw [h] at hasks
  obtain ⟨hfree, hclear⟩ := hasks
  obtain ⟨⟨e, s, y⟩, hmakes, hcall, hchoice⟩ := exists_makes_of_pending h
  refine ⟨_, hmakes, hcall, ?_⟩
  rcases hchoice with ⟨bind, options, rfl⟩ | ⟨bind, options, cardinality, rfl⟩
  · obtain ⟨hkind, hanswers⟩ := Call.answers_chooseOne hcall
    refine .inr ⟨bind, options, rfl, hkind, hclear.choices_eq hkind, ?_⟩
    exact (acceptsJust_takes hmakes hfree hanswers).congr (hclear.takes_iff_mem hkind)
  · obtain ⟨hkind, hanswers⟩ := Call.answers_chooseN hcall
    refine .inl ⟨bind, options, cardinality, rfl, hkind, hclear.exists_lists hkind, ?_⟩
    exact (acceptsJust_takes hmakes hfree hanswers).congr (hclear.takes_iff_perm hkind)

end Session

/-! ## Dishes -/

/-- A choice among three dishes, of one at least and five at most. -/
def Effect.dishes : List Effect :=
  [.chooseN "dish" (.intRange (.int 1) (.int 3))
    { atLeast := some (.int 1), atMost := some (.int 5) }]

/-- What is asked about the dishes. -/
def Decision.dish : Decision where
  id := "feast/0:chooseN::dish"
  name := "dish"
  kind := .chooseN
  domain := [.int 1, .int 2, .int 3]
  min := 1
  max := 5

/-- All seven menus are listed.  The third dish and the first make one, and one dish twice does
not. -/
theorem Session.choices_of_pending_feast :
    Session.feast.run (Setting.feast.inMode .discover) "feast" ∅ Effect.dishes =
        .error (.pending .dish) ∧
      Decision.dish.choices =
        [.many [.int 1], .many [.int 2], .many [.int 3], .many [.int 1, .int 2],
        .many [.int 1, .int 3], .many [.int 2, .int 3], .many [.int 1, .int 2, .int 3]] ∧
      (∃ c b', Session.feast.MakesWith (Setting.feast.inMode .discover) "feast" ∅ Effect.dishes
        c "dish"
        (.array [.int 3, .int 1]) b' ∧ (c.under b').Accepts) ∧
      ∃ cause, Session.feast.run (Setting.feast.inMode .discover) "feast"
        (Bindings.bind ∅ "dish" (.array [.int 1, .int 1])) Effect.dishes =
          .error (.refused "dish" cause) := by
  have hasked : Session.feast.run (Setting.feast.inMode .discover) "feast" ∅ Effect.dishes =
      .error (.pending .dish) := Attempt.eq_pending (by decide +kernel)
  have hchoices : Decision.dish.choices = [.many [.int 1], .many [.int 2], .many [.int 3],
      .many [.int 1, .int 2], .many [.int 1, .int 3], .many [.int 2, .int 3],
      .many [.int 1, .int 2, .int 3]] := by
    decide +kernel
  refine ⟨hasked, hchoices, ?_⟩
  obtain ⟨c, -, -, ⟨-, -, -, -, -, -, haccepts⟩ | ⟨-, -, -, hkind, -⟩⟩ :=
    Session.choices_of_pending hasked
  · constructor
    · obtain ⟨b', hagain, hiff, -⟩ := haccepts (.many [.int 3, .int 1])
      refine ⟨c, b', hagain, hiff.2 ⟨[.int 1, .int 3], [.int 3, .int 1], rfl, ?_, ?_⟩⟩
      · rw [hchoices]
        decide
      · decide
    · obtain ⟨-, -, -, hrefused⟩ := haccepts (.many [.int 1, .int 1])
      apply hrefused
      rintro ⟨xs, ys, heq, hxs, hperm⟩
      obtain rfl : [.int 1, .int 1] = ys := Selection.many.inj heq
      obtain ⟨hsublist, -⟩ := (Decision.mem_choices_iff rfl xs).1 hxs
      have hnodup : Decision.dish.options.Nodup := by decide
      exact absurd (hperm.nodup_iff.2 (hnodup.sublist hsublist)) (by decide)
  · exact absurd hkind (by decide)

end Tabletop
