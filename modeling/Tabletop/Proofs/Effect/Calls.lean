import Tabletop.Proofs.Effect.Replies

/-!
# The calls of a run

A run of effects carries its effects out one by one, those in the bodies of others among them.  Each
is a call: an effect with the site and the session that it starts from.  What stops at a call stops
the run, and what a run asks for is asked by a choice to which it comes.  Where only names come in,
a run comes to the same calls, with these names in scope.

The calls are described from the outside in.  A body is entered by the effect that holds it
(`Effect.Enters`, which has no recursion), and a list of effects comes to its first effect, to what
that effect's bodies come to, and to what comes later in the list (`Calls`).

Main statements: `Session.Makes.run_error`, `Session.exists_makes_of_pending` and
`Session.Makes.adding`.
-/

namespace Tabletop

/-! ## Bodies -/

namespace Site

/-- One round of a loop. -/
def round (s : Site) (bind : String) (body : List Effect) (x : Session) (i : Value × Nat) :
    Attempt Session := do
  let (x, _) ← Effect.runAll body (s.each bind i.1 i.2) 0 x
  return x

/-- The site with a number bound, if there is a name for it. -/
def counted (s : Site) (countBind : Option String) (count : Nat) : Site :=
  match countBind with
  | some name => s.bind name (.int (Int64.ofNat count))
  | none => s

end Site

/-- An effect at a site comes from a session to a body of its own: the body, and the site and the
session that it starts from. -/
inductive Effect.Enters : Effect → Site → Session → List Effect → Site → Session → Prop where
  | yes {when : Cond} {yes no : List Effect} {s : Site} {x : Session}
      (h : when.eval (s.view x) = .ok true) :
      Enters (.ifThenElse when yes no) s x yes (s.enter "then") x
  | no {when : Cond} {yes no : List Effect} {s : Site} {x : Session}
      (h : when.eval (s.view x) = .ok false) :
      Enters (.ifThenElse when yes no) s x no (s.enter "else") x
  | each {bind : String} {source : Query} {body : List Effect} {limit : Option Expr} {s : Site}
      {x y : Session} {items : List Value} {n : Nat} {before after : List (Value × Nat)}
      {i : Value × Nat} (hitems : source.eval (s.view x) = .ok items)
      (hlimit : s.loopLimit x limit = .ok n)
      (hrounds : (items.take n).zipIdx = before ++ i :: after)
      (hbefore : before.foldlM (s.round bind body) x = .ok y) :
      Enters (.forEach bind source body limit) s x body (s.each bind i.1 i.2) y
  | letIn {bind : String} {value : Expr} {body : List Effect} {s : Site} {x : Session} {v : Value}
      (h : value.eval (s.view x) = .ok v) :
      Enters (.letIn bind value body) s x body ((s.bind bind v).enter "in") x
  | reduce {source : Query} {item acc : String} {initial next : Expr} {result : String}
      {body : List Effect} {s : Site} {x : Session} {v : Value}
      (h : s.foldQuery x source item acc initial next = .ok v) :
      Enters (.reduce source item acc initial next result body) s x body
        ((s.bind result v).enter "in") x
  | roll {bind : String} {min max : Expr} {body : List Effect} {s : Site} {x y : Session}
    {n : Int64}
      (h : s.roll x min max = .ok (n, y)) :
      Enters (.rollRandom bind min max body) s x body ((s.bind bind (.int n)).enter "in") y
  | removed {budget : Expr} {groups : List PriorityGroup} {countBind : Option String}
      {body : List Effect} {s : Site} {x y : Session} {count : Nat}
      (h : s.removeByPriority x budget groups = .ok (count, y)) :
      Enters (.removeByPriority budget groups countBind body) s x body
        ((s.counted countBind count).enter "in") y

/-! ## Calls -/

/-- An effect with the site and the session that it starts from. -/
structure Call where
  effect : Effect
  site : Site
  session : Session

namespace Call

/-- What a call comes to. -/
def run (c : Call) : Attempt (Session × Bindings) := c.effect.run c.site c.session

/-- The call with other names in scope. -/
def under (c : Call) (b : Bindings) : Call := { c with site := c.site.under b }

end Call

/-- Effects that run one after the other, the first being number `i` of its list, come to a call. -/
inductive Calls : List Effect → Site → Nat → Session → Call → Prop where
  | here {e : Effect} {es : List Effect} {s : Site} {i : Nat} {x y : Session}
      (hspend : (s.entry i e).spend x = .ok y) :
      Calls (e :: es) s i x { effect := e, site := s.entry i e, session := y }
  | within {e : Effect} {es body : List Effect} {s inner : Site} {i : Nat} {x y z : Session}
    {c : Call}
      (hspend : (s.entry i e).spend x = .ok y) (henters : e.Enters (s.entry i e) y body inner z)
      (h : Calls body inner 0 z c) : Calls (e :: es) s i x c
  | later {e : Effect} {es : List Effect} {s : Site} {i : Nat} {x y z : Session} {b : Bindings}
      {c : Call} (hspend : (s.entry i e).spend x = .ok y)
      (hrun : e.run (s.entry i e) y = .ok (z, b))
      (h : Calls es { s with bindings := b } (i + 1) z c) : Calls (e :: es) s i x c

/-- A run of effects comes to a call. -/
def Session.Makes (x : Session) (setting : Setting) (root : String) (b : Bindings)
    (effects : List Effect) (c : Call) : Prop :=
  Calls effects { setting, path := root, bindings := b } 0 x c

/-! ## What stops at a call -/

/-- A fold that fails, fails at one of its items. -/
theorem foldlM_eq_error {ε α γ : Type} {f : α → γ → Except ε α} {e : ε} :
    ∀ {l : List γ} {x : α}, l.foldlM f x = .error e →
      ∃ before c after y, l = before ++ c :: after ∧ before.foldlM f x = .ok y ∧ f y c = .error e
  | [], _, h => by cases h
  | c :: l, x, h => by
    rw [List.foldlM_cons] at h
    rcases bind_eq_error h with hc | ⟨y, hy, hrest⟩
    · exact ⟨[], c, l, x, rfl, rfl, hc⟩
    · obtain ⟨before, c', after, z, rfl, hz, he⟩ := foldlM_eq_error hrest
      refine ⟨c :: before, c', after, z, rfl, ?_, he⟩
      rw [List.foldlM_cons, hy]
      exact hz

/-- What fails first fails as a whole. -/
theorem bind_error {ε α β : Type} {a : Except ε α} {f : α → Except ε β} {e : ε} (h : a = .error e) :
    a >>= f = .error e := by
  rw [h]
  rfl

/-- A fold fails where one of its steps fails. -/
theorem foldlM_error {ε α γ : Type} {f : α → γ → Except ε α} {before after : List γ} {c : γ}
    {x y : α} {e : ε} (hy : before.foldlM f x = .ok y) (he : f y c = .error e) :
    (before ++ c :: after).foldlM f x = .error e := by
  rw [List.foldlM_append, hy]
  change List.foldlM f y (c :: after) = _
  rw [List.foldlM_cons]
  exact bind_error he

namespace Effect

variable {e : Effect} {s inner : Site} {x z : Session} {body : List Effect}

/-- What stops in a body stops the effect that holds it. -/
theorem Enters.run_error (h : e.Enters s x body inner z) {halt : Halt}
    (hbody : runAll body inner 0 z = .error halt) : e.run s x = .error halt := by
  cases h with
  | yes hwhen =>
    rw [run]
    exact bindLift_of_ok hwhen ((if_pos rfl).trans (bind_error hbody))
  | no hwhen =>
    rw [run]
    exact bindLift_of_ok hwhen ((if_neg Bool.false_ne_true).trans (bind_error hbody))
  | each hitems hlimit hrounds hbefore =>
    rw [run]
    apply bindLift_of_ok hitems
    apply bind_ok hlimit
    rw [hrounds]
    apply bind_error
    exact foldlM_error hbefore (bind_error hbody)
  | letIn hvalue =>
    rw [run]
    exact bindLift_of_ok hvalue (bind_error hbody)
  | reduce hvalue =>
    rw [run]
    exact bindLift_of_ok hvalue (bind_error hbody)
  | roll hroll =>
    rw [run]
    exact bind_ok hroll (bind_error hbody)
  | @removed _ _ countBind _ _ _ _ _ hremoved =>
    rw [run]
    apply bind_ok hremoved
    cases countBind with
    | none => exact bind_error hbody
    | some name => exact bind_error hbody

/-- A body is smaller than the effect that holds it. -/
theorem Enters.sizeOf_lt (h : e.Enters s x body inner z) : sizeOf body < sizeOf e := by
  cases h <;> simp <;> omega

/-- A plain effect asks for nothing. -/
theorem Plain.run_ne_pending (s : Site) (x : Session) (d : Decision) (h : e.Plain) :
    e.run s x ≠ .error (.pending d) := by
  intro hasks
  have hsettled := h.run_settled s x
  rw [hasks] at hsettled
  exact hsettled

/-- Carrying out a choice of one leaves the session and goes on with what it binds. -/
theorem run_chooseOne (s : Site) (x : Session) (bind : String) (options : Query) :
    run (.chooseOne bind options) s x = do return (x, ← s.chooseOne x bind options) := by
  rw [run]

/-- Carrying out a choice of several leaves the session and goes on with what it binds. -/
theorem run_chooseN (s : Site) (x : Session) (bind : String) (options : Query) (c : Cardinality) :
    run (.chooseN bind options c) s x = do return (x, ← s.chooseN x bind options c) := by
  rw [run]

/-- An effect that asks is a choice, or it holds a body that asks. -/
theorem asks_within {d : Decision} (h : e.run s x = .error (.pending d)) :
    (∃ bind options, e = .chooseOne bind options) ∨
    (∃ bind options cardinality, e = .chooseN bind options cardinality) ∨
    ∃ body inner z, e.Enters s x body inner z ∧ runAll body inner 0 z = .error (.pending d) := by
  have hforget {b : Bindings} {a : Attempt (Session × Bindings)}
      (ha : (do let y ← a; return (y.1, b)) = .error (.pending d)) : a = .error (.pending d) := by
    rcases bind_eq_error ha with ha | ⟨y, -, hy⟩
    · exact ha
    · cases hy
  cases e with
  | chooseOne bind options => exact .inl ⟨bind, options, rfl⟩
  | chooseN bind options cardinality => exact .inr (.inl ⟨bind, options, cardinality, rfl⟩)
  | ifThenElse when yes no =>
    rw [run] at h
    obtain ⟨holds, hwhen, h⟩ := bindLift_eq_pending h
    cases holds with
    | true => exact .inr (.inr ⟨_, _, _, .yes hwhen, hforget h⟩)
    | false => exact .inr (.inr ⟨_, _, _, .no hwhen, hforget h⟩)
  | forEach bind source body limit =>
    rw [run] at h
    obtain ⟨items, hitems, h⟩ := bindLift_eq_pending h
    rcases bind_eq_error h with hlimit | ⟨n, hlimit, h⟩
    · have hsettled := s.loopLimit_settled x limit
      rw [hlimit] at hsettled
      exact absurd hsettled id
    · rcases bind_eq_error h with hfold | ⟨y, -, hy⟩
      · obtain ⟨before, i, after, y, hrounds, hbefore, hround⟩ := foldlM_eq_error hfold
        refine .inr (.inr ⟨_, _, _, .each hitems hlimit hrounds hbefore, ?_⟩)
        rcases bind_eq_error hround with hbody | ⟨w, -, hw⟩
        · exact hbody
        · cases hw
      · cases hy
  | letIn bind value body =>
    rw [run] at h
    obtain ⟨v, hvalue, h⟩ := bindLift_eq_pending h
    exact .inr (.inr ⟨_, _, _, .letIn hvalue, hforget h⟩)
  | reduce source item acc initial next result body =>
    rw [run] at h
    obtain ⟨v, hvalue, h⟩ := bindLift_eq_pending h
    exact .inr (.inr ⟨_, _, _, .reduce hvalue, hforget h⟩)
  | rollRandom bind min max body =>
    rw [run] at h
    rcases bind_eq_error h with hroll | ⟨y, hroll, h⟩
    · have hsettled := s.roll_altered x min max
      rw [hroll] at hsettled
      exact absurd hsettled id
    · exact .inr (.inr ⟨_, _, _, .roll hroll, hforget h⟩)
  | removeByPriority budget groups countBind body =>
    rw [run] at h
    rcases bind_eq_error h with hremoved | ⟨y, hremoved, h⟩
    · have hsettled := s.removeByPriority_altered x budget groups
      rw [hremoved] at hsettled
      exact absurd hsettled id
    · refine .inr (.inr ⟨_, _, _, .removed hremoved, ?_⟩)
      cases countBind <;> exact hforget h
  | _ =>
    exact absurd h (Plain.run_ne_pending s x d trivial)

end Effect

/-- A choice asks what its operation asks. -/
theorem Call.choice_eq_pending {e : Effect} {s : Site} {x : Session} {d : Decision}
    {a : Attempt Bindings} (hrun : e.run s x = do return (x, ← a))
    (h : Call.run ⟨e, s, x⟩ = .error (.pending d)) : a = .error (.pending d) := by
  rcases bind_eq_error (hrun.symm.trans h) with h | ⟨y, -, hy⟩
  · exact h
  · cases hy

/-- What stops at a call stops the effects that come to it. -/
theorem Calls.runAll_error {es : List Effect} {s : Site} {i : Nat} {x : Session} {c : Call}
    {halt : Halt} (h : Calls es s i x c) (hc : c.run = .error halt) :
    Effect.runAll es s i x = .error halt := by
  induction h with
  | here hspend =>
    rw [Effect.runAll]
    exact bind_ok hspend (bind_error hc)
  | within hspend henters _ ih =>
    rw [Effect.runAll]
    exact bind_ok hspend (bind_error (henters.run_error (ih hc)))
  | later hspend hrun _ ih =>
    rw [Effect.runAll]
    exact bind_ok hspend (bind_ok hrun (ih hc))

/-- Effects that ask come to a choice that asks. -/
theorem exists_calls_of_pending {d : Decision} :
    ∀ (es : List Effect) {s : Site} {i : Nat} {x : Session},
      Effect.runAll es s i x = .error (.pending d) →
        ∃ c, Calls es s i x c ∧ c.run = .error (.pending d) ∧
          ((∃ bind options, c.effect = .chooseOne bind options) ∨
            ∃ bind options cardinality, c.effect = .chooseN bind options cardinality)
  | [], _, _, _, h => by cases h
  | e :: es, s, i, x, h => by
    rw [Effect.runAll] at h
    rcases bind_eq_error h with hspend | ⟨y, hspend, h⟩
    · exact absurd hspend (Site.spend_ne_pending _ x d)
    · rcases bind_eq_error h with hasks | ⟨⟨z, b⟩, hrun, hlater⟩
      · rcases Effect.asks_within hasks with hone | hseveral | ⟨body, inner, z, henters, hbody⟩
        · exact ⟨_, .here hspend, hasks, .inl hone⟩
        · exact ⟨_, .here hspend, hasks, .inr hseveral⟩
        · have hlt := henters.sizeOf_lt
          obtain ⟨c, hcalls, hc⟩ := exists_calls_of_pending body hbody
          exact ⟨c, .within hspend henters hcalls, hc⟩
      · obtain ⟨c, hcalls, hc⟩ := exists_calls_of_pending es hlater
        exact ⟨c, .later hspend hrun hcalls, hc⟩
termination_by es => sizeOf es
decreasing_by all_goals simp only [List.cons.sizeOf_spec]; omega

/-! ## More names in scope -/

section

variable {p : Bindings}

namespace Site

variable {s : Site} {x : Session} {b' : Bindings}

/-- Rounds of a loop come to the same session where only names come in. -/
theorem rounds_adding (hb : (Widening.adding p).Below s.bindings b') (bind : String)
    (body : List Effect) :
    ∀ {l : List (Value × Nat)} {x y : Session}, l.foldlM (s.round bind body) x = .ok y →
      l.foldlM ((s.under b').round bind body) x = .ok y
  | [], _, _, h => h
  | i :: l, x, y, h => by
    rw [List.foldlM_cons] at h ⊢
    obtain ⟨z, hz, hrest⟩ := bind_eq_ok h
    obtain ⟨⟨w, b⟩, hbody, hw⟩ := bind_eq_ok hz
    cases hw
    obtain ⟨b'', hbody', -⟩ :=
      runAll_adding (s := (s.under b').each bind i.1 i.2) (hb.bind bind i.1) hbody
    have hround : (s.under b').round bind body x i = .ok z := bind_ok hbody' rfl
    exact bind_ok hround (rounds_adding hb bind body hrest)

/-- A number is bound above what comes in. -/
theorem counted_below (hb : (Widening.adding p).Below s.bindings b') (countBind : Option String)
    (count : Nat) :
    ∃ b, (Widening.adding p).Below (s.counted countBind count).bindings b ∧
      (s.under b').counted countBind count = (s.counted countBind count).under b := by
  cases countBind with
  | none => exact ⟨b', hb, rfl⟩
  | some name => exact ⟨_, hb.bind name _, rfl⟩

end Site

/-- An effect comes to the same bodies where only names come in. -/
theorem Effect.Enters.adding {e : Effect} {s inner : Site} {x z : Session} {body : List Effect}
    {b' : Bindings} (h : e.Enters s x body inner z) (hb : (Widening.adding p).Below s.bindings b') :
    ∃ b, (Widening.adding p).Below inner.bindings b ∧
      e.Enters (s.under b') x body (inner.under b) z := by
  cases h with
  | @yes when yes no _ _ hwhen =>
    exact ⟨b', hb, .yes ((when.eval_stays (v := s.view x) hb).eq_ok hwhen)⟩
  | @no when yes no _ _ hwhen =>
    exact ⟨b', hb, .no ((when.eval_stays (v := s.view x) hb).eq_ok hwhen)⟩
  | @each bind source body limit _ _ y items n before after i hitems hlimit hrounds hbefore =>
    refine ⟨_, hb.bind bind i.1, .each ((source.eval_stays (v := s.view x) hb).eq_ok hitems) ?_
      hrounds (Site.rounds_adding hb bind body hbefore)⟩
    obtain ⟨_, hlimit', rfl⟩ := (s.loopLimit_stays hb (Widening.inStep_refl x) limit).of_ok hlimit
    exact hlimit'
  | @letIn bind value body _ _ v hvalue =>
    exact ⟨_, hb.bind bind v, .letIn ((value.eval_stays (v := s.view x) hb).eq_ok hvalue)⟩
  | @reduce source item acc initial next result body _ _ v hvalue =>
    refine ⟨_, hb.bind result v, .reduce ?_⟩
    exact (s.foldQuery_stays hb (Widening.inStep_refl x) source item acc initial next).eq_ok hvalue
  | @roll bind min max body _ _ _ n hroll =>
    obtain ⟨y, hroll', hn, hstep⟩ := (s.roll_paired hb (Widening.inStep_refl x) min max).of_ok hroll
    rw [Prod.ext hn hstep.eq] at hroll'
    exact ⟨_, hb.bind bind (.int n), .roll hroll'⟩
  | @removed budget groups countBind body _ _ _ count hremoved =>
    obtain ⟨y, hremoved', hcount, hstep⟩ :=
      (s.removeByPriority_paired hb (Widening.inStep_refl x) budget groups).of_ok hremoved
    rw [Prod.ext hcount hstep.eq] at hremoved'
    obtain ⟨b, hbelow, hcounted⟩ := Site.counted_below hb countBind count
    have henters : Enters (.removeByPriority budget groups countBind body) (s.under b') x body
        (((s.under b').counted countBind count).enter "in") z := .removed hremoved'
    rw [hcounted] at henters
    exact ⟨b, hbelow, henters⟩

/-- Where only names come in, effects come to the same calls with these names in scope. -/
theorem Calls.adding {es : List Effect} {s : Site} {i : Nat} {x : Session} {c : Call}
    (h : Calls es s i x c) :
    ∀ {b' : Bindings}, (Widening.adding p).Below s.bindings b' →
      ∃ b, (Widening.adding p).Below c.site.bindings b ∧ Calls es (s.under b') i x (c.under b) := by
  induction h with
  | @here e es s i x y hspend =>
    intro b' hb
    exact ⟨b', hb, .here hspend⟩
  | @within e es body s inner i x y z c hspend henters _ ih =>
    intro b' hb
    have hentry : (Widening.adding p).Below (s.entry i e).bindings b' := hb
    obtain ⟨b, hinner, henters'⟩ := henters.adding hentry
    obtain ⟨b'', hbelow, hcalls⟩ := ih hinner
    exact ⟨b'', hbelow, .within hspend henters' hcalls⟩
  | @later e es s i x y z b c hspend hrun _ ih =>
    intro b' hb
    have hentry : (Widening.adding p).Below (s.entry i e).bindings b' := hb
    obtain ⟨⟨z', d⟩, hrun', hz, hd⟩ := e.run_answers hentry hrun
    obtain rfl : z' = z := hz
    obtain ⟨b'', hbelow, hcalls⟩ := ih hd
    exact ⟨b'', hbelow, .later hspend hrun' hcalls⟩

end

/-! ## Whole runs -/

namespace Session

variable {x : Session} {setting : Setting} {root : String} {b : Bindings} {effects : List Effect}
  {c : Call}

/-- What stops at a call stops the run. -/
theorem Makes.run_error (h : x.Makes setting root b effects c) {halt : Halt}
    (hc : c.run = .error halt) : x.run setting root b effects = .error halt :=
  bind_error (h.runAll_error hc)

/-- A run that asks comes to a choice that asks. -/
theorem exists_makes_of_pending {d : Decision}
    (h : x.run setting root b effects = .error (.pending d)) :
    ∃ c, x.Makes setting root b effects c ∧ c.run = .error (.pending d) ∧
      ((∃ bind options, c.effect = .chooseOne bind options) ∨
        ∃ bind options cardinality, c.effect = .chooseN bind options cardinality) := by
  rcases bind_eq_error h with h | ⟨y, -, hy⟩
  · exact exists_calls_of_pending effects h
  · cases hy

/-- Where only names come in, a run comes to the same calls with these names in scope. -/
theorem Makes.adding {p b' : Bindings} (h : x.Makes setting root b effects c)
    (hb : (Widening.adding p).Below b b') :
    ∃ b'', (Widening.adding p).Below c.site.bindings b'' ∧
      x.Makes setting root b' effects (c.under b'') :=
  Calls.adding h hb

end Session

end Tabletop
