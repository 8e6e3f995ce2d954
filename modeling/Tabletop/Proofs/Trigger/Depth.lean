import Tabletop.Play.Make
import Tabletop.Proofs.Play.Steps
import Tabletop.Proofs.Trigger.Machine

/-!
# How deep triggers fire

A journal lists the firings of triggers with the depths at which they fired.  Each event that no
trigger has raised adds a list that starts at depth one and goes down by at most one level at a
time, as a firing is written down before what it sets off; such lists stay of this shape when they
are put one after another.  That is why the log of a whole move, in which the triggers are called on
over and over, is of the same shape as the log of one cascade.

Nothing but a cascade writes firings down.  The statements about moves follow the stages of a move
and say of each that what it writes down is of this shape, whether it succeeds or fails.

Main statement: `Rules.dispatch_refines`, on cascades and moves together, after
`Rules.records_dispatch` and `Rules.nested_firings_of_makeMove` for the depths.
-/

namespace Tabletop

open Relation (ReflTransGen)

/-- Firings that events at a depth have led to, none below the deepest level: the first lies at that
depth, each lies at most one level deeper than the one before, and none lies higher. -/
structure Firing.Nested (depth max : Nat) (fs : List Firing) : Prop where
  first : ∀ f ∈ fs.head?, f.depth.toNat = depth
  steps : fs.IsChain (fun f f' => f'.depth.toNat ≤ f.depth.toNat + 1)
  bounds : ∀ f ∈ fs, depth ≤ f.depth.toNat ∧ f.depth.toNat ≤ max

namespace Firing.Nested

variable {depth max : Nat} {f : Firing} {fs fs' : List Firing}

/-- No firings are nested. -/
theorem nil : Nested depth max [] where
  first := nofun
  steps := .nil
  bounds := nofun

/-- What one event has led to goes before what the next one has. -/
theorem append (h : Nested depth max fs) (h' : Nested depth max fs') :
    Nested depth max (fs ++ fs') where
  first := by
    intro f hf
    cases fs with
    | nil => exact h'.first f hf
    | cons => exact h.first f hf
  steps := by
    refine List.isChain_append.2 ⟨h.steps, h'.steps, fun f hf f' hf' => ?_⟩
    have hlast := (h.bounds f (List.mem_of_getLast? hf)).1
    have hfirst := h'.first f' hf'
    omega
  bounds := by
    intro f hf
    rcases List.mem_append.1 hf with hf | hf
    · exact h.bounds f hf
    · exact h'.bounds f hf

/-- A firing goes before what it has led to, which lies one level deeper. -/
theorem cons (hf : f.depth.toNat = depth) (hmax : depth ≤ max) (h : Nested (depth + 1) max fs) :
    Nested depth max (f :: fs) where
  first := by
    rintro _ ⟨⟩
    exact hf
  steps := by
    refine List.isChain_cons.2 ⟨fun f' hf' => ?_, h.steps⟩
    have hfirst := h.first f' hf'
    omega
  bounds := by
    intro f' hf'
    rcases List.mem_cons.1 hf' with rfl | hf'
    · omega
    · have hbounds := h.bounds f' hf'
      omega

end Firing.Nested

/-- What has been written down when a computation comes to a result, be it a success or not. -/
def Progress.journalOf : Tracked Progress → Journal
  | .ok p => p.journal
  | .error b => b.journal

/-- What a computation adds to a journal are firings that events at a depth have led to. -/
def Progress.Records (depth max : Nat) (p : Progress) (out : Tracked Progress) : Prop :=
  ∃ fs, (journalOf out).firings = p.journal.firings ++ fs ∧ Firing.Nested depth max fs

namespace Progress.Records

variable {depth max : Nat} {p q : Progress} {out : Tracked Progress}

/-- Nothing is added to the firings. -/
theorem of_eq (h : (journalOf out).firings = p.journal.firings) : Records depth max p out :=
  ⟨[], by rw [h, List.append_nil], .nil⟩

/-- What two computations one after the other write down are nested firings, if each writes down
such. -/
theorem bind {f : Progress → Tracked Progress} (h : Records depth max p out)
    (hf : ∀ q, Records depth max q (f q)) : Records depth max p (out >>= f) := by
  cases out with
  | error b => exact h
  | ok q =>
    obtain ⟨fs, hq, hfs⟩ := h
    obtain ⟨fs', hout, hfs'⟩ := hf q
    have hall : (journalOf (f q)).firings = p.journal.firings ++ (fs ++ fs') := by
      rw [hout, ← List.append_assoc]
      exact congrArg (· ++ fs') hq
    exact ⟨fs ++ fs', hall, hfs.append hfs'⟩

/-- What writes nothing down may go before. -/
theorem attempt {α : Type} {a : Result α} {f : α → Tracked Progress}
    (hf : ∀ x, Records depth max p (f x)) : Records depth max p (p.attempt a >>= f) := by
  cases a with
  | error fault => exact of_eq rfl
  | ok x => exact hf x

/-- What a fold writes down are nested firings, if each of its steps writes down such. -/
theorem foldlM {γ : Type} {f : Progress → γ → Tracked Progress}
    (hf : ∀ c q, Records depth max q (f q c)) :
    ∀ (l : List γ) (p : Progress), Records depth max p (l.foldlM f p)
  | [], p => of_eq rfl
  | c :: l, p => by
    rw [List.foldlM_cons]
    exact (hf c p).bind (foldlM hf l)

end Progress.Records

open Progress (Records)

/-! ## Cascades -/

/-- What writes nothing down leaves the journal as it is where it fails. -/
theorem Progress.journal_of_attempt {α : Type} {p : Progress} {a : Result α} {b : Breakdown}
    (h : p.attempt a = .error b) : b.journal = p.journal := by
  cases a with
  | error fault =>
    cases h
    rfl
  | ok x => cases h

/-- A firing is written down whether or not its effects can be run. -/
theorem Trigger.exists_firing (t : Trigger) (r : Rules) (depth : UInt32) (e : Event)
    (p : Progress) :
    ∃ f : Firing, f.depth = depth ∧
      (∀ b, t.fire r depth e p = .error b → b.journal.firings = p.journal.firings ++ [f]) ∧
      ∀ q events, t.fire r depth e p = .ok (q, events) →
        q.journal.firings = p.journal.firings ++ [f] := by
  let f : Firing :=
    { trigger := t.id, event := e.kind, depth, turn := p.state.turn, phase := p.state.phase }
  refine ⟨f, rfl, fun b h => ?_, fun q events h => ?_⟩
  · rcases bind_eq_error h with hrun | ⟨x, -, hrest⟩
    · rw [Progress.journal_of_attempt hrun]
      rfl
    · cases hrest
  · obtain ⟨x, -, hrest⟩ := bind_eq_ok h
    cases hrest
    rfl

namespace Rules

variable {r : Rules}

/-- A trigger that reacts at a level writes down its own firing and then those of the level
below. -/
theorem records_react {depth left : Nat} (hlevel : left + depth = r.deepest + 1)
    (hnext : ∀ next, r.below left = some next →
      ∀ e p, Records (depth + 1) r.deepest p (next e p))
    (e : Event) (p : Progress) (t : Trigger) :
    Records depth r.deepest p (t.react r (r.depthAt left) (r.below left) e p) := by
  refine .attempt fun fires => ?_
  cases fires with
  | false => exact .of_eq rfl
  | true =>
    cases left with
    | zero => exact .of_eq rfl
    | succ left =>
      have hdepth : (r.depthAt (left + 1)).toNat = depth := by
        have hsmall : r.deepest < UInt32.size := r.definition.metadata.maxTriggerDepth.toNat_lt
        rw [depthAt_eq hlevel, UInt32.toNat_ofNat_of_lt' (by omega)]
      obtain ⟨f, hf, hbroken, hfired⟩ := t.exists_firing r (r.depthAt (left + 1)) e p
      rw [← hf] at hdepth
      show Records depth r.deepest p (t.fire r (r.depthAt (left + 1)) e p >>= _)
      cases hfire : t.fire r (r.depthAt (left + 1)) e p with
      | error b => exact ⟨[f], hbroken b hfire, .cons hdepth (by omega) .nil⟩
      | ok fired =>
        obtain ⟨fs, hout, hfs⟩ :=
          Progress.Records.foldlM (hnext (r.dispatchAt left) rfl) fired.2 fired.1
        refine ⟨f :: fs, ?_, .cons hdepth (by omega) hfs⟩
        show (Progress.journalOf (fired.2.foldlM _ fired.1)).firings = _
        rw [hout, hfired _ _ hfire, List.append_assoc, List.singleton_append]

/-- What an event leads to, at every level. -/
theorem records_dispatchAt :
    ∀ (left depth : Nat), left + depth = r.deepest + 1 →
      ∀ (e : Event) (p : Progress), Records depth r.deepest p (r.dispatchAt left e p) := by
  intro left
  induction left with
  | zero =>
    intro depth hlevel e p
    rw [dispatchAt_eq]
    exact .foldlM (fun t p => records_react hlevel nofun e p t) _ _
  | succ left ih =>
    intro depth hlevel e p
    rw [dispatchAt_eq]
    refine .foldlM (fun t p => records_react hlevel (fun next hnext => ?_) e p t) _ _
    cases hnext
    exact ih (depth + 1) (by omega)

variable (r)

/-- What events lead to that no trigger has raised. -/
theorem records_dispatch (events : List Event) (p : Progress) :
    Records 1 r.deepest p (r.dispatch events p) :=
  .foldlM (fun e p => records_dispatchAt _ 1 rfl e p) _ _

/-! ## Moves -/

/-- Tearing lasting effects down writes down firings that their events have led to. -/
theorem records_tearDown : ∀ (ls : List ActiveLasting) (p : Progress),
    Records 1 r.deepest p (r.tearDown ls p)
  | [], _ => .of_eq rfl
  | _ :: ls, p =>
    .attempt fun _ => .attempt fun x =>
      .bind (r.records_dispatch x.events (p.absorb x)) (records_tearDown ls)

/-- The expiry of lasting effects writes down firings that their events have led to. -/
theorem records_expire (d : Duration) (p : Progress) : Records 1 r.deepest p (r.expire d p) :=
  r.records_tearDown _ _

/-- Leaving a phase writes down firings that its events have led to. -/
theorem records_leavePhase (p : Progress) : Records 1 r.deepest p (r.leavePhase p) :=
  (r.records_dispatch _ p).bind fun q =>
    (r.records_expire .phase q).bind fun _ => .of_eq rfl

/-- Closing a turn writes down firings that its events have led to. -/
theorem records_closeTurn (p : Progress) : Records 1 r.deepest p (r.closeTurn p) :=
  (r.records_dispatch _ p).bind fun q =>
    (r.records_expire .turn q).bind fun _ => .attempt fun _ => r.records_dispatch _ _

/-- Ending a turn writes down firings that its events have led to. -/
theorem records_endTurn (p : Progress) : Records 1 r.deepest p (r.endTurn p) :=
  (r.records_leavePhase p).bind r.records_closeTurn

/-- A transition writes down firings that its events have led to. -/
theorem records_transition (p : Progress) : Records 1 r.deepest p (r.transition p) := by
  unfold transition
  split
  · exact (r.records_leavePhase p).bind fun _ => .of_eq rfl
  · split
    · dsimp only [skipSeat]
      split
      · exact r.records_endTurn _
      · exact .of_eq rfl
    · refine (r.records_leavePhase p).bind fun q => ?_
      split
      · exact r.records_dispatch _ _
      · exact r.records_closeTurn q

/-- Transitions write down firings that their events have led to, by induction on how many may
come. -/
theorem records_advanceWithin : ∀ (n : Nat) (p : Progress),
    Records 1 r.deepest p (r.advanceWithin n p)
  | 0, p => by
    refine .attempt fun decided => ?_
    split
    · exact .of_eq rfl
    · exact .of_eq rfl
  | n + 1, p => by
    refine .attempt fun decided => ?_
    split
    · exact .of_eq rfl
    · exact (r.records_transition p).bind (records_advanceWithin n)

/-- Going on after a move writes down firings that its events have led to. -/
theorem records_goOn (m : Move) (p : Progress) : Records 1 r.deepest p (r.goOn m p) := by
  dsimp only [goOn]
  split
  · exact (r.records_endTurn _).bind (r.records_advanceWithin _)
  · exact r.records_advanceWithin _ _

/-- The reactions to a move write down firings that its events have led to. -/
theorem records_reactTo (x : Resolution) (mover : Seat) (events : List Event) (p : Progress) :
    Records 1 r.deepest p (r.reactTo x mover events p) :=
  (r.records_dispatch events p).bind (r.records_dispatch _)

variable {r}

/-- Setting up lasting effects lets no trigger fire. -/
theorem firings_activateLasting {a : Action} {executor : Seat} {b : Bindings} :
    ∀ {ls : List LastingEffect} {p q : Progress} {events : List Event},
      r.activateLasting a executor b ls p = .ok (q, events) →
        q.journal.firings = p.journal.firings
  | [], _, _, _, h => by
    cases h
    rfl
  | _ :: _, _, _, _, h => by
    obtain ⟨x, -, h⟩ := bind_eq_ok h
    obtain ⟨⟨q', events'⟩, hrest, h⟩ := bind_eq_ok h
    cases h
    have hfirings := firings_activateLasting hrest
    exact hfirings

/-- Taking an action writes down no firing. -/
theorem firings_take {a : Action} {executor : Seat} {params : Dict Selection} {p q : Progress}
    {events : List Event} (h : r.take a executor params p = .ok (q, events)) :
    q.journal.firings = p.journal.firings := by
  obtain ⟨⟨p', events'⟩, hlasting, h⟩ := bind_eq_ok h
  cases h
  have hfirings := firings_activateLasting hlasting
  exact hfirings

/-- Nothing has fired when the actions of a move have been taken. -/
theorem firings_takeActions {m : Move} {x : Resolution} {q : Progress} {events : List Event}
    (h : r.takeActions m x = .ok (q, events)) : q.journal.firings = [] := by
  obtain ⟨⟨p₁, hostEvents⟩, hhost, h⟩ := bind_eq_ok h
  obtain ⟨⟨p₂, specialEvents⟩, hspecial, h⟩ := bind_eq_ok h
  have hspecial' : p₂.journal.firings = p₁.journal.firings := by
    unfold takeSpecial at hspecial
    split at hspecial
    · exact firings_take hspecial
    · cases hspecial
      rfl
  have hnone : p₂.journal.firings = [] := hspecial'.trans (firings_take hhost)
  cases h
  split
  · exact hnone
  · exact hnone

/-- The log of a move is what its cascades have written down, from the first to the last. -/
theorem nested_firings_of_makeMove {s : State} {m : Move} {res : MoveResult}
    (h : r.makeMove s m = .ok res) : Firing.Nested 1 r.deepest res.firings := by
  obtain ⟨x, p, -, hcommit, rfl⟩ := makeMove_eq_ok h
  obtain ⟨⟨p₁, events⟩, htake, hcommit⟩ := bind_eq_ok hcommit
  obtain ⟨fs, hfs, hnested⟩ :=
    (r.records_reactTo x s.active events p₁).bind (r.records_goOn m)
  have hout : p.journal.firings = p₁.journal.firings ++ fs := by
    rw [← hfs]
    exact congrArg (fun out => (Progress.journalOf out).firings) hcommit.symm
  rw [firings_takeActions htake, List.nil_append] at hout
  show Firing.Nested 1 r.deepest p.journal.firings
  rw [hout]
  exact hnested

variable (r)

/-- The dispatcher agrees with a reference that lets all triggers hear of an event, by priority and
then in the order of their declaration, and hears what a firing raises, one level deeper, before
anything else: every result of the one, with its state, its journal and its fault, is a result of
the other where the reference may not fire below the deepest level.  The dispatcher reports that a
cascade goes too deep exactly if the reference, left to itself, would fire a trigger there; within
the levels it never goes on for ever.  Depths start at one, go down by at most one level at a time
and stay within the levels, in what events add to a journal as in the log of a whole move. -/
theorem dispatch_refines :
    (∀ (events : List Event) (p : Progress) (out : Tracked Progress),
      r.dispatch events p = out ↔
        ∃ c, ReflTransGen (Cascade.Within r) (r.cascade events p) c ∧ c.Ends r out) ∧
    (∀ (events : List Event) (p : Progress),
      (∃ b, r.dispatch events p = .error b ∧ b.fault.code = "MAX_TRIGGER_DEPTH_EXCEEDED") ↔
        ∃ c e, ReflTransGen (Cascade.Step r) (r.cascade events p) c ∧ c.TooDeep r e) ∧
    (∀ (events : List Event) (p : Progress) (run : Nat → Cascade), run 0 = r.cascade events p →
      ¬ ∀ n, Cascade.Within r (run n) (run (n + 1))) ∧
    (∀ (events : List Event) (p : Progress), Records 1 r.deepest p (r.dispatch events p)) ∧
    ∀ (s : State) (m : Move) (res : MoveResult), r.makeMove s m = .ok res →
      Firing.Nested 1 r.deepest res.firings := by
  refine ⟨fun events p _ => r.dispatch_eq_iff events p, r.dispatch_tooDeep_iff,
    fun events p run hstart => ?_, r.records_dispatch, fun _ _ _ => nested_firings_of_makeMove⟩
  obtain ⟨c, hpath, hends⟩ := r.exists_ends events p
  exact Cascade.not_endless hpath hends run hstart

end Rules

/-! ## A pond -/

/-- A game with a variable that a trigger raises whenever it has been raised, up to two. -/
def Definition.pond : Definition :=
  { Definition.minimal "pond" with
    metadata := { (Definition.minimal "pond").metadata with maxTriggerDepth := 2 }
    globalVars := [.ofInt "level" 0 0 2]
    triggers := [{
      id := "ripple", pattern := .varChanged none
      effects := [.addVar .global "level" (.int 1)] }]
    actions := [{ id := "stir", effects := [.addVar .global "level" (.int 1)] }] }

/-- The rules of that game, under the usual limits. -/
def Rules.pond : Rules := { game := .ofDefinition .pond }

/-- Where two seats start that game. -/
def State.pond : State := (Rules.pond.game.start 2 0).toOption.getD default

/-- Stirring the pond sets off a ripple, which brings the level to its highest.  A change that
leaves the level where it was sets off two, and the second would set off a third, which lies too
deep. -/
theorem Rules.dispatch_refines_pond :
    (∃ res, Rules.pond.makeMove .pond (.named "stir") = .ok res ∧
      res.firings.map (·.depth) = [1, 2] ∧ Firing.Nested 1 2 res.firings) ∧
    ∃ c e, ReflTransGen (Cascade.Step Rules.pond)
      (Rules.pond.cascade [.varChanged .global "level" 0 1] { state := .pond }) c ∧
        c.TooDeep Rules.pond e := by
  obtain ⟨-, htooDeep, -, -, hnested⟩ := Rules.dispatch_refines Rules.pond
  constructor
  · obtain ⟨res, hres⟩ : ∃ res, Rules.pond.makeMove .pond (.named "stir") = .ok res :=
      exists_ok_of_isOk (by decide +kernel)
    have hdepths : (Rules.pond.makeMove .pond (.named "stir")).toOption.map
        (fun res => res.firings.map (·.depth)) = some [1, 2] := by decide +kernel
    rw [hres] at hdepths
    exact ⟨res, hres, Option.some.inj hdepths, hnested _ _ res hres⟩
  · refine (htooDeep _ _).1 ?_
    have hcode : (match Rules.pond.dispatch [.varChanged .global "level" 0 1]
      { state := .pond } with
        | .ok _ => none
        | .error b => some b.fault.code) = some "MAX_TRIGGER_DEPTH_EXCEEDED" := by decide +kernel
    cases hout : Rules.pond.dispatch [.varChanged .global "level" 0 1] { state := .pond } with
    | ok q =>
      rw [hout] at hcode
      cases hcode
    | error b =>
      rw [hout] at hcode
      exact ⟨b, rfl, Option.some.inj hcode⟩

end Tabletop
