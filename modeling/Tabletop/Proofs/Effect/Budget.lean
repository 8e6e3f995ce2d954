import Tabletop.Proofs.Effect.Replies
import Tabletop.Play.Start

/-!
# Runs under a budget

Every effect that is carried out costs one operation, those that hold others included.  So a run
under a budget is the run without one, cut off at the first effect that it cannot pay for.
`Effect.courseAll` is the run without a budget; it lists the effects that are carried out.

Operations are counted with 32 bits, as budgets are given.  Every budget but the greatest is
exceeded before the count overflows.  Under the greatest one it is the count that ends a run of 2^32
effects or more.

Main statements: `Session.run_metered`, for a whole run, and `runEffects_within`.
-/

namespace Tabletop

/-! ## Courses -/

/-- A run without a budget: the paths of the effects that are carried out, in order, and the
outcome. -/
structure Course (α : Type) where
  nodes : List String
  outcome : Attempt α

namespace Course

/-- What carries out no effects of its own. -/
def of {α : Type} (a : Attempt α) : Course α := ⟨[], a⟩

/-- One course after the other, if the first one comes to its end. -/
def bind {α β : Type} (c : Course α) (f : α → Course β) : Course β :=
  match c.outcome with
  | .ok x => ⟨c.nodes ++ (f x).nodes, (f x).outcome⟩
  | .error halt => ⟨c.nodes, .error halt⟩

instance : Monad Course where
  pure x := .of (.ok x)
  bind := bind

instance : MonadLift Attempt Course := ⟨of⟩

/-- The course under a budget of which so many operations have been spent before: it is cut off at
the first effect that cannot be paid for. -/
def under {α : Type} (c : Course α) (before n : UInt32) : Attempt α :=
  match c.nodes[n.toNat - before.toNat]? with
  | some path => .error (.fault (.shortage n.toNat path))
  | none => c.outcome

section

variable {α : Type} {c : Course α} {before n : UInt32}

/-- A course that has one more effect than can be paid for ends with the shortage at that effect. -/
theorem under_of_short {path : String} (h : c.nodes[n.toNat - before.toNat]? = some path) :
    c.under before n = .error (.fault (.shortage n.toNat path)) := by
  rw [under, h]

/-- A course that can be paid for as a whole comes to its outcome. -/
theorem under_of_enough (h : c.nodes.length ≤ n.toNat - before.toNat) :
    c.under before n = c.outcome := by
  rw [under, List.getElem?_eq_none h]

end

end Course

/-- The start of an effect: it is listed, and its operation counted. -/
def Site.begun (s : Site) (x : Session) : Course Session :=
  ⟨[s.path], .ok x.tick⟩

mutual

/-- An effect carried out without a budget; it has been listed already. -/
def Effect.course (e : Effect) (s : Site) (x : Session) : Course (Session × Bindings) :=
  match e with
  | .ifThenElse when yes no => do
    if ← when.eval (s.view x) then
      let (x, _) ← Effect.courseAll yes (s.enter "then") 0 x
      return (x, s.bindings)
    else
      let (x, _) ← Effect.courseAll no (s.enter "else") 0 x
      return (x, s.bindings)
  | .forEach bind source body limit => do
    let items ← source.eval (s.view x)
    let limit ← s.loopLimit x limit
    let x ← (items.take limit).zipIdx.foldlM
      (fun x (item, k) => do
        let (x, _) ← Effect.courseAll body (s.each bind item k) 0 x
        return x) x
    return (x, s.bindings)
  | .letIn bind value body => do
    let value ← value.eval (s.view x)
    let (x, _) ← Effect.courseAll body ((s.bind bind value).enter "in") 0 x
    return (x, s.bindings)
  | .reduce source item acc initial next result body => do
    let value ← s.foldQuery x source item acc initial next
    let (x, _) ← Effect.courseAll body ((s.bind result value).enter "in") 0 x
    return (x, s.bindings)
  | .rollRandom bind min max body => do
    let (n, x) ← s.roll x min max
    let (x, _) ← Effect.courseAll body ((s.bind bind (.int n)).enter "in") 0 x
    return (x, s.bindings)
  | .removeByPriority budget groups countBind body => do
    let (count, x) ← s.removeByPriority x budget groups
    let inner := match countBind with
      | some name => s.bind name (.int (Int64.ofNat count))
      | none => s
    let (x, _) ← Effect.courseAll body (inner.enter "in") 0 x
    return (x, s.bindings)
  | e => .of (e.run s x)

/-- Effects carried out one after the other without a budget, the first being number `i` of its
list.  Each is listed before anything else. -/
def Effect.courseAll (es : List Effect) (s : Site) (i : Nat) (x : Session) :
    Course (Session × Bindings) :=
  match es with
  | [] => return (x, s.bindings)
  | e :: es => do
    let here := s.entry i e
    let x ← here.begun x
    let (x, bindings) ← e.course here x
    Effect.courseAll es { s with bindings } (i + 1) x

end

/-- A whole run without a budget. -/
def Session.course (x : Session) (setting : Setting) (root : String) (b : Bindings)
    (effects : List Effect) : Course Session := do
  let (x, _) ← Effect.courseAll effects { setting, path := root, bindings := b } 0 x
  return x

/-! ## Runs that are metered -/

/-- A computation under budgets is a course, cut off where a budget ends; and what it comes to knows
how many effects have been carried out, as far as they can be counted. -/
structure Metered {α : Type} (before : UInt32) (after : α → UInt32) (c : Course α)
    (a : UInt32 → Attempt α) : Prop where
  counts : ∀ {x}, c.outcome = .ok x → after x = before + UInt32.ofNat c.nodes.length
  eq_under : ∀ {n : UInt32}, before ≤ n → a n = c.under before n

/-- A count that has room for some more is greater by as many. -/
theorem toNat_add_ofNat {before n : UInt32} {k : Nat} (h : before.toNat + k ≤ n.toNat) :
    (before + UInt32.ofNat k).toNat = before.toNat + k := by
  have hroom : before.toNat + k < UInt32.size := Nat.lt_of_le_of_lt h n.toNat_lt_size
  rw [UInt32.toNat_add, UInt32.toNat_ofNat_of_lt' (Nat.lt_of_le_of_lt (Nat.le_add_left k _) hroom)]
  exact Nat.mod_eq_of_lt hroom

namespace Metered

variable {α β : Type} {before : UInt32} {mid : α → UInt32} {after : β → UInt32}

/-- What spends nothing and does not depend on the budget. -/
theorem of {a : Attempt α} (h : ∀ x, a = .ok x → mid x = before) :
    Metered before mid (.of a) (fun _ => a) where
  counts hx := (h _ hx).trans (UInt32.add_zero before).symm
  eq_under _ := rfl

/-- What carries out no effect is a course without effects, if it leaves the count as it was. -/
theorem pure {x : α} (h : mid x = before) :
    Metered before mid (Pure.pure x) (fun _ => Pure.pure x) :=
  .of (fun y hy => by cases hy; exact h)

/-- What is metered step by step is metered as a whole. -/
theorem bind {c : Course α} {a : UInt32 → Attempt α} {d : α → Course β} {f : UInt32 → α → Attempt β}
    (h : Metered before mid c a)
    (hf : ∀ x, c.outcome = .ok x → Metered (mid x) after (d x) (fun n => f n x)) :
    Metered before after (c >>= d) (fun n => a n >>= f n) := by
  obtain ⟨nodes, outcome⟩ := c
  cases outcome with
  | error halt =>
    refine ⟨fun hx => (by cases hx), fun {n} hn => ?_⟩
    rw [h.eq_under hn]
    change _ = Course.under ⟨nodes, .error halt⟩ before n
    by_cases hcut : n.toNat - before.toNat < nodes.length
    · have hnode := List.getElem?_eq_getElem hcut
      rw [Course.under_of_short hnode, Course.under_of_short hnode]
      rfl
    · have hle := Nat.le_of_not_lt hcut
      rw [Course.under_of_enough hle, Course.under_of_enough hle]
      rfl
  | ok x =>
    have hx := hf x rfl
    have hmid : mid x = before + UInt32.ofNat nodes.length := h.counts rfl
    constructor
    · intro y hy
      change after y = before + UInt32.ofNat (nodes ++ (d x).nodes).length
      rw [hx.counts hy, hmid, List.length_append, UInt32.ofNat_add, UInt32.add_assoc]
    · intro n hn
      rw [h.eq_under hn]
      change _ = Course.under ⟨nodes ++ (d x).nodes, (d x).outcome⟩ before n
      by_cases hcut : n.toNat - before.toNat < nodes.length
      · have hnode := List.getElem?_eq_getElem hcut
        rw [Course.under_of_short hnode,
          Course.under_of_short ((List.getElem?_append_left hcut).trans hnode)]
        rfl
      · -- The first course is paid for, and the second one goes on with what is left.
        have hle := Nat.le_of_not_lt hcut
        have hpaid : before.toNat + nodes.length ≤ n.toNat := by
          have := UInt32.le_iff_toNat_le.1 hn
          omega
        have hspent : (mid x).toNat = before.toNat + nodes.length := by
          rw [hmid, toNat_add_ofNat hpaid]
        rw [Course.under_of_enough hle, Course.under, List.getElem?_append_right hle, Nat.sub_sub,
          ← hspent]
        exact hx.eq_under (UInt32.le_iff_toNat_le.2 (hspent ▸ hpaid))

/-- Folds are metered if their steps are. -/
theorem foldlM {γ : Type} {d : α → γ → Course α} {f : UInt32 → α → γ → Attempt α}
    (hf : ∀ i x, Metered (mid x) mid (d x i) (fun n => f n x i)) :
    ∀ (l : List γ) (x : α), Metered (mid x) mid (l.foldlM d x) (fun n => l.foldlM (f n) x)
  | [], _ => .pure rfl
  | i :: l, x => by
    simp only [List.foldlM_cons]
    exact (hf i x).bind (fun y _ => foldlM hf l y)

end Metered

/-- What carries out no effects of its own, and what comes after it. -/
theorem bindOf_metered {α β : Type} {before : UInt32} (mid : α → UInt32) {after : β → UInt32}
    {a : Attempt α} {d : α → Course β} {f : UInt32 → α → Attempt β}
    (ha : ∀ x, a = .ok x → mid x = before)
    (hf : ∀ x, Metered (mid x) after (d x) (fun n => f n x)) :
    Metered before after (Course.of a >>= d) (fun n => a >>= f n) :=
  (Metered.of ha).bind (fun x _ => hf x)

/-- A body whose bindings are forgotten at its end. -/
theorem forget_metered (b : Bindings) {before : UInt32} {c : Course (Session × Bindings)}
    {a : UInt32 → Attempt (Session × Bindings)} (h : Metered before (fun y => y.1.counter) c a) :
    Metered before (fun y => y.1.counter) (c >>= fun p => Pure.pure (p.1, b))
      (fun n => a n >>= fun p => Pure.pure (p.1, b)) :=
  h.bind (fun _ _ => .pure rfl)

/-- A plain effect carries out no others. -/
theorem Effect.Plain.course_eq {e : Effect} (h : e.Plain) (s : Site) (x : Session) :
    e.course s x = .of (e.run s x) := by
  cases e with
  | ifThenElse _ _ _ | forEach _ _ _ _ | letIn _ _ _ | reduce _ _ _ _ _ _ _ | rollRandom _ _ _ _
  | removeByPriority _ _ _ _ | chooseOne _ _ | chooseN _ _ _ => exact h.elim
  | _ => rfl

/-- An effect is begun if it can be paid for. -/
theorem Site.spend_metered (s : Site) (x : Session) :
    Metered x.counter Session.counter (s.begun x) (fun n => (s.within n).spend x) where
  counts hy := by
    cases hy
    rfl
  eq_under {n} hn := by
    rcases Nat.lt_or_eq_of_le (UInt32.le_iff_toNat_le.1 hn) with hlt | heq
    · have henough : (s.begun x).nodes.length ≤ n.toNat - x.counter.toNat := Nat.sub_pos_of_lt hlt
      rw [spend_of_lt (s := s.within n) hlt, Course.under_of_enough henough]
      rfl
    · have hnone : n.toNat - x.counter.toNat = 0 :=
        Nat.sub_eq_zero_of_le (Nat.le_of_eq heq.symm)
      rw [spend_of_eq (s := s.within n) heq, Course.under, hnone]
      rfl

mutual

/-- An effect under a budget is the effect without one, cut off where the budget ends. -/
theorem Effect.run_metered (e : Effect) (s : Site) (x : Session) :
    Metered x.counter (fun y => y.1.counter) (e.course s x) (fun n => e.run (s.within n) x) := by
  have hplain (h : e.Plain) :
      Metered x.counter (fun y => y.1.counter) (e.course s x) (fun n => e.run (s.within n) x) := by
    have hwithin (n : UInt32) : e.run (s.within n) x = e.run s x :=
      h.run_onTerms s x s.setting.mode n
    simp only [h.course_eq, hwithin]
    exact .of (fun y hy => ((h.run_settled s x).of_ok hy).1.counter_eq)
  cases e with
  | ifThenElse when yes no =>
    simp only [Effect.run, Effect.course]
    refine bindOf_metered (fun _ => x.counter) (fun _ _ => rfl) (fun holds => ?_)
    cases holds with
    | true => exact forget_metered _ (Effect.runAll_metered yes (s.enter "then") 0 x)
    | false => exact forget_metered _ (Effect.runAll_metered no (s.enter "else") 0 x)
  | forEach bind source body limit =>
    simp only [Effect.run, Effect.course]
    refine bindOf_metered (fun _ => x.counter) (fun _ _ => rfl) (fun items => ?_)
    refine bindOf_metered (fun _ => x.counter) (fun _ _ => rfl) (fun limit => ?_)
    refine Metered.bind (Metered.foldlM (fun i y => ?_) _ x) (fun y _ => .pure rfl)
    exact (Effect.runAll_metered body (s.each bind i.1 i.2) 0 y).bind (fun _ _ => .pure rfl)
  | letIn bind value body =>
    simp only [Effect.run, Effect.course]
    refine bindOf_metered (fun _ => x.counter) (fun _ _ => rfl) (fun value => ?_)
    exact forget_metered _ (Effect.runAll_metered body ((s.bind bind value).enter "in") 0 x)
  | reduce source item acc initial next result body =>
    simp only [Effect.run, Effect.course, Site.foldQuery_within]
    refine bindOf_metered (fun _ => x.counter) (fun _ _ => rfl) (fun value => ?_)
    exact forget_metered _ (Effect.runAll_metered body ((s.bind result value).enter "in") 0 x)
  | rollRandom bind min max body =>
    simp only [Effect.run, Effect.course]
    refine bindOf_metered (fun v => v.2.counter) (fun v hv => ?_) (fun (k, y) => ?_)
    · exact ((s.roll_altered x min max).of_ok hv).counter_eq
    · exact forget_metered _ (Effect.runAll_metered body ((s.bind bind (.int k)).enter "in") 0 y)
  | removeByPriority budget groups countBind body =>
    simp only [Effect.run, Effect.course, Site.removeByPriority_within]
    refine bindOf_metered (fun v => v.2.counter) (fun v hv => ?_) (fun (count, y) => ?_)
    · exact ((s.removeByPriority_altered x budget groups).of_ok hv).counter_eq
    · cases countBind with
      | none => exact forget_metered _ (Effect.runAll_metered body (s.enter "in") 0 y)
      | some name =>
        exact forget_metered _
          (Effect.runAll_metered body ((s.bind name (.int (Int64.ofNat count))).enter "in") 0 y)
  | chooseOne bind options =>
    refine Metered.of (fun y hy => ?_)
    obtain ⟨b, -, hy⟩ := bind_eq_ok hy
    cases hy
    rfl
  | chooseN bind options cardinality =>
    refine Metered.of (fun y hy => ?_)
    obtain ⟨b, -, hy⟩ := bind_eq_ok hy
    cases hy
    rfl
  | _ => exact hplain trivial

/-- Effects under a budget are the effects without one, cut off where the budget ends. -/
theorem Effect.runAll_metered (es : List Effect) (s : Site) (i : Nat) (x : Session) :
    Metered x.counter (fun y => y.1.counter) (Effect.courseAll es s i x)
      (fun n => Effect.runAll es (s.within n) i x) := by
  cases es with
  | nil =>
    simp only [Effect.runAll, Effect.courseAll]
    exact .pure rfl
  | cons e es =>
    simp only [Effect.runAll, Effect.courseAll]
    refine ((s.entry i e).spend_metered x).bind (fun y _ => ?_)
    refine (Effect.run_metered e (s.entry i e) y).bind (fun z _ => ?_)
    exact Effect.runAll_metered es { s with bindings := z.2 } (i + 1) z.1

end

section

variable (setting : Setting) (root : String) (b : Bindings) (effects : List Effect)

/-- A whole run under a budget is the run without one, cut off where the budget ends. -/
theorem Session.run_metered (x : Session) :
    Metered x.counter Session.counter (x.course setting root b effects)
      (fun n => x.run (setting.within n) root b effects) :=
  (Effect.runAll_metered effects { setting, path := root, bindings := b } 0 x).bind
    (fun _ _ => .pure rfl)

/-- The paths of the effects that a run on a state carries out, in order, if there is no budget. -/
def nodesOf (s : State) : List String :=
  (Session.course { state := s } setting root b effects).nodes

/-- What a run on a state comes to if there is no budget.  The counter starts again from 0 where it
overflows. -/
def outcomeOf (s : State) : Result Session :=
  (Session.course { state := s } setting root b effects).outcome.mapError Halt.toFault

/-- A run without a budget counts its effects, but for a multiple of 2^32. -/
theorem counter_of_outcomeOf {s : State} {x : Session}
    (h : outcomeOf setting root b effects s = .ok x) :
    x.counter = UInt32.ofNat (nodesOf setting root b effects s).length :=
  ((Session.run_metered setting root b effects { state := s }).counts (mapError_eq_ok h)).trans
    (UInt32.zero_add _)

/-- A budget under which a run is cut off. -/
theorem runEffects_of_short (s : State) {n : UInt32} {path : String}
    (h : (nodesOf setting root b effects s)[n.toNat]? = some path) :
    runEffects (setting.within n) root b effects s = .error (.shortage n.toNat path) := by
  have hrun :=
    (Session.run_metered setting root b effects { state := s }).eq_under (n := n) UInt32.zero_le
  rw [runEffects, hrun, Course.under_of_short h]
  rfl

/-- A budget that lasts for a whole run. -/
theorem runEffects_of_enough (s : State) {n : UInt32}
    (h : (nodesOf setting root b effects s).length ≤ n.toNat) :
    runEffects (setting.within n) root b effects s = outcomeOf setting root b effects s := by
  have hrun :=
    (Session.run_metered setting root b effects { state := s }).eq_under (n := n) UInt32.zero_le
  rw [runEffects, hrun, Course.under_of_enough h]
  rfl

/-- Of a run that succeeds under a budget, the operations are the effects that it carries out.  It
succeeds alike under every budget that lasts for them, and under any other it is cut off at the
first effect that cannot be paid for.  A run that fails for another reason than its budget fails
alike under every larger one.

A run that carries out more effects than its budget allows is cut off at the first one beyond it,
for having exceeded the budget.  The greatest budget is the one exception: it equals the greatest
number that can be counted, so it is never exceeded, and the effect beyond it overflows the counter.
That ends the run.  If it went on, it would come to what it comes to without a budget, where the
count of the effects is short by a multiple of 2^32. -/
theorem runEffects_within (s : State) (n : UInt32) :
    (∀ x, runEffects (setting.within n) root b effects s = .ok x →
      x.ops = (nodesOf setting root b effects s).length ∧
      ∀ k : UInt32,
        (x.ops ≤ k.toNat → runEffects (setting.within k) root b effects s = .ok x) ∧
        (k.toNat < x.ops → ∃ path, (nodesOf setting root b effects s)[k.toNat]? = some path ∧
          runEffects (setting.within k) root b effects s =
            .error (.effectBudget k.toNat path))) ∧
    (∀ f, runEffects (setting.within n) root b effects s = .error f →
      (∀ path, f ≠ .effectBudget n.toNat path) →
      ∀ k, n ≤ k → runEffects (setting.within k) root b effects s = .error f) ∧
    (∀ path, (nodesOf setting root b effects s)[n.toNat]? = some path →
      runEffects (setting.within n) root b effects s =
        .error (if n.toNat + 1 < UInt32.size then .effectBudget n.toNat path
          else .counterOverflow path)) ∧
    ((nodesOf setting root b effects s).length ≤ n.toNat →
      runEffects (setting.within n) root b effects s = outcomeOf setting root b effects s) ∧
    ∀ x, outcomeOf setting root b effects s = .ok x →
      x.ops = (nodesOf setting root b effects s).length % UInt32.size := by
  have hcut {k : UInt32} {path : String}
      (h : (nodesOf setting root b effects s)[k.toNat]? = some path) :=
    runEffects_of_short setting root b effects s h
  have hcounts {x : Session} (h : outcomeOf setting root b effects s = .ok x) :
      x.ops = (nodesOf setting root b effects s).length % UInt32.size := by
    rw [Session.ops, counter_of_outcomeOf setting root b effects h]
    exact UInt32.toNat_ofNat
  refine ⟨fun x hx => ?_, fun f hf hother k hk => ?_, fun path hpath => ?_,
    runEffects_of_enough setting root b effects s, fun x hx => hcounts hx⟩
  · have hn : (nodesOf setting root b effects s).length ≤ n.toNat := by
      by_contra hshort
      cases (hcut (List.getElem?_eq_getElem (Nat.lt_of_not_le hshort))).symm.trans hx
    have hout := (runEffects_of_enough setting root b effects s hn).symm.trans hx
    have hops : x.ops = (nodesOf setting root b effects s).length :=
      (hcounts hout).trans (Nat.mod_eq_of_lt (Nat.lt_of_le_of_lt hn n.toNat_lt_size))
    refine ⟨hops, fun k => ⟨fun hk => ?_, fun hk => ?_⟩⟩
    · rw [hops] at hk
      exact (runEffects_of_enough setting root b effects s hk).trans hout
    · have hnode := List.getElem?_eq_getElem (hops ▸ hk)
      have hcounter : k.toNat + 1 < UInt32.size :=
        Nat.lt_of_le_of_lt hk x.counter.toNat_lt_size
      refine ⟨_, hnode, ?_⟩
      rw [hcut hnode, Fault.shortage_of_lt hcounter]
  · by_cases hn : n.toNat < (nodesOf setting root b effects s).length
    · have hshort := hcut (List.getElem?_eq_getElem hn)
      cases hshort.symm.trans hf
      by_cases hcounter : n.toNat + 1 < UInt32.size
      · exact absurd (Fault.shortage_of_lt hcounter) (hother _)
      · -- There is no larger budget than the greatest.
        have hsize := k.toNat_lt_size
        have hle := UInt32.le_iff_toNat_le.1 hk
        obtain rfl : k = n := UInt32.toNat_inj.1 (by omega)
        exact hshort
    · have hn := Nat.le_of_not_lt hn
      have hk := Nat.le_trans hn (UInt32.le_iff_toNat_le.1 hk)
      have hlasts := runEffects_of_enough setting root b effects s hn
      exact (runEffects_of_enough setting root b effects s hk).trans (hlasts.symm.trans hf)
  · rw [hcut hpath, Fault.shortage]
    by_cases hcounter : n.toNat + 1 < UInt32.size
    · rw [if_pos hcounter, if_neg (Nat.not_le_of_gt hcounter)]
    · rw [if_neg hcounter, if_pos (Nat.le_of_not_lt hcounter)]

end

/-! ## A cellar -/

/-- A game in which wine is served. -/
def Definition.cellar : Definition :=
  { Definition.minimal "cellar" with globalVars := [.ofInt "served" 0 0 9] }

/-- For whom the wine is served. -/
def Setting.cellar : Setting where
  game := .ofDefinition .cellar
  actor := ⟨0⟩

/-- Where the wine is served. -/
def State.cellar : State := (Setting.cellar.game.start 2 0).toOption.getD default

/-- Every guest is served a glass. -/
def Effect.rounds : List Effect :=
  [.forAll "guest" .seats [.letIn "glass" (.int 1) [.addGlobal "served" 1]]]

/-- Two guests are served with five operations.  With four, the second glass is not served.  A roll
out of an empty range fails for that reason as soon as it can be paid for. -/
theorem runEffects_within_cellar :
    (∃ x, x.ops = 5 ∧
      runEffects (Setting.cellar.within usualOps) "cellar" ∅ Effect.rounds .cellar = .ok x ∧
      runEffects (Setting.cellar.within 5) "cellar" ∅ Effect.rounds .cellar = .ok x ∧
      runEffects (Setting.cellar.within 4) "cellar" ∅ Effect.rounds .cellar =
        .error (.effectBudget 4 "cellar/0:forEach/each[1]/0:let/in/0:addVar")) ∧
    ∃ cause path, runEffects (Setting.cellar.within usualOps) "cellar" ∅
      [.rollRandom "glasses" (.int 2) (.int 1) []] .cellar = .error (.effect cause path) := by
  constructor
  · obtain ⟨x, hx⟩ : ∃ x,
        runEffects (Setting.cellar.within usualOps) "cellar" ∅ Effect.rounds .cellar = .ok x :=
      exists_ok_of_isOk (by decide +kernel)
    have hnodes : nodesOf Setting.cellar "cellar" ∅ Effect.rounds .cellar =
        ["cellar/0:forEach", "cellar/0:forEach/each[0]/0:let",
          "cellar/0:forEach/each[0]/0:let/in/0:addVar", "cellar/0:forEach/each[1]/0:let",
          "cellar/0:forEach/each[1]/0:let/in/0:addVar"] := by
      decide +kernel
    obtain ⟨hops, hbudgets⟩ := (runEffects_within _ _ _ _ _ _).1 x hx
    rw [hnodes] at hops hbudgets
    obtain ⟨path, hpath, hshort⟩ := (hbudgets 4).2 (by rw [hops]; decide)
    cases hpath
    exact ⟨x, hops, hx, (hbudgets 5).1 (Nat.le_of_eq hops), hshort⟩
  · obtain ⟨cause, path, hroll⟩ : ∃ cause path, runEffects (Setting.cellar.within 1) "cellar" ∅
        [.rollRandom "glasses" (.int 2) (.int 1) []] .cellar = .error (.effect cause path) := by
      have heffect : (match runEffects (Setting.cellar.within 1) "cellar" ∅
          [.rollRandom "glasses" (.int 2) (.int 1) []] .cellar with
        | .error (.effect _ _) => true
        | _ => false) = true := by
        decide +kernel
      split at heffect
      · exact ⟨_, _, ‹_›⟩
      · cases heffect
    exact ⟨cause, path,
      (runEffects_within _ _ _ _ _ _).2.1 _ hroll (fun _ h => by cases h) usualOps (by decide)⟩

end Tabletop
