import Tabletop.Proofs.Play.Compound

/-!
# What a move pays

A move is carried out deed by deed.  A plan spends its cost, or lets that pass with a warning, or
has none to pay; then come its stages.  A special activity does all of its deeds in a row, at one
place among the stages of its host.  So what is carried out can be written down beforehand, as a
list of deeds, whatever the time of the special activity.

What each plan owes has been settled before that as well, when the plan was made: in the state
before the move, and by what carries the action out.

Main statements: `Rules.perform_eq_runAll`, by which carrying out a move is doing these deeds, and
`Rules.dues_of_resolve`, with an expedition that forages on credit.
-/

namespace Tabletop

/-! ## Deeds -/

/-- What a plan can do. -/
inductive Deed.Kind where
  /-- Its cost is spent. -/
  | spend
  /-- Its cost is not spent, and a warning in the name of a pipeline says so. -/
  | waive (pipeline : PipelineId)
  | stage (index : Nat) (stage : Stage)

/-- Something that a plan does. -/
structure Deed where
  plan : Plan
  kind : Deed.Kind

namespace Deed

/-- Does a deed. -/
def run (deed : Deed) (r : Rules) (x : Performance) : Check Performance :=
  match deed.kind with
  | .spend => deed.plan.runEffects r .cost "cost" deed.plan.cost x
  | .waive pipeline =>
    .ok { x with warnings := x.warnings ++ (Payment.skip pipeline).warning?.toList }
  | .stage i stage =>
    deed.plan.runEffects r .action ("stage[" ++ toString i ++ ":" ++ stage.name ++ "]")
      stage.effects x

/-- Does deeds one after the other. -/
def runAll (r : Rules) (deeds : List Deed) (x : Performance) : Check Performance :=
  deeds.foldlM (fun x deed => deed.run r x) x

/-- The warning that a deed gives. -/
def warning? (deed : Deed) : Option String :=
  match deed.kind with
  | .waive pipeline => (Payment.skip pipeline).warning?
  | _ => none

/-- Whether a deed spends a cost. -/
def spends (deed : Deed) : Bool :=
  match deed.kind with
  | .spend => true
  | _ => false

/-- The deeds of the special activity of a move, or those of its host. -/
def partOf (special : Bool) (deeds : List Deed) : List Deed :=
  deeds.filter (fun deed => deed.plan.special == special)

variable (r : Rules) {x y : Performance}

/-- The deeds of a side among two lists are those among each. -/
theorem partOf_append (special : Bool) (deeds more : List Deed) :
    partOf special (deeds ++ more) = partOf special deeds ++ partOf special more :=
  List.filter_append deeds more

/-- Doing nothing leaves a performance. -/
@[simp] theorem runAll_nil (x : Performance) : runAll r [] x = .ok x := rfl

/-- Deeds are done from the first one on. -/
theorem runAll_cons (deed : Deed) (deeds : List Deed) (x : Performance) :
    runAll r (deed :: deeds) x = deed.run r x >>= runAll r deeds := List.foldlM_cons

/-- Two lists of deeds are done one after the other. -/
theorem runAll_append (deeds more : List Deed) (x : Performance) :
    runAll r (deeds ++ more) x = runAll r deeds x >>= runAll r more := List.foldlM_append

/-- A single deed is done as it is. -/
theorem runAll_singleton (deed : Deed) (x : Performance) : runAll r [deed] x = deed.run r x := by
  rw [runAll_cons]
  exact bind_pure (deed.run r x)

/-- Effects give no warnings. -/
theorem warnings_of_runEffects {p : Plan} {cause : Cause} {root : String} {effects : List Effect}
    (h : p.runEffects r cause root effects x = .ok y) : y.warnings = x.warnings := by
  obtain ⟨session, -, h⟩ := bind_eq_ok h
  cases h
  rfl

/-- A deed adds the warning that it gives, if it gives one. -/
theorem warnings_of_run {deed : Deed} (h : deed.run r x = .ok y) :
    y.warnings = x.warnings ++ deed.warning?.toList := by
  obtain ⟨plan, kind⟩ := deed
  cases kind with
  | waive pipeline =>
    cases h
    rfl
  | spend => exact (warnings_of_runEffects r h).trans (List.append_nil _).symm
  | stage i stage => exact (warnings_of_runEffects r h).trans (List.append_nil _).symm

/-- All warnings come from the deeds, one after the other. -/
theorem warnings_of_runAll {deeds : List Deed} (h : runAll r deeds x = .ok y) :
    y.warnings = x.warnings ++ deeds.filterMap warning? := by
  induction deeds generalizing x with
  | nil =>
    cases h
    exact (List.append_nil _).symm
  | cons deed deeds ih =>
    rw [runAll_cons] at h
    obtain ⟨x₁, hfirst, h⟩ := bind_eq_ok h
    rw [ih h, warnings_of_run r hfirst, List.append_assoc]
    cases hw : deed.warning? with
    | none => simp [hw]
    | some text => simp [hw]

end Deed

/-! ## The deeds of a plan -/

namespace Plan

variable (p : Plan) (r : Rules)

/-- What a plan does about its cost. -/
def dues : List Deed :=
  match p.payment with
  | .spend => [⟨p, .spend⟩]
  | .skip pipeline => [⟨p, .waive pipeline⟩]
  | .free => []

/-- Stages as deeds of a plan, the first being number `i`. -/
def staging (i : Nat) (stages : List Stage) : List Deed :=
  (stages.zipIdx i).map (fun s => ⟨p, .stage s.2 s.1⟩)

/-- All deeds of a plan: its cost comes before its stages. -/
def deeds : List Deed := p.dues ++ p.staging 0 p.stages

/-- Stages are deeds one by one, with consecutive numbers. -/
theorem staging_cons (i : Nat) (stage : Stage) (stages : List Stage) :
    p.staging i (stage :: stages) = ⟨p, .stage i stage⟩ :: p.staging (i + 1) stages := rfl

/-- There is one deed for each stage. -/
theorem length_staging (i : Nat) (stages : List Stage) :
    (p.staging i stages).length = stages.length := by
  unfold staging
  rw [List.length_map, List.length_zipIdx]

/-- Paying for a plan is doing its dues. -/
theorem pay_eq_runAll (x : Performance) : p.pay r x = Deed.runAll r p.dues x := by
  unfold pay dues
  cases p.payment with
  | spend => exact (Deed.runAll_singleton r ⟨p, .spend⟩ x).symm
  | skip pipeline => rfl
  | free => simp [Payment.warning?]

/-- Where nothing comes in between, the stages follow one another. -/
theorem runStages_eq_runAll {after : Nat → Performance → Check Performance} :
    ∀ {stages : List Stage} {i : Nat} (x : Performance), (∀ j, i ≤ j → ∀ y, after j y = .ok y) →
      p.runStages r after i stages x = Deed.runAll r (p.staging i stages) x
  | [], _, _, _ => rfl
  | stage :: stages, i, x, hidle => by
    rw [staging_cons, Deed.runAll_cons]
    refine bind_congr fun y => ?_
    rw [hidle i (Nat.le_refl i)]
    exact runStages_eq_runAll y (fun j hj => hidle j (Nat.le_of_succ_le hj))

/-- Where deeds come in after one of the stages, they are done behind that one. -/
theorem runStages_among {after : Nat → Performance → Check Performance} {k : Nat}
    {deeds : List Deed}
    (hnow : ∀ y, after k y = Deed.runAll r deeds y) (hidle : ∀ j, j ≠ k → ∀ y, after j y = .ok y) :
    ∀ {stages : List Stage} {i : Nat} (x : Performance), i ≤ k → k < i + stages.length →
      p.runStages r after i stages x =
        Deed.runAll r ((p.staging i stages).take (k + 1 - i) ++ deeds ++
          (p.staging i stages).drop (k + 1 - i)) x
  | [], i, x, hle, hlt => by
    simp only [List.length_nil] at hlt
    omega
  | stage :: stages, i, x, hle, hlt => by
    simp only [List.length_cons] at hlt
    obtain rfl | hlater := Nat.eq_or_lt_of_le hle
    · rw [Nat.add_sub_cancel_left, staging_cons, List.take_succ_cons, List.take_zero,
        List.drop_succ_cons, List.drop_zero, List.append_assoc, Deed.runAll_append,
        Deed.runAll_singleton]
      refine bind_congr fun y => ?_
      rw [hnow, Deed.runAll_append]
      exact bind_congr fun z => p.runStages_eq_runAll r z (fun j hj => hidle j (Nat.ne_of_gt hj))
    · have hplace : k + 1 - i = (k + 1 - (i + 1)) + 1 := by omega
      rw [hplace, staging_cons, List.take_succ_cons, List.drop_succ_cons, List.cons_append,
        List.cons_append, Deed.runAll_cons]
      refine bind_congr fun y => ?_
      rw [hidle i (Nat.ne_of_lt hlater)]
      exact runStages_among hnow hidle y hlater (by omega)

/-- Carrying out a special activity as a whole is doing all of its deeds. -/
theorem runWhole_eq_runAll (x : Performance) : p.runWhole r x = Deed.runAll r p.deeds x := by
  unfold runWhole deeds
  rw [Deed.runAll_append, pay_eq_runAll]
  exact bind_congr fun y => p.runStages_eq_runAll r y (fun _ _ _ => rfl)

/-! ### Whose deeds they are, and what they warn of -/

variable {p}

/-- The dues of a plan are its own. -/
theorem plan_of_mem_dues {deed : Deed} (h : deed ∈ p.dues) : deed.plan = p := by
  unfold dues at h
  cases hpay : p.payment <;> rw [hpay] at h
  case spend => rw [List.mem_singleton.1 h]
  case skip => rw [List.mem_singleton.1 h]
  case free => cases h

/-- The stages of a plan are its own. -/
theorem plan_of_mem_staging {i : Nat} {stages : List Stage} {deed : Deed}
    (h : deed ∈ p.staging i stages) : deed.plan = p := by
  obtain ⟨s, -, rfl⟩ := List.mem_map.1 h
  rfl

/-- All deeds of a plan are its own. -/
theorem plan_of_mem_deeds {deed : Deed} (h : deed ∈ p.deeds) : deed.plan = p :=
  (List.mem_append.1 h).elim plan_of_mem_dues plan_of_mem_staging

/-- Only what is done about a cost gives warnings. -/
theorem warning?_of_mem_staging {i : Nat} {stages : List Stage} {deed : Deed}
    (h : deed ∈ p.staging i stages) : deed.warning? = none := by
  obtain ⟨s, -, rfl⟩ := List.mem_map.1 h
  rfl

/-- Stages give no warning. -/
theorem warnings_staging {i : Nat} {stages : List Stage} {deeds : List Deed}
    (h : deeds ⊆ p.staging i stages) : deeds.filterMap Deed.warning? = [] :=
  List.filterMap_eq_nil_iff.2 (fun _ hdeed => warning?_of_mem_staging (h hdeed))

/-- All deeds of plans of a side are of that side. -/
theorem partOf_of_eq {b : Bool} (hp : p.special = b) {deeds : List Deed}
    (h : ∀ deed ∈ deeds, deed.plan = p) : Deed.partOf b deeds = deeds := by
  refine List.filter_eq_self.2 (fun deed hdeed => ?_)
  rw [h deed hdeed, hp, beq_self_eq_true]

/-- No deed of a plan of the other side is of this side. -/
theorem partOf_of_ne {b : Bool} (hp : p.special ≠ b) {deeds : List Deed}
    (h : ∀ deed ∈ deeds, deed.plan = p) : Deed.partOf b deeds = [] := by
  refine List.filter_eq_nil_iff.2 (fun deed hdeed => ?_)
  rw [h deed hdeed, beq_iff_eq]
  exact hp

end Plan

/-! ## The deeds of a move -/

/-- After how many of its host's stages a special activity comes. -/
def Accompaniment.place (c : Accompaniment Plan) (stages : Nat) : Nat :=
  match c.timing with
  | .before => 0
  | .during => (c.afterStage.map (·.toNat + 1)).getD 0
  | .after => stages

namespace Accompaniment

variable {c : Accompaniment Plan}

/-- A special activity that comes before comes before the first stage. -/
theorem place_of_before (h : c.timing = .before) (stages : Nat) : c.place stages = 0 := by
  unfold place
  rw [h]

/-- A special activity that comes during its host comes after the stage that it names. -/
theorem place_of_during (h : c.timing = .during) {k : Nat}
    (hk : c.afterStage.map UInt64.toNat = some k) (stages : Nat) : c.place stages = k + 1 := by
  obtain ⟨n, hn, rfl⟩ := Option.map_eq_some_iff.1 hk
  unfold place
  rw [h, hn]
  rfl

/-- A special activity that comes after comes after all stages. -/
theorem place_of_after (h : c.timing = .after) (stages : Nat) : c.place stages = stages := by
  unfold place
  rw [h]

end Accompaniment

/-- All deeds of a host and of its special activity, if it has one. -/
def Plan.deedsWith (host : Plan) : Option (Accompaniment Plan) → List Deed
  | none => host.deeds
  | some c =>
    let stages := host.staging 0 host.stages
    let place := c.place stages.length
    host.dues ++ (stages.take place ++ c.special.deeds ++ stages.drop place)

namespace Plan

variable {host : Plan} {special : Option (Accompaniment Plan)} {c : Accompaniment Plan}

/-- The first stages of a host are its own deeds. -/
theorem plan_of_mem_take {n : Nat} {deed : Deed}
    (h : deed ∈ (host.staging 0 host.stages).take n) : deed.plan = host :=
  plan_of_mem_staging (List.mem_of_mem_take h)

/-- The last stages of a host are its own deeds. -/
theorem plan_of_mem_drop {n : Nat} {deed : Deed}
    (h : deed ∈ (host.staging 0 host.stages).drop n) : deed.plan = host :=
  plan_of_mem_staging (List.mem_of_mem_drop h)

/-- A host and its special activity do their own deeds only. -/
theorem plan_of_mem_deedsWith {deed : Deed} (h : deed ∈ host.deedsWith special) :
    deed.plan ∈ host :: special.toList.map (·.special) := by
  cases special with
  | none => exact List.mem_singleton.2 (plan_of_mem_deeds h)
  | some c =>
    have hplan : deed.plan = host ∨ deed.plan = c.special := by
      rcases List.mem_append.1 h with h | h
      · exact .inl (plan_of_mem_dues h)
      rcases List.mem_append.1 h with h | h
      · exact (List.mem_append.1 h).imp plan_of_mem_take plan_of_mem_deeds
      · exact .inl (plan_of_mem_drop h)
    simpa using hplan

/-- The deeds of the host come in their order, whatever comes between them. -/
theorem partOf_false_deedsWith (hhost : host.special = false)
    (hspecial : ∀ c, special = some c → c.special.special = true) :
    Deed.partOf false (host.deedsWith special) = host.deeds := by
  cases special with
  | none => exact partOf_of_eq hhost (fun _ => plan_of_mem_deeds)
  | some c =>
    have hother : c.special.special ≠ false := by simp [hspecial c rfl]
    dsimp only [deedsWith]
    rw [Deed.partOf_append, Deed.partOf_append, Deed.partOf_append,
      partOf_of_eq hhost (fun _ => plan_of_mem_dues),
      partOf_of_eq hhost (fun _ => plan_of_mem_take),
      partOf_of_ne hother (fun _ => plan_of_mem_deeds),
      partOf_of_eq hhost (fun _ => plan_of_mem_drop), List.append_nil, List.take_append_drop]
    rfl

/-- And so do those of the special activity. -/
theorem partOf_true_deedsWith (hhost : host.special = false) (hspecial : c.special.special = true) :
    Deed.partOf true (host.deedsWith (some c)) = c.special.deeds := by
  have hother : host.special ≠ true := by simp [hhost]
  dsimp only [deedsWith]
  rw [Deed.partOf_append, Deed.partOf_append, Deed.partOf_append,
    partOf_of_ne hother (fun _ => plan_of_mem_dues),
    partOf_of_ne hother (fun _ => plan_of_mem_take),
    partOf_of_eq hspecial (fun _ => plan_of_mem_deeds),
    partOf_of_ne hother (fun _ => plan_of_mem_drop), List.append_nil, List.nil_append,
    List.nil_append]

/-- Only what a plan does about its cost gives a warning. -/
theorem warnings_deeds (p : Plan) :
    p.deeds.filterMap Deed.warning? = p.dues.filterMap Deed.warning? := by
  rw [deeds, List.filterMap_append, warnings_staging (List.Subset.refl _), List.append_nil]

/-- The host is the first to warn. -/
theorem warnings_deedsWith : (host.deedsWith special).filterMap Deed.warning? =
    (host :: special.toList.map (·.special)).flatMap (fun p => p.dues.filterMap Deed.warning?) := by
  cases special with
  | none => simp [deedsWith, warnings_deeds]
  | some c =>
    dsimp only [deedsWith]
    rw [List.filterMap_append, List.filterMap_append, List.filterMap_append,
      warnings_staging (List.take_subset _ _), warnings_staging (List.drop_subset _ _),
      warnings_deeds]
    simp

end Plan

namespace Rules

variable {r : Rules}

/-- When its time is not now, a special activity does nothing. -/
theorem sideline_of_not_now {c : Accompaniment Plan} {timing : Timing} {after : Option Nat}
    (h : ¬ (c.timing = timing ∧ (timing = .during → c.afterStage.map UInt64.toNat = after))) :
    r.sideline (some c) timing after = pure := funext fun _ => if_neg h

/-- Carrying out a move is doing its deeds. -/
theorem perform_eq_runAll {host : Plan} {special : Option (Accompaniment Plan)}
    (htime : ∀ c, special = some c → c.timing = .during →
      ∃ k, c.afterStage.map UInt64.toNat = some k ∧ k < host.stages.length) (x : Performance) :
    r.perform host special x = Deed.runAll r (host.deedsWith special) x := by
  unfold perform Plan.deedsWith
  cases special with
  | none =>
    rw [Plan.deeds, Deed.runAll_append, host.pay_eq_runAll]
    refine bind_congr fun y => ?_
    exact (bind_pure _).trans (host.runStages_eq_runAll r y (fun _ _ _ => rfl))
  | some c =>
    dsimp only
    rw [Deed.runAll_append, host.pay_eq_runAll, Plan.length_staging]
    refine bind_congr fun y => ?_
    have hnever {timing after} (h : c.timing ≠ timing) : r.sideline (some c) timing after = pure :=
      sideline_of_not_now (fun hnow => h hnow.1)
    have hstages (h : c.timing ≠ .during) (z : Performance) :
        host.runStages r (fun i x => r.sideline (some c) .during (some i) x) 0 host.stages z =
          Deed.runAll r (host.staging 0 host.stages) z :=
      host.runStages_eq_runAll r z (fun j _ z => congrFun (hnever h) z)
    cases hc : c.timing with
    | before =>
      rw [Accompaniment.place_of_before hc, List.take_zero, List.drop_zero, List.nil_append,
        Deed.runAll_append, sideline_of_now hc (by simp), c.special.runWhole_eq_runAll]
      refine bind_congr fun z => ?_
      rw [hstages (by simp [hc]), hnever (by simp [hc])]
      exact bind_pure _
    | during =>
      obtain ⟨k, hk, hlt⟩ := htime c rfl hc
      rw [Accompaniment.place_of_during hc hk, hnever (by simp [hc]), pure_bind,
        hnever (by simp [hc])]
      refine (bind_pure _).trans (host.runStages_among r ?_ ?_ y (Nat.zero_le k) (by omega))
      · intro z
        rw [sideline_of_now hc (fun _ => hk), c.special.runWhole_eq_runAll]
      · refine fun j hj => congrFun (sideline_of_not_now (fun h => hj ?_))
        exact Option.some.inj ((h.2 rfl).symm.trans hk)
    | after =>
      have hall : (host.staging 0 host.stages).length ≤ host.stages.length :=
        (host.length_staging 0 host.stages).le
      rw [Accompaniment.place_of_after hc, List.take_of_length_le hall, List.drop_of_length_le hall,
        List.append_nil, Deed.runAll_append, hnever (by simp [hc]), pure_bind,
        hstages (by simp [hc])]
      refine bind_congr fun z => ?_
      rw [sideline_of_now hc (by simp), c.special.runWhole_eq_runAll]

end Rules

/-! ## What is owed -/

/-- Nothing speaks against paying: there is no pipeline, or one whose cost check, if it has any,
holds. -/
def Dispatch.Payable : Dispatch → View → Prop
  | .plain, _ => True
  | .matched q, v => ∀ check, q.costCheck = some check → check.eval v = .ok true
  | .unmatched, _ => False

/-- What a move shows to a seat. -/
def Move.seenBy (m : Move) (g : Game) (s : State) (seat : Seat) : View :=
  { game := g, state := s, bindings := .ofParams m.params, actor := seat }

/-- What a plan does about its cost is settled by what carries it out, in a view of its executor. -/
structure Plan.Settles (p : Plan) (free : Bool) (chosen : Dispatch) (v : View) : Prop where
  /-- A free operation owes nothing. -/
  exempts : free = true → p.dues = []
  spends : free = false → (p.dues = [⟨p, .spend⟩] ↔ chosen.Payable v)
  /-- Only a lenient pipeline whose cost check fails lets the cost pass. -/
  waives : free = false → ¬ chosen.Payable v →
    ∃ q check, chosen = .matched q ∧ q.costCheck = some check ∧ check.eval v = .ok false ∧
      q.costRule = .lenient ∧ p.dues = [⟨p, .waive q.id⟩]

section

variable {v : View}

/-- A condition that passed for a predicate holds, if there is one. -/
theorem holdsIn_eq_true {name : Predicate} {condition : Option Cond}
    (h : holdsIn name condition v = .ok true) : ∀ c, condition = some c → c.eval v = .ok true := by
  rintro c rfl
  exact mapError_eq_ok h

/-- A predicate that failed has a condition, which does not hold. -/
theorem holdsIn_eq_false {name : Predicate} {condition : Option Cond}
    (h : holdsIn name condition v = .ok false) :
    ∃ c, condition = some c ∧ c.eval v = .ok false := by
  cases condition with
  | none => cases h
  | some c => exact ⟨c, rfl, mapError_eq_ok h⟩

/-- A pipeline accepts a payment if nothing is owed, if its cost check holds, or if it is
lenient. -/
theorem Pipeline.payment_eq_ok {q : Pipeline} {free : Bool} {payment : Payment}
    (h : q.payment free v = .ok (.ok payment)) :
    (free = true ∧ payment = .free) ∨
    (free = false ∧ (Dispatch.matched q).Payable v ∧ payment = .spend) ∨
    (free = false ∧ (∃ check, q.costCheck = some check ∧ check.eval v = .ok false) ∧
      q.costRule = .lenient ∧ payment = .skip q.id) := by
  obtain ⟨legal, -, h⟩ := bind_eq_ok h
  cases legal with
  | false => cases h
  | true =>
    cases free with
    | true =>
      cases h
      exact .inl ⟨rfl, rfl⟩
    | false =>
      obtain ⟨payable, hcheck, h⟩ := bind_eq_ok h
      cases payable with
      | true =>
        cases h
        exact .inr (.inl ⟨rfl, holdsIn_eq_true hcheck, rfl⟩)
      | false =>
        cases hrule : q.costRule with
        | atomic =>
          simp only [Bool.false_eq_true, if_false, hrule] at h
          cases h
        | lenient =>
          simp only [Bool.false_eq_true, if_false, hrule] at h
          cases h
          exact .inr (.inr ⟨rfl, holdsIn_eq_false hcheck, rfl, rfl⟩)

end

namespace Plan

variable {p : Plan} {v : View} {chosen : Dispatch}

/-- A plan that is free settles its dues by paying nothing. -/
theorem settles_of_free (h : p.payment = .free) : p.Settles true chosen v where
  exempts _ := by
    unfold dues
    rw [h]
  spends hfree := by cases hfree
  waives hfree := by cases hfree

/-- A plan that spends settles its dues if nothing speaks against paying. -/
theorem settles_of_spend (h : p.payment = .spend) (hpayable : chosen.Payable v) :
    p.Settles false chosen v where
  exempts hfree := by cases hfree
  spends _ := by
    refine ⟨fun _ => hpayable, fun _ => ?_⟩
    unfold dues
    rw [h]
  waives _ hunpayable := absurd hpayable hunpayable

/-- A plan that skips its cost settles its dues if its pipeline is lenient and its cost check
fails. -/
theorem settles_of_skip {q : Pipeline} {check : Cond} (h : p.payment = .skip q.id)
    (hcheck : q.costCheck = some check) (hfails : check.eval v = .ok false)
    (hlenient : q.costRule = .lenient) : p.Settles false (.matched q) v := by
  have hdues : p.dues = [⟨p, .waive q.id⟩] := by
    unfold dues
    rw [h]
  refine ⟨fun hfree => (by cases hfree), fun _ => ⟨fun hspends => ?_, fun hpayable => ?_⟩, ?_⟩
  · rw [hdues] at hspends
    cases hspends
  · have hholds := hpayable check hcheck
    rw [hfails] at hholds
    cases hholds
  · exact fun _ _ => ⟨q, check, rfl, hcheck, hfails, hlenient, hdues⟩

/-- How a plan that has been made is carried out and paid for. -/
theorem settles_of_make {g : Game} {s : State} {m : Move} {a : Action} {free special : Bool}
    (h : make g s m a free special = .ok p) :
    ∃ chosen, dispatchPipeline p.action.id (m.seenBy g s p.executor) = .ok chosen ∧
      p.Follows chosen ∧ p.Settles free chosen (m.seenBy g s p.executor) := by
  obtain ⟨rfl, hpipeline⟩ := checkPipeline_of_make h
  obtain ⟨hplain, hcost, hstages, hpayment⟩ | ⟨q, hmatched, hcost, hstages, hpayment⟩ :=
    checkPipeline_eq_ok hpipeline
  · refine ⟨_, hplain, ⟨hcost, hstages⟩, ?_⟩
    cases free with
    | true => exact settles_of_free hpayment
    | false => exact settles_of_spend hpayment trivial
  · refine ⟨_, hmatched, ⟨hcost, hstages⟩, ?_⟩
    obtain ⟨rfl, hfree⟩ | ⟨rfl, hpayable, hspend⟩ |
        ⟨rfl, ⟨check, hcheck, hfails⟩, hlenient, hskip⟩ :=
      Pipeline.payment_eq_ok hpayment
    · exact settles_of_free hfree
    · exact settles_of_spend hspend hpayable
    · exact settles_of_skip hskip hcheck hfails hlenient

end Plan

/-- The actions that a move takes, and whether they are special activities: its host, and perhaps
one more. -/
def Move.parts (m : Move) : List (Move × Bool) :=
  (m, false) :: m.compound.toList.map (fun c => (c.special, true))

/-- A plan for a part of a move takes the action that the part names, follows what carries that out
in the state of the game, and settles what it owes by it. -/
structure Rules.Charges (r : Rules) (s : State) (free : Bool) (part : Move × Bool) (plan : Plan) :
    Prop where
  special : plan.special = part.2
  bindings : plan.bindings = .ofParams part.1.params
  declared : r.definition.action? part.1.action = some plan.action
  settled : ∃ chosen,
    dispatchPipeline plan.action.id (part.1.seenBy r.game s plan.executor) = .ok chosen ∧
      plan.Follows chosen ∧ plan.Settles free chosen (part.1.seenBy r.game s plan.executor)

namespace Plan

/-- Whether a plan should pay and does not. -/
def skips (p : Plan) (free : Bool) : Bool := !free && p.dues.all (fun deed => !deed.spends)

/-- A plan warns once if it skips its cost, and otherwise not at all. -/
theorem Settles.length_warnings {p : Plan} {free : Bool} {chosen : Dispatch} {v : View}
    (h : p.Settles free chosen v) :
    (p.dues.filterMap Deed.warning?).length = if p.skips free then 1 else 0 := by
  unfold skips
  cases free with
  | true =>
    rw [h.exempts rfl]
    rfl
  | false =>
    by_cases hpayable : chosen.Payable v
    · rw [(h.spends rfl).2 hpayable]
      rfl
    · obtain ⟨q, check, -, -, -, -, hdues⟩ := h.waives rfl hpayable
      rw [hdues]
      rfl

end Plan

namespace Rules

variable {r : Rules} {s : State} {m : Move} {x : Resolution}

/-- Planning a part of a move comes to a plan that charges for it. -/
theorem charges_of_make {part : Move} {free special : Bool} {a : Action} {plan : Plan}
    (ha : r.definition.action? part.action = some a)
    (h : Plan.make r.game s part a free special = .ok plan) :
    r.Charges s free (part, special) plan := by
  obtain ⟨rfl, hbindings, hspecial⟩ : plan.For part a special :=
    (Plan.make_asks r.game s part a free special).of_ok h
  exact ⟨hspecial, hbindings, ha, Plan.settles_of_make h⟩

/-- The number of warnings of several plans is the number of those that skip their costs. -/
theorem length_warnings {free : Bool} {parts : List (Move × Bool)} {plans : List Plan}
    (h : List.Forall₂ (r.Charges s free) parts plans) :
    (plans.flatMap (fun p => p.dues.filterMap Deed.warning?)).length =
      plans.countP (fun p => p.skips free) := by
  induction h with
  | nil => rfl
  | cons hplan _ ih =>
    obtain ⟨chosen, -, -, hsettles⟩ := hplan.settled
    rw [List.flatMap_cons, List.length_append, ih, hsettles.length_warnings, List.countP_cons,
      Nat.add_comm]

/-- The plans of a resolved move pay as its parts have to. -/
theorem exists_charges (h : r.resolve s m = .ok x) :
    ∃ host special, host.special = false ∧ (∀ c, special = some c → c.special.special = true) ∧
      List.Forall₂ (r.Charges s m.free) m.parts (host :: special.toList.map (·.special)) ∧
      Deed.runAll r (host.deedsWith special) { session := { state := s } } =
        .ok { session := x.session, warnings := x.warnings } ∧
      (host.action, host.executor) = (x.action, x.executor) ∧
      special.map (fun c => (c.special.action, c.special.executor)) = x.special := by
  obtain ⟨a, grant, host, special, y, -, ha, -, -, hhost, hspecial, hy, rfl⟩ :=
    resolve_eq_ok_iff.1 h
  have hcharges := charges_of_make ha hhost
  refine ⟨host, special, hcharges.special, ?_⟩
  cases hm : m.compound with
  | none =>
    unfold planCompound at hspecial
    rw [hm] at hspecial
    cases hspecial
    rw [perform_eq_runAll (fun c hc => by cases hc)] at hy
    unfold Move.parts
    rw [hm]
    exact ⟨fun c hc => (by cases hc), .cons hcharges .nil, hy, rfl, rfl⟩
  | some c =>
    obtain ⟨b, plan, hb, hplan, rfl, htime⟩ := planCompound_of_compound hm hspecial
    have hmore := charges_of_make hb hplan
    rw [perform_eq_runAll (fun d hd => Option.some.inj hd ▸ htime)] at hy
    unfold Move.parts
    rw [hm]
    exact ⟨fun d hd => Option.some.inj hd ▸ hmore.special, .cons hcharges (.cons hmore .nil), hy,
      rfl, rfl⟩

/-- A resolved move has come about by a list of deeds of its plans, one plan for its host and one
for its special activity, if it has one.  Each plan first does what it owes, and then each of its
stages, once and in order: a free operation owes nothing; otherwise the plan spends its cost once,
exactly if there is no pipeline or the cost check of its pipeline is absent or holds in the state
before the move; and if the check fails, then the pipeline is lenient, and the plan spends nothing
and warns once, in the name of the pipeline.  There are as many warnings as there are costs that
have been skipped. -/
theorem dues_of_resolve (h : r.resolve s m = .ok x) :
    ∃ (plans : List Plan) (script : List Deed),
      plans.map (fun p => (p.action, p.executor)) = (x.action, x.executor) :: x.special.toList ∧
      List.Forall₂ (r.Charges s m.free) m.parts plans ∧
      Deed.runAll r script { session := { state := s } } =
        .ok { session := x.session, warnings := x.warnings } ∧
      (∀ deed ∈ script, deed.plan ∈ plans) ∧
      (∀ plan ∈ plans,
        Deed.partOf plan.special script = plan.dues ++ plan.staging 0 plan.stages) ∧
      x.warnings = plans.flatMap (fun p => p.dues.filterMap Deed.warning?) ∧
      x.warnings.length = plans.countP (fun p => p.skips m.free) := by
  obtain ⟨host, special, hhost, hspecial, hcharges, hrun, hname, hnames⟩ := exists_charges h
  have hwarnings : x.warnings =
      (host :: special.toList.map (·.special)).flatMap (fun p => p.dues.filterMap Deed.warning?) :=
    (Deed.warnings_of_runAll r hrun).trans Plan.warnings_deedsWith
  refine ⟨_, _, ?_, hcharges, hrun, fun _ => Plan.plan_of_mem_deedsWith, ?_, hwarnings, ?_⟩
  · rw [List.map_cons, hname, ← hnames]
    cases special <;> rfl
  · intro plan hplan
    rcases List.mem_cons.1 hplan with rfl | hplan
    · rw [hhost]
      exact Plan.partOf_false_deedsWith hhost hspecial
    · obtain ⟨c, hc, rfl⟩ := List.mem_map.1 hplan
      obtain rfl := Option.mem_toList.1 hc
      rw [hspecial c rfl]
      exact Plan.partOf_true_deedsWith hhost (hspecial c rfl)
  · rw [hwarnings]
    exact length_warnings hcharges

end Rules

/-! ## An expedition -/

/-- A game with a march that uses up supplies.  Meanwhile one may forage, on credit if supplies are
short. -/
def Definition.expedition : Definition :=
  { Definition.minimal "expedition" with
    globalVars := [.ofInt "supplies" 3 0 9]
    actions := [{ id := "march", cost := [.addGlobal "supplies" (-2)] }, { id := "forage" }]
    pipelines := [
      { id := "foraging", action := "forage"
        costCheck := some (.ge (.globalVar "supplies") (.int 5))
        cost := [.addGlobal "supplies" (-5)]
        stages := [{ name := "gather", effects := [.addGlobal "supplies" 1] }]
        costRule := .lenient }] }

/-- The rules of that game, under the usual limits. -/
def Rules.expedition : Rules := { game := .ofDefinition .expedition }

/-- Where two seats start that game. -/
def State.expedition : State := (Rules.expedition.game.start 2 0).toOption.getD default

/-- A march with foraging after its only stage. -/
def Move.expedition : Move := (Move.named "march").accompaniedBy (.named "forage") .during (some 0)

/-- The march is paid for, and the foraging is not: of three supplies two are spent and one is
gathered. -/
theorem Rules.dues_of_resolve_expedition :
    ∃ (x : Resolution) (plans : List Plan) (script : List Deed),
      Rules.expedition.resolve .expedition .expedition = .ok x ∧
      Deed.runAll .expedition script { session := { state := .expedition } } =
        .ok { session := x.session, warnings := x.warnings } ∧
      x.session.state.globalVar? "supplies" = some 2 ∧
      plans.map (·.action.id) = ["march", "forage"] ∧
      x.warnings = [
        "pipeline `foraging`: cost validation failed, resolving without spending cost"] ∧
      plans.countP (fun p => p.skips false) = 1 := by
  obtain ⟨x, hx⟩ : ∃ x, Rules.expedition.resolve .expedition .expedition = .ok x :=
    exists_ok_of_isOk (by decide +kernel)
  have hsupplies : (Rules.expedition.resolve .expedition .expedition).toOption.bind
      (fun x => x.session.state.globalVar? "supplies") = some 2 := by decide +kernel
  have hnames : (Rules.expedition.resolve .expedition .expedition).toOption.map
      (fun x => (x.action.id, x.special.toList.map (·.1.id), x.warnings)) =
        some ("march", ["forage"], [
          "pipeline `foraging`: cost validation failed, resolving without spending cost"]) := by
    decide +kernel
  rw [hx] at hsupplies hnames
  obtain ⟨hmarch, hmore⟩ := Prod.mk.inj (Option.some.inj hnames)
  obtain ⟨hforage, hwarnings⟩ := Prod.mk.inj hmore
  obtain ⟨plans, script, hplans, -, hrun, -, -, -, hcount⟩ := Rules.dues_of_resolve hx
  refine ⟨x, plans, script, hx, hrun, hsupplies, ?_, hwarnings, ?_⟩
  · have hids := congrArg (List.map (fun p => p.1.id)) hplans
    rw [List.map_map, List.map_cons] at hids
    exact hids.trans (congrArg₂ List.cons hmarch hforage)
  · exact hcount.symm.trans (congrArg List.length hwarnings)

end Tabletop
