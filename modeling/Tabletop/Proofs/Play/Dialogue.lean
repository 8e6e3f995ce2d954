import Tabletop.Proofs.Effect.Paths
import Tabletop.Proofs.Play.Decisions
import Tabletop.Proofs.Play.Payment

/-!
# Dialogues

A client fills in a move by answering what it is asked, one decision after the other, and may key
the dialogue on the ids of the decisions and the sides to which they are put.  No side of a move is
asked twice under one id: an id gives away the name that is asked for, and that name has been
answered.

The ids alone do not suffice.  The effects of a special activity ask under ids of their own; its
declared params do not, and where the host declares a param of the same name, there are two
decisions with one id.

What stands in an id is where the decision comes up, and the name that is asked for.  The name may
have placeholders, and other values do not come in.

Main statement: `Rules.dialogue_ids`, with a tournament in which both sides are asked for a horse.
-/

namespace Tabletop

/-! ## Decision points -/

/-- A part of what a plan runs. -/
inductive Part where
  | cost
  | stage (index : Nat) (name : String)

namespace Part

/-- The start of the paths in a part. -/
def root : Part → String
  | cost => "cost"
  | stage i name => "stage[" ++ toString i ++ ":" ++ name ++ "]"

/-- Why the effects of a part run. -/
def cause : Part → Cause
  | cost => .cost
  | stage _ _ => .action

end Part

/-- Where a move can be asked something: at a declared param of one of its sides, or at a choice
among the effects of one of them. -/
inductive Point where
  | declared (special : Bool) (name : String)
  | choice (special : Bool) (part : Part) (spot : Spot) (bind : String)

namespace Point

/-- The names whose values a decision point reads. -/
def reads : Point → List String
  | declared _ _ => []
  | choice _ _ _ bind => Bindings.placeholders bind

/-- The name that is asked for at a decision point, where some names have values. -/
def name (p : Point) (b : Bindings) : Result String :=
  match p with
  | declared _ name => .ok name
  | choice _ _ _ bind => b.fill bind

/-- The id under which a name is asked for at a decision point. -/
def id (p : Point) (name : String) : String :=
  match p with
  | declared _ _ => "param::" ++ name
  | choice special part spot _ =>
    (if special then "sa." else "") ++ part.root ++ spot.text ++ "::" ++ name

end Point

/-- The effects that a deed runs, if it runs any. -/
def Deed.part? (deed : Deed) : Option (Part × List Effect) :=
  match deed.kind with
  | .spend => some (.cost, deed.plan.cost)
  | .waive _ => none
  | .stage i stage => some (.stage i stage.name, stage.effects)

/-- A move is asked something at a decision point, where some names have values: at a declared param
that it lacks when it is planned, or at a choice to which it comes when its deeds are done one after
the other. -/
inductive Rules.AsksAt (r : Rules) (s : State) (m : Move) (q : Request) :
    Point → Bindings → Prop where
  | declared {p : Param} (hplan : r.plan s m = .error (.pending q))
      (hp : p ∈ r.declared (m.side q.special).action) (hname : q.decision.name = p.name) :
      AsksAt r s m q (.declared q.special p.name) (.ofParams (m.side q.special).params)
  | choice {t : Planned} {before after : List Deed} {deed : Deed} {x : Performance} {part : Part}
      {effects : List Effect} {c : Call} {spot : Spot} {bind : String} (ht : r.plan s m = .ok t)
      (hdeeds : t.host.deedsWith t.special = before ++ deed :: after)
      (hbefore : Deed.runAll r before (.start s) = .ok x)
      (hpart : deed.part? = some (part, effects))
      (hmakes : x.session.Makes (deed.plan.setting r part.cause) (deed.plan.pathStart ++ part.root)
        deed.plan.bindings effects c)
      (hspot : spot.effect? effects = some c.effect)
      (hpath : c.site.path = deed.plan.pathStart ++ part.root ++ spot.text)
      (hbind : c.effect.template? = some bind) (hasks : c.run = .error (.pending q.decision))
      (hside : q.special = deed.plan.special) :
      AsksAt r s m q (.choice q.special part spot bind) c.site.bindings

/-! ### Where a request comes from -/

/-- What effects of a plan ask for is asked of the side of the plan. -/
theorem Plan.run_of_pending {p : Plan} {r : Rules} {cause : Cause} {root : String}
    {effects : List Effect} {x : Performance} {q : Request}
    (h : p.runEffects r cause root effects x = .error (.pending q)) :
    q.special = p.special ∧
      x.session.run (p.setting r cause) (p.pathStart ++ root) p.bindings effects =
        .error (.pending q.decision) := by
  unfold runEffects at h
  cases hrun : x.session.run (p.setting r cause) (p.pathStart ++ root) p.bindings effects with
  | ok y =>
    rw [hrun] at h
    cases h
  | error halt =>
    rw [hrun] at h
    cases halt with
    | fault fault => cases h
    | refused name cause => cases h
    | pending d =>
      cases h
      exact ⟨rfl, rfl⟩

/-- A deed asks by the effects that it runs. -/
theorem Deed.exists_part_of_pending {deed : Deed} {r : Rules} {x : Performance} {q : Request}
    (h : deed.run r x = .error (.pending q)) :
    ∃ part effects, deed.part? = some (part, effects) ∧ q.special = deed.plan.special ∧
      x.session.run (deed.plan.setting r part.cause) (deed.plan.pathStart ++ part.root)
        deed.plan.bindings effects = .error (.pending q.decision) := by
  obtain ⟨plan, kind⟩ := deed
  cases kind with
  | spend => exact ⟨.cost, _, rfl, Plan.run_of_pending h⟩
  | waive pipeline => cases h
  | stage i stage => exact ⟨.stage i stage.name, _, rfl, Plan.run_of_pending h⟩

namespace Rules

variable {r : Rules} {s : State} {m : Move} {q : Request} {t : Planned}

/-- Carrying out a planned move is doing its deeds. -/
theorem perform_of_plan (ht : r.plan s m = .ok t) (x : Performance) :
    r.perform t.host t.special x = Deed.runAll r (t.host.deedsWith t.special) x := by
  obtain ⟨⟨a, grant⟩, -, h⟩ := bind_eq_ok ht
  obtain ⟨host, -, h⟩ := bind_eq_ok h
  obtain ⟨special, hspecial, h⟩ := bind_eq_ok h
  cases h
  apply perform_eq_runAll
  rintro c rfl
  cases hm : m.compound with
  | none =>
    unfold planCompound at hspecial
    rw [hm] at hspecial
    cases hspecial
  | some d =>
    obtain ⟨b, plan, -, -, hc, htime⟩ := planCompound_of_compound hm hspecial
    cases hc
    exact htime

/-- Planning asks for a declared param of the side to which the request is made. -/
theorem exists_declared_of_plan (h : r.plan s m = .error (.pending q)) :
    ∃ p ∈ r.declared (m.side q.special).action, ∃ values, q.decision = p.decision values := by
  have hdeclared {a : Action} (ha : r.definition.action? (m.side q.special).action = some a)
      {p : Param} (hp : p ∈ a.params) : p ∈ r.declared (m.side q.special).action := by
    unfold declared
    rw [ha]
    exact hp
  obtain ⟨⟨a, grant⟩, hscreened, h⟩ := Proper.bind_eq_pending (r.screen_asks s m) h
  have ha := (r.screen_asks s m).of_ok hscreened
  rcases bind_eq_error h with hmake | ⟨host, -, h⟩
  · obtain ⟨p, hp, values, rfl⟩ := Plan.param_of_make hmake
    exact ⟨p, hdeclared (by rw [m.side_false]; exact ha) hp, values, rfl⟩
  · rcases bind_eq_error h with hcompound | ⟨special, -, h⟩
    · unfold planCompound at hcompound
      cases hc : m.compound with
      | none =>
        rw [hc] at hcompound
        cases hcompound
      | some c =>
        rw [hc] at hcompound
        rcases bind_eq_error hcompound with hspecial | ⟨d, -, h⟩
        · obtain ⟨⟨⟩, -, hspecial⟩ := Proper.bind_eq_pending (checkTiming_asks c _ _) hspecial
          cases hb : r.definition.action? c.special.action with
          | none =>
            rw [hb] at hspecial
            cases hspecial
          | some b =>
            rw [hb] at hspecial
            rcases bind_eq_error hspecial with hmake | ⟨plan, -, h⟩
            · obtain ⟨p, hp, values, rfl⟩ := Plan.param_of_make hmake
              exact ⟨p, hdeclared (by rw [Move.side_true hc]; exact hb) hp, values, rfl⟩
            · cases h
        · cases h
    · cases h

/-- What a move is asked, it is asked at a decision point. -/
theorem exists_asksAt (h : r.resolve s m = .error (.pending q)) : ∃ p b, r.AsksAt s m q p b := by
  cases ht : r.plan s m with
  | error stop =>
    rw [r.resolve_eq, ht] at h
    cases h
    obtain ⟨p, hp, values, hq⟩ := exists_declared_of_plan ht
    exact ⟨_, _, .declared ht hp (congrArg Decision.name hq)⟩
  | ok t =>
    have hdeeds := Planned.perform_of_error ht h
    rw [perform_of_plan ht] at hdeeds
    obtain ⟨before, deed, after, x, hdeeds, hbefore, hdeed⟩ := foldlM_eq_error hdeeds
    obtain ⟨part, effects, hpart, hside, hrun⟩ := Deed.exists_part_of_pending hdeed
    obtain ⟨c, spot, bind, hmakes, hasks, hspot, hpath, hbind⟩ :=
      Session.exists_spot_of_pending hrun
    exact ⟨_, _, .choice ht hdeeds hbefore hpart hmakes hspot hpath hbind hasks hside⟩

/-- The name that is asked for at a decision point, and the id. -/
theorem AsksAt.name_id {p : Point} {b : Bindings} (h : r.AsksAt s m q p b) :
    p.name b = .ok q.decision.name ∧ q.decision.id = p.id q.decision.name := by
  cases h with
  | @declared p hplan hp hname =>
    obtain ⟨o, -, values, hq⟩ := exists_declared_of_plan hplan
    rw [hq] at hname ⊢
    exact ⟨congrArg _ hname.symm, rfl⟩
  | @choice t before after deed x part effects c spot bind ht _ _ _ _ _ hpath hbind hasks hside =>
    obtain ⟨hname, hid⟩ := Call.name_of_pending hbind hasks
    refine ⟨hname, ?_⟩
    rw [hid, hpath, Point.id, hside]
    rfl

end Rules

/-! ### Reading ids -/

/-- Parts can be read back from the starts of paths, if stages of one number have one name. -/
theorem Part.eq_of_root_append {part part' : Part} {x y : String}
    (hnames : ∀ i name name', part = .stage i name → part' = .stage i name' → name = name')
    (h : part.root ++ x = part'.root ++ y) : part = part' ∧ x = y := by
  have hchars := congrArg String.toList h
  cases part with
  | cost =>
    cases part' with
    | cost => exact ⟨rfl, (String.append_right_inj _).1 h⟩
    | stage j name' =>
      simp only [root, String.toList_append, List.append_assoc] at hchars
      exact absurd (List.cons.inj hchars).1 (by decide)
  | stage i name =>
    cases part' with
    | cost =>
      simp only [root, String.toList_append, List.append_assoc] at hchars
      exact absurd (List.cons.inj hchars).1 (by decide)
    | stage j name' =>
      have hsplit (i : Nat) (name x : String) : ((stage i name).root ++ x).toList =
          "stage[".toList ++ (i.repr.toList ++ ':' :: (name ++ "]" ++ x).toList) := by
        simp only [root, String.toList_append, List.append_assoc]
        rfl
      rw [hsplit, hsplit] at hchars
      obtain ⟨hindex, -, hrest⟩ := eq_of_append_cons_eq (p := Char.isDigit) rfl rfl
        (fun _ => isDigit_of_mem_repr) (fun _ => isDigit_of_mem_repr)
        (List.append_cancel_left hchars)
      obtain rfl := eq_of_repr_eq (String.toList_inj.1 hindex)
      obtain rfl := hnames i name name' rfl rfl
      exact ⟨rfl, (String.append_right_inj _).1 (String.toList_inj.1 hrest)⟩

namespace Point

/-- The first two letters of an id tell declared params from choices, and the choices of a special
activity from those of a host. -/
theorem take_id (p : Point) (name : String) : (p.id name).toList.take 2 =
    match p with
    | declared _ _ => ['p', 'a']
    | choice true _ _ _ => ['s', 'a']
    | choice false .cost _ _ => ['c', 'o']
    | choice false (.stage _ _) _ _ => ['s', 't'] := by
  cases p with
  | declared special n =>
    simp only [id, String.toList_append]
    rfl
  | choice special part spot bind =>
    simp only [id, String.toList_append, List.append_assoc]
    cases special with
    | true => rfl
    | false =>
      cases part with
      | cost => rfl
      | stage i n =>
        simp only [Part.root, String.toList_append, List.append_assoc]
        rfl

/-- Params and choices are asked for under different ids. -/
theorem id_declared_ne (side : Bool) (n : String) (special : Bool) (part : Part) (spot : Spot)
    (bind name name' : String) :
    (declared side n).id name ≠ (choice special part spot bind).id name' := by
  intro h
  have hletters := congrArg (fun id => id.toList.take 2) h
  simp only [take_id] at hletters
  cases special with
  | true => cases hletters
  | false => cases part <;> cases hletters

/-- The side, the place and the name of a choice can be read back from its id, if stages of one
number on one side have one name. -/
theorem eq_of_id_choice {special special' : Bool} {part part' : Part} {spot spot' : Spot}
    {bind bind' name name' : String}
    (hnames : special = special' → ∀ i n n', part = .stage i n → part' = .stage i n' → n = n')
    (h : (choice special part spot bind).id name = (choice special' part' spot' bind').id name') :
    special = special' ∧ part = part' ∧ spot = spot' ∧ name = name' := by
  have hletters := congrArg (fun id => id.toList.take 2) h
  simp only [take_id] at hletters
  obtain rfl : special = special' := by
    cases special with
    | true =>
      cases special' with
      | true => rfl
      | false => cases part' <;> cases hletters
    | false =>
      cases special' with
      | true => cases part <;> cases hletters
      | false => rfl
  simp only [id, String.append_assoc, String.append_right_inj] at h
  obtain ⟨hpart, hrest⟩ := Part.eq_of_root_append (hnames rfl) h
  rw [← String.append_assoc, ← @String.append_assoc spot'.text] at hrest
  exact ⟨rfl, hpart, Spot.eq_of_text_append hrest⟩

end Point

/-! ## Two requests -/

namespace Plan

variable {host : Plan} {special : Option (Accompaniment Plan)}

/-- The deeds that are done together are those of the two plans. -/
theorem mem_deeds_of_deedsWith {deed : Deed} (h : deed ∈ host.deedsWith special) :
    deed ∈ deed.plan.deeds := by
  cases special with
  | none =>
    rw [plan_of_mem_deeds h]
    exact h
  | some c =>
    rcases List.mem_append.1 h with h | h
    · rw [plan_of_mem_dues h]
      exact List.mem_append_left _ h
    rcases List.mem_append.1 h with h | h
    · rcases List.mem_append.1 h with h | h
      · rw [plan_of_mem_take h]
        exact List.mem_append_right _ (List.mem_of_mem_take h)
      · rw [plan_of_mem_deeds h]
        exact h
    · rw [plan_of_mem_drop h]
      exact List.mem_append_right _ (List.mem_of_mem_drop h)

/-- The stage that a deed of a plan runs is one of its stages. -/
theorem stage_of_mem_deeds {p : Plan} {deed : Deed} (h : deed ∈ p.deeds) {i : Nat} {name : String}
    {effects : List Effect} (hpart : deed.part? = some (.stage i name, effects)) :
    p.stages[i]?.map Stage.name = some name := by
  rcases List.mem_append.1 h with hdues | hstaging
  · unfold dues at hdues
    cases hpay : p.payment <;> rw [hpay] at hdues
    case spend =>
      rw [List.mem_singleton.1 hdues] at hpart
      cases hpart
    case skip pipeline =>
      rw [List.mem_singleton.1 hdues] at hpart
      cases hpart
    case free => cases hdues
  · obtain ⟨⟨stage, j⟩, hstage, rfl⟩ := List.mem_map.1 hstaging
    cases hpart
    rw [List.mem_zipIdx_iff_getElem?.1 hstage]
    rfl

end Plan

namespace Planned

/-- The plan of a host, and that of its special activity, if it has one. -/
def plans (t : Planned) : List Plan := t.host :: t.special.toList.map (·.special)

variable {r : Rules} {m m' : Move} {t t' : Planned} {p o : Plan}

/-- There is one plan for each side. -/
theorem For.eq_of_side (h : t.For r m) (hp : p ∈ t.plans) (ho : o ∈ t.plans)
    (hside : p.special = o.special) : p = o := by
  obtain ⟨a, -, hhost⟩ := h.host
  have hspecial {p : Plan} (hp : p ∈ t.special.toList.map (·.special)) :
      p.special = true ∧ ∃ c, t.special = some c ∧ p = c.special := by
    obtain ⟨c, hc, rfl⟩ := List.mem_map.1 hp
    have hc := Option.mem_toList.1 hc
    obtain ⟨d, b, -, hplan⟩ := h.special c hc
    exact ⟨hplan.special, c, hc, rfl⟩
  rcases List.mem_cons.1 hp with rfl | hp
  · rcases List.mem_cons.1 ho with rfl | ho
    · rfl
    · cases hhost.special.symm.trans (hside.trans (hspecial ho).1)
  · obtain ⟨hp, c, hc, rfl⟩ := hspecial hp
    rcases List.mem_cons.1 ho with rfl | ho
    · cases hp.symm.trans (hside.trans hhost.special)
    · obtain ⟨-, d, hd, rfl⟩ := hspecial ho
      cases hc.symm.trans hd
      rfl

/-- Moves with more selections have the same plans, for other selections. -/
theorem Alike.exists_under (h : t.Alike t' m') (hp : p ∈ t'.plans) :
    ∃ o ∈ t.plans, ∃ b, p = o.under b := by
  rcases List.mem_cons.1 hp with rfl | hp
  · exact ⟨t.host, List.mem_cons_self, _, h.host⟩
  · obtain ⟨c', hc', rfl⟩ := List.mem_map.1 hp
    rw [h.special, Option.mem_toList] at hc'
    obtain ⟨c, hc, rfl⟩ := Option.map_eq_some_iff.1 hc'
    have hmem : c.special ∈ t.special.toList.map (·.special) :=
      List.mem_map.2 ⟨c, Option.mem_toList.2 hc, rfl⟩
    exact ⟨c.special, List.mem_cons_of_mem _ hmem, _, rfl⟩

/-- With more selections, a move goes through the same stages on either side. -/
theorem Alike.stages_eq (h : t.Alike t' m') (hfor : t.For r m) (ho : o ∈ t.plans)
    (hp : p ∈ t'.plans) (hside : o.special = p.special) : o.stages = p.stages := by
  obtain ⟨o', ho', b, rfl⟩ := h.exists_under hp
  rw [hfor.eq_of_side ho ho' hside]
  rfl

/-- With more selections, a stage of a number on one side has the same name. -/
theorem Alike.stage_name_eq (h : t.Alike t' m') (hfor : t.For r m) {deed deed' : Deed}
    (hdeed : deed ∈ t.host.deedsWith t.special) (hdeed' : deed' ∈ t'.host.deedsWith t'.special)
    (hside : deed.plan.special = deed'.plan.special) {i : Nat} {name name' : String}
    {effects effects' : List Effect} (hpart : deed.part? = some (.stage i name, effects))
    (hpart' : deed'.part? = some (.stage i name', effects')) : name = name' := by
  have hstages : deed.plan.stages = deed'.plan.stages := h.stages_eq hfor
    (Plan.plan_of_mem_deedsWith hdeed) (Plan.plan_of_mem_deedsWith hdeed') hside
  have hstage := Plan.stage_of_mem_deeds (Plan.mem_deeds_of_deedsWith hdeed) hpart
  have hstage' := Plan.stage_of_mem_deeds (Plan.mem_deeds_of_deedsWith hdeed') hpart'
  rw [hstages, hstage'] at hstage
  exact (Option.some.inj hstage).symm

end Planned

/-- With more selections, a move takes the same action on either side. -/
theorem Move.Within.action_side {m m' : Move} (h : m.Within m') (special : Bool) :
    (m'.side special).action = (m.side special).action := by
  have hcompound := h.compound
  unfold Move.side
  revert hcompound
  cases m.compound <;> cases m'.compound <;> intro hcompound <;> cases hcompound
  · exact h.action
  · rename_i halong
    cases special with
    | true => exact halong.action
    | false => exact h.action

namespace Rules

variable {r : Rules} {s : State} {m m' : Move} {q q' : Request}

/-- Two requests ask both sides of a move for declared params, and these have one name. -/
structure Doubles (r : Rules) (m : Move) (q q' : Request) : Prop where
  sides : q.special ≠ q'.special
  name : q.decision.name = q'.decision.name
  declared : ∃ p ∈ r.declared (m.side q.special).action, p.name = q.decision.name
  declared' : ∃ p ∈ r.declared (m.side q'.special).action, p.name = q'.decision.name

/-- A request that comes up on both sides of a move with more selections does so for the move. -/
theorem Doubles.of_within (h : r.Doubles m' q q') (hm : m.Within m') : r.Doubles m q q' := by
  obtain ⟨hsides, hname, hdeclared, hdeclared'⟩ := h
  rw [hm.action_side] at hdeclared hdeclared'
  exact ⟨hsides, hname, hdeclared, hdeclared'⟩

/-- What a move is asked after an answer, it is asked under another id, unless both sides are asked
for declared params of one name. -/
theorem doubles_of_id_eq (h : r.resolve s m = .error (.pending q)) {v : Selection}
    (hm : (m.answer q v).Within m') (h' : r.resolve s m' = .error (.pending q'))
    (hid : q.decision.id = q'.decision.id) : r.Doubles m q q' := by
  have hwithin : m.Within m' := (within_answer h v).trans hm
  have hanswered (hside : q.special = q'.special) : q.decision.name ≠ q'.decision.name :=
    fun hname => name_ne_of_selected hm h' hside.symm hname.symm
  obtain ⟨p, b, hp⟩ := exists_asksAt h
  obtain ⟨p', b', hp'⟩ := exists_asksAt h'
  rw [hp.name_id.2, hp'.name_id.2] at hid
  cases hp with
  | @declared o hplan ho hname =>
    cases hp' with
    | @declared o' hplan' ho' hname' =>
      have hnames : q.decision.name = q'.decision.name := (String.append_right_inj _).1 hid
      rw [hwithin.action_side] at ho'
      exact ⟨fun hside => hanswered hside hnames, hnames, ⟨o, ho, hname.symm⟩,
        ⟨o', ho', hname'.symm⟩⟩
    | choice => exact absurd hid (Point.id_declared_ne _ _ _ _ _ _ _ _)
  | @choice t before after deed x part effects c spot bind ht hdeeds _ hpart _ _ _ _ _ hside =>
    cases hp' with
    | declared => exact absurd hid.symm (Point.id_declared_ne _ _ _ _ _ _ _ _)
    | @choice t' before' after' deed' x' part' effects' c' spot' bind' ht' hdeeds' _ hpart' _ _
      _ _ _
        hside' =>
      have hdeed : deed ∈ t.host.deedsWith t.special :=
        hdeeds ▸ List.mem_append_right before List.mem_cons_self
      have hdeed' : deed' ∈ t'.host.deedsWith t'.special :=
        hdeeds' ▸ List.mem_append_right before' List.mem_cons_self
      have halike : t.Alike t' m' := (r.plan_alike s hwithin ht).of_ok ht'
      obtain ⟨hsame, -, -, hnames⟩ := Point.eq_of_id_choice (fun hsame i n n' hn hn' => by
        subst hn hn'
        exact halike.stage_name_eq ((r.plan_asks s m).of_ok ht) hdeed hdeed'
          (hside.symm.trans (hsame.trans hside')) hpart hpart') hid
      exact absurd hnames (hanswered hsame)

/-! ## Dialogues -/

/-- What a move is asked, if it is asked something. -/
def request? (r : Rules) (s : State) (m : Move) : Option Request :=
  match r.standing s m with
  | .ok (.pending q) => some q
  | _ => none

/-- What a move is asked, one request after the other, where answers are given one after the
other. -/
def dialogue (r : Rules) (s : State) : Move → List Selection → List Request
  | m, [] => (r.request? s m).toList
  | m, v :: vs =>
    match r.request? s m with
    | some q => q :: dialogue r s (m.answer q v) vs
    | none => []

/-- A move is asked a request exactly if resolving it stops for that request. -/
theorem request?_eq_some : r.request? s m = some q ↔ r.resolve s m = .error (.pending q) := by
  rw [← standing_eq_pending]
  unfold request?
  split
  · rename_i q' hq'
    rw [hq']
    simp
  · rename_i hnot
    exact ⟨fun h => (by cases h), fun h => absurd h (hnot q)⟩

/-- What comes up in a dialogue is asked of the move with more selections. -/
theorem exists_of_mem_dialogue :
    ∀ {answers : List Selection} {m : Move}, q ∈ r.dialogue s m answers →
      ∃ m', m.Within m' ∧ r.resolve s m' = .error (.pending q)
  | [], m, h => ⟨m, .refl m, request?_eq_some.1 (Option.mem_toList.1 h)⟩
  | v :: vs, m, h => by
    rw [dialogue] at h
    cases hq : r.request? s m with
    | none =>
      rw [hq] at h
      cases h
    | some o =>
      rw [hq] at h
      have ho := request?_eq_some.1 hq
      rcases List.mem_cons.1 h with rfl | hlater
      · exact ⟨m, .refl m, ho⟩
      · obtain ⟨m', hm', hasked⟩ := exists_of_mem_dialogue hlater
        exact ⟨m', (within_answer ho v).trans hm', hasked⟩

/-- Requests of a dialogue that come up under one id ask both sides for declared params of one
name. -/
theorem pairwise_dialogue :
    ∀ (answers : List Selection) (m : Move), (r.dialogue s m answers).Pairwise
      (fun q q' => q.decision.id = q'.decision.id → r.Doubles m q q')
  | [], m => by
    rw [dialogue]
    cases r.request? s m with
    | none => exact .nil
    | some q => exact List.pairwise_singleton _ q
  | v :: vs, m => by
    rw [dialogue]
    cases hq : r.request? s m with
    | none => exact .nil
    | some q =>
      have hasked := request?_eq_some.1 hq
      refine List.pairwise_cons.2 ⟨fun q' hq' hid => ?_, ?_⟩
      · obtain ⟨m', hm', hasked'⟩ := exists_of_mem_dialogue hq'
        exact doubles_of_id_eq hasked hm' hasked' hid
      · exact (pairwise_dialogue vs (m.answer q v)).imp
          (fun h hid => (h hid).of_within (within_answer hasked v))

/-- At a decision point, a move is asked under one id wherever the names that the point reads have
the same values. -/
theorem AsksAt.id_eq {s' : State} {p : Point} {b b' : Bindings} (h : r.AsksAt s m q p b)
    (h' : r.AsksAt s' m' q' p b') (hreads : ∀ name ∈ p.reads, b.get? name = b'.get? name) :
    q.decision.id = q'.decision.id := by
  obtain ⟨hname, hid⟩ := h.name_id
  obtain ⟨hname', hid'⟩ := h'.name_id
  have hnames : p.name b = p.name b' := by
    cases p with
    | declared special name => rfl
    | choice special part spot bind => exact Bindings.fill_congr hreads
  rw [hnames, hname'] at hname
  rw [hid, hid', Except.ok.inj hname]

/-- The requests of a dialogue differ in their sides or in the ids of their decisions.  Two of them
have one id only where both sides are asked for declared params of one name.  Each comes up at a
decision point, and the id under which it does depends on nothing but that point and the values that
the names that the point reads have there. -/
theorem dialogue_ids (r : Rules) (s : State) (m : Move) (answers : List Selection) :
    ((r.dialogue s m answers).map (fun q => (q.special, q.decision.id))).Nodup ∧
    (r.dialogue s m answers).Pairwise
      (fun q q' => q.decision.id = q'.decision.id → r.Doubles m q q') ∧
    (∀ q ∈ r.dialogue s m answers, ∃ m' p b, m.Within m' ∧ r.AsksAt s m' q p b) ∧
    ∀ s₁ s₂ m₁ m₂ q₁ q₂ p b₁ b₂, r.AsksAt s₁ m₁ q₁ p b₁ → r.AsksAt s₂ m₂ q₂ p b₂ →
      (∀ name ∈ p.reads, b₁.get? name = b₂.get? name) → q₁.decision.id = q₂.decision.id := by
  have hpairwise := pairwise_dialogue (r := r) (s := s) answers m
  refine ⟨?_, hpairwise, fun q hq => ?_, fun _ _ _ _ _ _ _ _ _ h₁ h₂ hreads => h₁.id_eq h₂ hreads⟩
  · refine List.pairwise_map.2 (hpairwise.imp (fun hdoubles hkeys => ?_))
    obtain ⟨hside, hid⟩ := Prod.mk.inj hkeys
    exact (hdoubles hid).sides hside
  · obtain ⟨m', hm', hasked⟩ := exists_of_mem_dialogue hq
    obtain ⟨p, b, hp⟩ := exists_asksAt hasked
    exact ⟨m', p, b, hm', hp⟩

end Rules

/-! ## A tournament -/

/-- The squires for a joust, at most as many as there are lances. -/
def Param.squires : Param where
  name := "squires"
  domain := .intRange (.int 1) (.ref (.binding "lances"))

/-- A game with a joust, with up to three lances and at most as many squires, and a parade, with one
squire or two. -/
def Definition.tournament : Definition :=
  { Definition.minimal "tournament" with
    actions := [
      { id := "joust"
        params := [{ name := "lances", domain := .range 1 3 }, .squires]
        effects := [.chooseOne "rival" (.enums ["red", "black"]),
          .chooseOne "shield-\x7brival\x7d" (.enums ["round", "square"])] },
      { id := "parade"
        params := [{ name := "squires", domain := .range 1 2 }]
        effects := [.chooseOne "banner" (.enums ["lion", "rose"])] }] }

/-- The rules of that game, under the usual limits. -/
def Rules.tournament : Rules := { game := .ofDefinition .tournament }

/-- Where two seats start that game. -/
def State.tournament : State := (Rules.tournament.game.start 2 0).toOption.getD default

/-- A joust, and a parade after it. -/
def Move.tournament : Move := (Move.named "joust").accompaniedBy (.named "parade") .after none

/-- The tournament with a number of lances. -/
def Move.withLances (n : Int64) : Move := Move.tournament.select "lances" (.one (.int n))

/-- What is asked about squires, for the joust or for the parade. -/
def Request.squires (special : Bool) (domain : List Value) : Request where
  decision := .one "param::squires" "squires" domain
  special := special

/-- Ids do not suffice: the squires for both are asked for under the same. -/
theorem Rules.dialogue_repeats_id_tournament :
    (Rules.tournament.dialogue .tournament .tournament [.one (.int 2), .one (.int 1)]).map
        (·.decision.id) = ["param::lances", "param::squires", "param::squires"] ∧
      ¬((Rules.tournament.dialogue .tournament .tournament [.one (.int 2), .one (.int 1)]).map
        (·.decision.id)).Nodup := by
  decide +kernel

/-- In a whole dialogue only the squires come up twice under one id, and the id under which those
for the joust come up does not tell how many lances there are, though the choice of squires does. -/
theorem Rules.dialogue_ids_tournament :
    (Rules.tournament.dialogue .tournament .tournament [.one (.int 2), .one (.int 1), .one (.int 2),
        .one (.str "red"), .one (.str "round")]).map (fun q => (q.special, q.decision.id)) =
        [(false, "param::lances"), (false, "param::squires"), (true, "param::squires"),
          (false, "stage[0:main]/0:chooseOne::rival"),
          (false, "stage[0:main]/1:chooseOne::shield-red"),
          (true, "sa.stage[0:main]/0:chooseOne::banner")] ∧
      Rules.tournament.Doubles .tournament (.squires false [.int 1, .int 2])
        (.squires true [.int 1, .int 2]) ∧
      Rules.tournament.AsksAt .tournament (.withLances 2) (.squires false [.int 1, .int 2])
        (.declared false "squires") (.ofParams (Move.withLances 2).params) ∧
      Rules.tournament.AsksAt .tournament (.withLances 3) (.squires false [.int 1, .int 2, .int 3])
        (.declared false "squires") (.ofParams (Move.withLances 3).params) ∧
      (Request.squires false [.int 1, .int 2]).decision.id =
        (Request.squires false [.int 1, .int 2, .int 3]).decision.id := by
  have hasks (n : Int64) (domain : List Value)
      (hasked : Rules.tournament.standing .tournament (.withLances n) =
        .ok (.pending (.squires false domain)))
      (hunplanned : (Rules.tournament.plan .tournament (.withLances n)).isOk = false)
      (hdeclared : Param.squires ∈ Rules.tournament.declared
        ((Move.withLances n).side false).action) :
      Rules.tournament.AsksAt .tournament (.withLances n) (.squires false domain)
        (.declared false "squires") (.ofParams (Move.withLances n).params) := by
    rcases Rules.asked_cases (Rules.standing_eq_pending.1 hasked) with hplan | ⟨t, k, ht, -⟩
    · exact .declared hplan hdeclared rfl
    · rw [ht] at hunplanned
      cases hunplanned
  have htwo := hasks 2 [.int 1, .int 2] (eq_ok_of_toOption (by decide +kernel))
    (by decide +kernel) (List.mem_cons_of_mem _ List.mem_cons_self)
  have hthree := hasks 3 [.int 1, .int 2, .int 3] (eq_ok_of_toOption (by decide +kernel))
    (by decide +kernel) (List.mem_cons_of_mem _ List.mem_cons_self)
  have hdialogue : (Rules.tournament.dialogue .tournament .tournament
      [.one (.int 2), .one (.int 1)]).drop 1 = [.squires false [.int 1, .int 2],
        .squires true [.int 1, .int 2]] := by decide +kernel
  obtain ⟨-, hpairwise, -, hreads⟩ := Rules.tournament.dialogue_ids .tournament .tournament
    [.one (.int 2), .one (.int 1)]
  have hsquires := hpairwise.drop (i := 1)
  rw [hdialogue] at hsquires
  refine ⟨by decide +kernel, ?_, htwo, hthree, ?_⟩
  · exact (List.pairwise_cons.1 hsquires).1 _ List.mem_cons_self rfl
  · exact hreads _ _ _ _ _ _ _ _ _ htwo hthree (fun _ h => by cases h)

end Tabletop
