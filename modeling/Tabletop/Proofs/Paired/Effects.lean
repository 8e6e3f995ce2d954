import Tabletop.Proofs.Paired.Widening

/-!
# Single effects, side by side

Two sessions are in step when their states differ in the fingerprint only and the same events and
operations lie behind them; their traces agree when both runs trace alike.  An effect that does not
ask for a selection keeps sessions in step, whatever names come in below its bindings.

Main statements: one for each effect, from `setVar_paired` to `pushInterruptPhase_paired`.
-/

namespace Tabletop

namespace Widening

variable (w : Widening)

/-- The session with the other fingerprint and a trace of its own. -/
def session (x : Session) (trace : List TraceEntry) : Session :=
  { x with state := w.state x.state, trace }

/-- The setting with more leeway. -/
def setting (s : Setting) : Setting :=
  { s with maxOps := w.maxOps s.maxOps, tracing := w.tracing s.tracing }

/-- The site with more leeway and other bindings. -/
def site (s : Site) (b' : Bindings) : Site :=
  { s with setting := w.setting s.setting, bindings := b' }

/-- A session with another fingerprint has the state with that fingerprint. -/
@[simp] theorem session_state (x : Session) (trace : List TraceEntry) :
    (w.session x trace).state = w.state x.state := rfl

/-- A site with more leeway is in the same mode. -/
@[simp] theorem site_mode (s : Site) (b' : Bindings) :
    (w.site s b').setting.mode = s.setting.mode := rfl

/-- The second session is where the first is. -/
def InStep (x x' : Session) : Prop :=
  ∃ trace, x' = w.session x trace ∧ (w.tracing = id → trace = x.trace)

variable {w}

namespace InStep

variable {x x' : Session}

/-- Sessions stay in step when their states change alike. -/
theorem withState (h : w.InStep x x') (s : State) :
    w.InStep (x.withState s) (x'.withState (w.state s)) := by
  obtain ⟨trace, rfl, htrace⟩ := h
  exact ⟨trace, rfl, htrace⟩

/-- Sessions stay in step when the same event is raised in both. -/
theorem raise (h : w.InStep x x') (e : Event) : w.InStep (x.raise e) (x'.raise e) := by
  obtain ⟨trace, rfl, htrace⟩ := h
  exact ⟨trace, rfl, htrace⟩

/-- Sessions stay in step when the same change is noted in both. -/
theorem note (h : w.InStep x x') (s : Site) (b' : Bindings) (change : Change) :
    w.InStep (s.note x change) ((w.site s b').note x' change) := by
  obtain ⟨trace, rfl, htrace⟩ := h
  unfold Site.note
  by_cases hs : s.setting.tracing
  · by_cases hs' : (w.site s b').setting.tracing
    · rw [if_pos hs, if_pos hs']
      exact ⟨_, rfl, fun hw => by rw [htrace hw]; rfl⟩
    · rw [if_pos hs, if_neg hs']
      refine ⟨_, rfl, fun hw => absurd ?_ hs'⟩
      simpa [site, setting, hw] using hs
  · by_cases hs' : (w.site s b').setting.tracing
    · rw [if_neg hs, if_pos hs']
      refine ⟨_, rfl, fun hw => absurd ?_ hs⟩
      simpa [site, setting, hw] using hs'
    · rw [if_neg hs, if_neg hs']
      exact ⟨_, rfl, htrace⟩

end InStep

end Widening

/-- Whether a value answers a decision. -/
def Decision.Takes (d : Decision) (x : Value) : Prop :=
  match d.kind with
  | .chooseOne => ∃ option ∈ d.domain, option.same x
  | .chooseN => ∃ xs, x = .array xs ∧ Site.choiceFault? d.name d.domain d.min d.max xs = none

/-- What a halt tells about a run with names below.  A refusal is the same there.  A decision is
left open there too, unless it is about one of the names below: it then takes what that name is
bound to, or the run does not succeed. -/
def Halt.sense (w : Widening) : ErrorSense Halt where
  tells h b :=
    match h with
    | .fault _ => True
    | .refused name cause => b = .error (.refused name cause)
    | .pending d => Missing (.pending d) (w.params.get? d.name) d.Takes b
  tells_bind {_ _ h b} f hb := by
    cases h with
    | fault f => trivial
    | refused name cause => exact hb ▸ rfl
    | pending d => exact hb.bind f
  tells_error {_} h := by
    cases h with
    | fault f => trivial
    | refused name cause => rfl
    | pending d => exact .error _

section

variable {w : Widening} {α β : Type}

/-- A result that stays is paired with itself where halts may happen. -/
theorem Stays.attempt {a b : Result α} (h : Stays a b) :
    Paired (Halt.sense w) Eq (liftM a : Attempt α) (liftM b : Attempt α) :=
  Paired.mapError h (fun _ _ => trivial)

/-- Results that are paired are paired where halts may happen. -/
theorem Paired.attempt {R : α → β → Prop} {a : Result α} {b : Result β}
    (h : Paired (.silent Fault) R a b) :
    Paired (Halt.sense w) R (liftM a : Attempt α) (liftM b : Attempt β) :=
  Paired.mapError h (fun _ _ => trivial)

/-- What is faulty at a site is paired with anything. -/
theorem Site.fail_paired {R : α → β → Prop} (s : Site) (cause : EffectFault) {b : Attempt β} :
    Paired (Halt.sense w) R (s.fail cause) b := trivial

end

namespace Site

variable {w : Widening} (s : Site) {x x' : Session} {b' : Bindings}

/-! ## Variables and markers -/

/-- The slot of a variable stays the same for sessions in step. -/
theorem varSlot_stays (hb : w.Below s.bindings b') (hx : w.InStep x x') (target : VarTarget)
    (name : String) : Stays (s.varSlot x target name) ((w.site s b').varSlot x' target name) := by
  obtain ⟨trace, rfl, -⟩ := hx
  cases target with
  | global => exact .refl _
  | seat seat => exact (seat.resolve_stays (v := s.view x) hb).bind (fun _ => .refl _)
  | zone zone => exact (zone.resolve_stays (v := s.view x) hb).bind (fun _ => .refl _)

/-- Storing a variable keeps sessions in step. -/
theorem storeVar_inStep (b' : Bindings) (hx : w.InStep x x') (scope : VarScope) (name : String)
    (old new : Int64) :
    w.InStep (s.storeVar x scope name old new)
      ((w.site s b').storeVar x' scope name old new) := by
  unfold storeVar
  by_cases h : old = new
  · rw [if_pos h, if_pos h]
    exact hx
  · rw [if_neg h, if_neg h]
    refine .note (.raise ?_ _) s b' _
    obtain ⟨trace, rfl, htrace⟩ := hx
    refine ⟨trace, ?_, htrace⟩
    cases scope <;> rfl

/-- Setting a variable keeps sessions in step. -/
theorem setVar_paired (hb : w.Below s.bindings b') (hx : w.InStep x x') (target : VarTarget)
    (name : String) (value : Expr) :
    Paired (.silent Fault) w.InStep (s.setVar x target name value)
      ((w.site s b').setVar x' target name value) := by
  have hslot := varSlot_stays s hb hx target name
  have hstore := fun scope => storeVar_inStep s b' hx scope name
  unfold setVar
  obtain ⟨trace, rfl, htrace⟩ := hx
  refine Paired.bind (value.eval_stays (v := s.view x) hb) ?_
  rintro value _ rfl
  refine Paired.bind (Stays.refl _) ?_
  rintro n _ rfl
  refine Paired.bind hslot ?_
  rintro slot _ rfl
  exact .pure (hstore _ _ _)

/-- Adding to a variable keeps sessions in step. -/
theorem addVar_paired (hb : w.Below s.bindings b') (hx : w.InStep x x') (target : VarTarget)
    (name : String) (delta : Expr) :
    Paired (.silent Fault) w.InStep (s.addVar x target name delta)
      ((w.site s b').addVar x' target name delta) := by
  have hslot := varSlot_stays s hb hx target name
  have hstore := fun scope => storeVar_inStep s b' hx scope name
  unfold addVar
  obtain ⟨trace, rfl, htrace⟩ := hx
  refine Paired.bind (delta.evalInt_stays (v := s.view x) hb) ?_
  rintro delta _ rfl
  refine Paired.bind hslot ?_
  rintro slot _ rfl
  exact .pure (hstore _ _ _)

/-- Setting a marker keeps sessions in step. -/
theorem setMarker_paired (hb : w.Below s.bindings b') (hx : w.InStep x x') (space : ZoneRef)
    (marker : String) (state : Expr) :
    Paired (Halt.sense w) w.InStep (s.setMarker x space marker state)
      ((w.site s b').setMarker x' space marker state) := by
  unfold setMarker
  have hnote := fun y y' (h : w.InStep y y') c => h.note s b' c
  have hstate := fun t => hx.withState t
  obtain ⟨trace, rfl, htrace⟩ := hx
  refine Paired.bind (space.resolve_stays (v := s.view x) hb).attempt ?_
  rintro space _ rfl
  refine Paired.bind (state.eval_stays (v := s.view x) hb).attempt ?_
  rintro value _ rfl
  refine Paired.bind (Stays.refl _).attempt ?_
  rintro new _ rfl
  refine Paired.bind (Stays.refl _).attempt ?_
  rintro lattice _ rfl
  refine Paired.ite (fun _ => ?_) (fun _ => ?_)
  · refine Paired.bind (Stays.refl _).attempt ?_
    rintro old _ rfl
    refine Paired.ite (fun _ => ?_) (fun _ => ?_)
    · exact .pure ⟨trace, rfl, htrace⟩
    · exact .pure (hnote _ _ (hstate _) _)
  · exact s.fail_paired _

/-! ## Tokens -/

/-- A token is located alike in sessions in step. -/
theorem locate_paired (b' : Bindings) (hx : w.InStep x x') (id : TokenId) :
    Paired (Halt.sense w) Eq (s.locate x id) ((w.site s b').locate x' id) := by
  obtain ⟨trace, rfl, -⟩ := hx
  unfold locate
  rw [Widening.session_state, Widening.state_store]
  cases x.state.store.locate id with
  | found zone index => exact .ok rfl
  | missing => exact s.fail_paired _
  | several count => exact s.fail_paired _

/-- A token is located alike in a given zone of sessions in step. -/
theorem locateIn_paired (b' : Bindings) (hx : w.InStep x x') (id : TokenId) (expected : ZoneId) :
    Paired (Halt.sense w) Eq (s.locateIn x id expected)
      ((w.site s b').locateIn x' id expected) := by
  refine (locate_paired s b' hx id).bind ?_
  rintro ⟨zone, index⟩ _ rfl
  refine Paired.ite (fun _ => ?_) (fun _ => ?_)
  · exact .pure rfl
  · exact s.fail_paired _

/-- A token that arrives in a zone keeps sessions in step. -/
theorem arrive_inStep (b' : Bindings) (hx : w.InStep x x') (id : TokenId) (source target : ZoneId) :
    w.InStep (s.arrive x id source target) ((w.site s b').arrive x' id source target) :=
  (hx.raise _).note s b' _

/-- Moving a token from where it was located keeps sessions in step. -/
theorem relocate_paired (b' : Bindings) (hx : w.InStep x x') (id : TokenId) (source : ZoneId)
    (index : Nat) (target : ZoneId) (place : InsertAt) :
    Paired (Halt.sense w) w.InStep (s.relocate x id source index target place)
      ((w.site s b').relocate x' id source index target place) := by
  have harrive := fun y y' (h : w.InStep y y') => arrive_inStep s b' h id source target
  have hstate := fun t => hx.withState t
  obtain ⟨trace, rfl, htrace⟩ := hx
  unfold relocate
  rw [Widening.session_state, Widening.state_store, Widening.state_random]
  cases x.state.store.remove? source index with
  | none => exact s.fail_paired _
  | some taken =>
    dsimp only
    refine Paired.bind (Stays.refl _).attempt ?_
    rintro store _ rfl
    refine Paired.ite (fun _ => ?_) (fun _ => ?_)
    · exact .pure (hstate _)
    · refine Paired.bind (Stays.refl _).attempt ?_
      rintro _ _ -
      exact .pure (harrive _ _ (hstate _))

/-- Moving a token between named zones keeps sessions in step. -/
theorem moveToken_paired (hb : w.Below s.bindings b') (hx : w.InStep x x') (token : String)
    (source target : ZoneRef) (place : InsertAt) :
    Paired (Halt.sense w) w.InStep (s.moveToken x token source target place)
      ((w.site s b').moveToken x' token source target place) := by
  have hlocate := fun id zone => locateIn_paired s b' hx id zone
  have hmove := relocate_paired s b' hx
  obtain ⟨trace, rfl, -⟩ := hx
  refine Paired.bind (View.token_stays (v := s.view x) hb token).attempt ?_
  rintro id _ rfl
  refine Paired.bind (source.resolve_stays (v := s.view x) hb).attempt ?_
  rintro source _ rfl
  refine Paired.bind (target.resolve_stays (v := s.view x) hb).attempt ?_
  rintro target _ rfl
  refine Paired.bind (hlocate _ _) ?_
  rintro index _ rfl
  exact hmove _ _ _ _ _

/-- Moving a token to an adjacent zone keeps sessions in step. -/
theorem moveTokenAdjacent_paired (hb : w.Below s.bindings b') (hx : w.InStep x x') (token : String)
    (source target : ZoneRef) (place : InsertAt) :
    Paired (Halt.sense w) w.InStep (s.moveTokenAdjacent x token source target place)
      ((w.site s b').moveTokenAdjacent x' token source target place) := by
  have hlocate := fun id zone => locateIn_paired s b' hx id zone
  have hmove := relocate_paired s b' hx
  obtain ⟨trace, rfl, -⟩ := hx
  refine Paired.bind (View.token_stays (v := s.view x) hb token).attempt ?_
  rintro id _ rfl
  refine Paired.bind (source.resolve_stays (v := s.view x) hb).attempt ?_
  rintro source _ rfl
  refine Paired.bind (target.resolve_stays (v := s.view x) hb).attempt ?_
  rintro target _ rfl
  refine Paired.ite (fun _ => ?_) (fun _ => ?_)
  · refine Paired.bind (hlocate _ _) ?_
    rintro index _ rfl
    exact hmove _ _ _ _ _
  · exact s.fail_paired _

/-- Moving a block of tokens keeps sessions in step. -/
theorem moveBlock_paired (b' : Bindings) (hx : w.InStep x x') (source target : ZoneId)
    (block rest : List Token) :
    Paired (Halt.sense w) w.InStep (s.moveBlock x source target block rest)
      ((w.site s b').moveBlock x' source target block rest) := by
  have hstate := fun t => hx.withState t
  refine Paired.ite (fun _ => ?_) (fun _ => ?_)
  · exact .pure hx
  · obtain ⟨trace, rfl, -⟩ := hx
    refine Paired.bind (Stays.refl _).attempt ?_
    rintro old _ rfl
    refine Paired.bind (Stays.refl _).attempt ?_
    rintro _ _ -
    refine .pure ?_
    -- Every token of the block arrives in both.
    have harrive : ∀ (ts : List Token) {y y' : Session}, w.InStep y y' →
        w.InStep (ts.foldl (fun x t => s.arrive x t.id source target) y)
          (ts.foldl (fun x t => (w.site s b').arrive x t.id source target) y') := by
      intro ts
      induction ts with
      | nil => exact fun h => h
      | cons t ts ih => exact fun h => ih (arrive_inStep s b' h t.id source target)
    exact harrive block (hstate _)

/-- Tokens are parted alike by a filter in sessions in step. -/
theorem part_stays (hb : w.Below s.bindings b') (hx : w.InStep x x') (filter : Filter) :
    ∀ ts, Stays (s.part x filter ts) ((w.site s b').part x' filter ts)
  | [] => .refl _
  | t :: ts => by
    have hrest := part_stays hb hx filter ts
    obtain ⟨trace, rfl, -⟩ := hx
    refine Stays.bind (filter.keeps_stays (v := s.view x) hb t.value) (fun _ => ?_)
    exact hrest.bind (fun _ => .refl _)

/-- Moving all tokens that a filter keeps keeps sessions in step. -/
theorem moveAll_paired (hb : w.Below s.bindings b') (hx : w.InStep x x') (source target : ZoneRef)
    (filter : Filter) :
    Paired (Halt.sense w) w.InStep (s.moveAll x source target filter)
      ((w.site s b').moveAll x' source target filter) := by
  have hpart := part_stays s hb hx filter
  have hmove := moveBlock_paired s b' hx
  have hkeep := hx
  obtain ⟨trace, rfl, -⟩ := hx
  refine Paired.bind (source.resolve_stays (v := s.view x) hb).attempt ?_
  rintro source _ rfl
  refine Paired.bind (target.resolve_stays (v := s.view x) hb).attempt ?_
  rintro target _ rfl
  refine Paired.ite (fun _ => ?_) (fun _ => ?_)
  · exact .pure hkeep
  · refine Paired.bind (hpart _).attempt ?_
    rintro ⟨block, rest⟩ _ rfl
    exact hmove _ _ _ _

/-- Drawing tokens keeps sessions in step. -/
theorem draw_paired (hb : w.Below s.bindings b') (hx : w.InStep x x') (source target : ZoneRef)
    (count : Expr) :
    Paired (Halt.sense w) w.InStep (s.draw x source target count)
      ((w.site s b').draw x' source target count) := by
  have hmove := moveBlock_paired s b' hx
  have hkeep := hx
  obtain ⟨trace, rfl, -⟩ := hx
  refine Paired.bind (count.evalInt_stays (v := s.view x) hb).attempt ?_
  rintro count _ rfl
  refine Paired.bind (source.resolve_stays (v := s.view x) hb).attempt ?_
  rintro source _ rfl
  refine Paired.bind (target.resolve_stays (v := s.view x) hb).attempt ?_
  rintro target _ rfl
  refine Paired.ite (fun _ => ?_) (fun _ => ?_)
  · exact .pure hkeep
  · exact hmove _ _ _ _

/-- Shuffling a zone keeps sessions in step. -/
theorem shuffle_paired (hb : w.Below s.bindings b') (hx : w.InStep x x') (zone : ZoneRef) :
    Paired (.silent Fault) w.InStep (s.shuffle x zone) ((w.site s b').shuffle x' zone) := by
  have hnote := fun y y' (h : w.InStep y y') c => h.note s b' c
  have hstate := fun t => hx.withState t
  have hkeep := hx
  obtain ⟨trace, rfl, -⟩ := hx
  refine Paired.bind (zone.resolve_stays (v := s.view x) hb) ?_
  rintro zone _ rfl
  refine Paired.ite (fun _ => ?_) (fun _ => ?_)
  · exact .pure hkeep
  · exact .pure (hnote _ _ (hstate _) _)

/-- The props of a new token are the same in sessions in step. -/
theorem newProps_stays (hb : w.Below s.bindings b') (hx : w.InStep x x') (type : TokenType) :
    ∀ (given : List (String × Expr)) (props : Dict Scalar),
      Stays (s.newProps x type given props) ((w.site s b').newProps x' type given props)
  | [], _ => .refl _
  | (name, value) :: rest, props => by
    have hrest := newProps_stays hb hx type rest
    obtain ⟨trace, rfl, -⟩ := hx
    rw [newProps, newProps]
    split
    · refine Stays.bind (value.eval_stays (v := s.view x) hb) (fun _ => ?_)
      exact Stays.bind (.refl _) (fun _ => hrest _)
    · exact .fault

/-- Creating a token keeps sessions in step. -/
theorem createToken_paired (hb : w.Below s.bindings b') (hx : w.InStep x x') (type : String)
    (zone : ZoneRef) (props : Dict Expr) :
    Paired (.silent Fault) w.InStep (s.createToken x type zone props)
      ((w.site s b').createToken x' type zone props) := by
  have hnote := fun y y' (h : w.InStep y y') c => h.note s b' c
  have hstate := fun t => hx.withState t
  have hprops := newProps_stays s hb hx
  obtain ⟨trace, rfl, -⟩ := hx
  refine Paired.bind (Stays.refl _) ?_
  rintro type _ rfl
  refine Paired.bind (zone.resolve_stays (v := s.view x) hb) ?_
  rintro zone _ rfl
  refine Paired.bind (hprops _ _ _) ?_
  rintro props _ rfl
  refine Paired.bind (Stays.refl _) ?_
  rintro store _ rfl
  refine Paired.bind (Stays.refl _) ?_
  rintro _ _ -
  exact .pure (hnote _ _ ((hstate _).raise _) _)

/-- Destroying a token keeps sessions in step. -/
theorem destroyToken_paired (hb : w.Below s.bindings b') (hx : w.InStep x x') (token : String) :
    Paired (Halt.sense w) w.InStep (s.destroyToken x token)
      ((w.site s b').destroyToken x' token) := by
  have hnote := fun y y' (h : w.InStep y y') c => h.note s b' c
  have hstate := fun t => hx.withState t
  have hlocate := fun id => locate_paired s b' hx id
  have hkeep := hx
  obtain ⟨trace, rfl, -⟩ := hx
  refine Paired.bind (View.token_stays (v := s.view x) hb token).attempt ?_
  rintro id _ rfl
  refine Paired.bind (hlocate id) ?_
  rintro ⟨zone, index⟩ _ rfl
  refine .pure (hnote _ _ ?_ _)
  rw [Widening.session_state, Widening.state_store]
  cases x.state.store.remove? zone index with
  | none => exact hkeep
  | some taken => exact hstate _

/-- Setting a prop of a token keeps sessions in step. -/
theorem setTokenProp_paired (hb : w.Below s.bindings b') (hx : w.InStep x x')
    (token prop : String) (value : Expr) :
    Paired (Halt.sense w) w.InStep (s.setTokenProp x token prop value)
      ((w.site s b').setTokenProp x' token prop value) := by
  have hnote := fun y y' (h : w.InStep y y') c => h.note s b' c
  have hstate := fun t => hx.withState t
  have hlocate := fun id => locate_paired s b' hx id
  have hkeep := hx
  obtain ⟨trace, rfl, -⟩ := hx
  refine Paired.bind (View.token_stays (v := s.view x) hb token).attempt ?_
  rintro id _ rfl
  refine Paired.bind (hlocate id) ?_
  rintro _ _ -
  refine Paired.bind (value.eval_stays (v := s.view x) hb).attempt ?_
  rintro value _ rfl
  refine Paired.bind (Stays.refl _).attempt ?_
  rintro new _ rfl
  dsimp only [Widening.session_state, Widening.state_store]
  cases x.state.store.token? id with
  | none => exact s.fail_paired _
  | some found =>
    refine Paired.bind (Stays.refl _).attempt ?_
    rintro type _ rfl
    refine Paired.bind (Stays.refl _).attempt ?_
    rintro initial _ rfl
    refine Paired.ite (fun _ => ?_) (fun _ => ?_)
    · exact .pure hkeep
    · exact .pure (hnote _ _ (hstate _) _)

/-! ## Removal by priority -/

/-- A count and a session that are in step. -/
abbrev CountInStep (w : Widening) (p p' : Nat × Session) : Prop :=
  p'.1 = p.1 ∧ w.InStep p.2 p'.2

/-- Removing items one by one keeps sessions in step and removes as many. -/
theorem removeItems_paired (b' : Bindings) (target : ZoneId) :
    ∀ (items : List Value) (budget : Nat) {x x' : Session}, w.InStep x x' →
      Paired (Halt.sense w) (CountInStep w) (s.removeItems target items budget x)
        ((w.site s b').removeItems target items budget x')
  | [], 0, _, _, hx => .ok ⟨rfl, hx⟩
  | _ :: _, 0, _, _, hx => .ok ⟨rfl, hx⟩
  | [], _ + 1, _, _, hx => .ok ⟨rfl, hx⟩
  | item :: items, budget + 1, _, _, hx => by
    rw [removeItems, removeItems]
    refine Paired.bind (Stays.refl _).attempt ?_
    rintro id _ rfl
    refine Paired.bind (locate_paired s b' hx id) ?_
    rintro ⟨source, index⟩ _ rfl
    exact Paired.bind (relocate_paired s b' hx _ _ _ _ _)
      (fun _ _ hy => removeItems_paired b' target items budget hy)

/-- Removing from groups in turn keeps sessions in step and removes as many. -/
theorem removeGroups_paired (hb : w.Below s.bindings b') :
    ∀ (groups : List PriorityGroup) (budget : Nat) {x x' : Session}, w.InStep x x' →
      Paired (Halt.sense w) (CountInStep w) (s.removeGroups groups budget x)
        ((w.site s b').removeGroups groups budget x')
  | [], 0, _, _, hx => .ok ⟨rfl, hx⟩
  | _ :: _, 0, _, _, hx => .ok ⟨rfl, hx⟩
  | [], _ + 1, _, _, hx => .ok ⟨rfl, hx⟩
  | g :: groups, budget + 1, x, _, hx => by
    have hitems := fun target items => removeItems_paired s b' target items (budget + 1) hx
    obtain ⟨trace, rfl, -⟩ := hx
    rw [removeGroups, removeGroups]
    refine Paired.bind (g.source.eval_stays (v := s.view x) hb).attempt ?_
    rintro items _ rfl
    refine Paired.bind (g.target.resolve_stays (v := s.view x) hb).attempt ?_
    rintro target _ rfl
    refine Paired.bind (hitems target items) ?_
    rintro ⟨_, y⟩ ⟨left, y'⟩ ⟨rfl, hy⟩
    exact removeGroups_paired hb groups left hy

/-! ## The course of play -/

/-- The cards are looked up alike in sessions in step. -/
theorem cards_paired (b' : Bindings) (hx : w.InStep x x') (effect : String) :
    Paired (Halt.sense w) Eq (s.cards x effect) ((w.site s b').cards x' effect) := by
  obtain ⟨trace, rfl, -⟩ := hx
  unfold cards
  rw [Widening.session_state, Widening.state_order]
  cases x.state.order.card? with
  | none => exact s.fail_paired _
  | some card => exact .ok rfl

/-- Granting a free operation keeps sessions in step. -/
theorem grantFreeOperation_paired (hb : w.Below s.bindings b') (hx : w.InStep x x')
    (offer : GrantOffer) :
    Paired (Halt.sense w) w.InStep (s.grantFreeOperation x offer)
      ((w.site s b').grantFreeOperation x' offer) := by
  have hstate := fun t => hx.withState t
  have hcards := fun effect => cards_paired s b' hx effect
  obtain ⟨trace, rfl, -⟩ := hx
  refine Paired.bind (offer.seat.resolve_stays (v := s.view x) hb).attempt ?_
  rintro seat _ rfl
  refine Paired.ite (fun _ => ?_) (fun _ => ?_)
  · exact s.fail_paired _
  · refine Paired.bind (hcards _) ?_
    rintro card _ rfl
    exact .pure (hstate _)

/-- Overriding an eligibility keeps sessions in step. -/
theorem setEligibilityOverride_paired (hb : w.Below s.bindings b') (hx : w.InStep x x')
    (seat : SeatRef) (eligible : Bool) :
    Paired (Halt.sense w) w.InStep (s.setEligibilityOverride x seat eligible)
      ((w.site s b').setEligibilityOverride x' seat eligible) := by
  have hstate := fun t => hx.withState t
  have hcards := fun effect => cards_paired s b' hx effect
  obtain ⟨trace, rfl, -⟩ := hx
  refine Paired.bind (seat.resolve_stays (v := s.view x) hb).attempt ?_
  rintro seat _ rfl
  refine Paired.bind (hcards _) ?_
  rintro card _ rfl
  exact .pure (hstate _)

/-- Interrupting the current phase keeps sessions in step. -/
theorem pushInterruptPhase_paired (b' : Bindings) (hx : w.InStep x x') (phase : PhaseId) :
    Paired (Halt.sense w) w.InStep (s.pushInterruptPhase x phase)
      ((w.site s b').pushInterruptPhase x' phase) := by
  have hstate := fun t => hx.withState t
  obtain ⟨trace, rfl, -⟩ := hx
  unfold pushInterruptPhase
  refine Paired.ite (fun _ => ?_) (fun _ => ?_)
  · exact .ok ((hstate _).raise _)
  · exact s.fail_paired _

end Site

end Tabletop
