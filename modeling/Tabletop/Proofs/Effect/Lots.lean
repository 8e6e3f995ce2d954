import Tabletop.Proofs.Effect.Frame

/-!
# Effects that draw lots

The random numbers of a state are a seed and a position in its keystream.  A draw moves the position
on and leaves the seed as it is.

Which effects may draw can be read off them, without running them: those that roll or shuffle, those
that put a token in at any place with the same chance, and those that hold such an effect, however
deep.  Any other effect leaves the position where it is as well.

Main statements: `Reaches.seed`, for all runs of effects, and `Session.run_random`, for those of
effects that draw no lots.
-/

namespace Tabletop

/-! ## Seeds -/

namespace RandomState

variable (r : RandomState)

/-- Drawing below a bound keeps the seed. -/
theorem below_seed (size : UInt64) (fuel : Nat) : (below size fuel r).2.seed = r.seed := by
  induction fuel generalizing r with
  | zero => rfl
  | succ fuel ih =>
    unfold below
    dsimp only
    split
    · rfl
    · exact ih r.bits.2

/-- Drawing a number from a range keeps the seed. -/
theorem drawInt_seed (min max : Int64) : (r.drawInt min max).2.seed = r.seed := by
  unfold drawInt
  generalize (if min ≤ max then (min, max) else (max, min)) = bounds
  dsimp only
  split
  · rfl
  · exact r.below_seed _ _

/-- Drawing an index keeps the seed. -/
theorem drawIndex_seed (bound : Nat) : (r.drawIndex bound).2.seed = r.seed :=
  r.below_seed (UInt64.ofNat (max bound 1)) period

/-- Shuffling from an index down keeps the seed. -/
theorem shuffleDown_seed {α : Type} (i : Nat) (items : Array α) :
    (shuffleDown items r i).2.seed = r.seed := by
  induction i generalizing items r with
  | zero => rfl
  | succ i ih => exact (ih (r.drawIndex (i + 2)).2 _).trans (r.drawIndex_seed _)

/-- Shuffling a list keeps the seed. -/
theorem shuffle_seed {α : Type} (items : List α) : (r.shuffle items).2.seed = r.seed :=
  r.shuffleDown_seed _ _

end RandomState

namespace InsertAt

variable {place : InsertAt}

/-- Finding the place for a token keeps the seed. -/
theorem placement_seed (place : InsertAt) (order : ZoneOrder) (size : Nat) (r : RandomState) :
    (place.placement order size r).2.seed = r.seed := by
  cases place with
  | random => exact r.drawIndex_seed _
  | top => cases order <;> rfl
  | bottom => cases order <;> rfl

/-- The top and the bottom are found without a draw. -/
theorem placement_random (h : place ≠ .random) (order : ZoneOrder) (size : Nat) (r : RandomState) :
    (place.placement order size r).2 = r := by
  cases place with
  | random => exact absurd rfl h
  | top => cases order <;> rfl
  | bottom => cases order <;> rfl

end InsertAt

/-- Writing a variable draws no number. -/
theorem State.setVar_random (s : State) (scope : VarScope) (name : String) (x : Int64) :
    (s.setVar scope name x).random = s.random := by
  cases scope <;> rfl

/-- Storing a variable in a session draws no number. -/
theorem Site.storeVar_random (s : Site) (x : Session) (scope : VarScope) (name : String)
    (old new : Int64) : (s.storeVar x scope name old new).state.random = x.state.random := by
  unfold storeVar
  split
  · rfl
  · rw [note_state]
    exact State.setVar_random _ _ _ _

/-- Every alteration keeps the seed. -/
theorem Alters.seed {s : Setting} {x y : Session} (h : Alters s x y) :
    y.state.random.seed = x.state.random.seed := by
  cases h with
  | @storeVar here _ _ name slot hslot n =>
    exact congrArg RandomState.seed (here.storeVar_random x slot.scope name slot.current _)
  | @moveWithin here _ _ zone _ _ place _ taken _ _ hlocated htaken hplace =>
    have hseed :=
      place.placement_seed (here.definition.orderOf zone) (taken.size zone) x.state.random
    rwa [hplace] at hseed
  | @moveAcross here _ _ _ target _ _ place _ taken _ _ _ hlocated htaken hplace =>
    unfold Site.arrive
    rw [Site.note_state]
    have hseed :=
      place.placement_seed (here.definition.orderOf target) (taken.size target) x.state.random
    rwa [hplace] at hseed
  | moveBlock =>
    rw [Site.arriveAll_state]
    rfl
  | @shuffle _ _ zone _ _ _ hshuffled =>
    rw [Site.note_state]
    have hseed := x.state.random.shuffle_seed (x.state.store.tokens zone)
    rwa [hshuffled] at hseed
  | @roll _ _ min max _ _ hdrawn =>
    have hseed := x.state.random.drawInt_seed min max
    rwa [hdrawn] at hseed
  | grant => rfl
  | override => rfl
  | interrupt => rfl
  | _ =>
    rw [Site.note_state]
    rfl

/-- Runs of effects leave the seed of the random numbers. -/
theorem Reaches.seed {s : Setting} {x y : Session} (h : Reaches s x y) :
    y.state.random.seed = x.state.random.seed :=
  h.unchanged (·.random.seed) (fun _ _ => Alters.seed)

/-! ## Attempts and what they come to -/

/-- An attempt that comes to what is described, if it does not stop before. -/
def Yields {α : Type} (P : α → Prop) : Attempt α → Prop
  | .ok x => P x
  | .error _ => True

namespace Yields

variable {α β : Type} {P : α → Prop} {Q : β → Prop}

/-- Doing nothing yields what is described. -/
theorem pure {x : α} (h : P x) : Yields P (Pure.pure x) := h

/-- An attempt that fails yields nothing, so it yields whatever is asked. -/
theorem fail (s : Site) (cause : EffectFault) : Yields P (s.fail cause) := trivial

/-- An evaluation yields what its value is described as. -/
theorem lift {r : Result α} (h : ∀ x, r = .ok x → P x) : Yields P (liftM r : Attempt α) := by
  cases r with
  | error f => trivial
  | ok x => exact h x rfl

/-- Attempts yield one after the other what is described. -/
theorem bind {a : Attempt α} {f : α → Attempt β} (h : Yields P a)
    (hf : ∀ x, P x → Yields Q (f x)) : Yields Q (a >>= f) := by
  cases a with
  | ok x => exact hf x h
  | error e => trivial

/-- Whatever the first part comes to, the rest comes to what is described. -/
theorem after {a : Attempt α} {f : α → Attempt β} (hf : ∀ x, Yields Q (f x)) :
    Yields Q (a >>= f) := by
  cases a with
  | ok x => exact hf x
  | error e => trivial

/-- What is yielded may be described more loosely. -/
theorem mono {P' : α → Prop} {a : Attempt α} (h : Yields P a) (hP : ∀ x, P x → P' x) :
    Yields P' a := by
  cases a with
  | ok x => exact hP x h
  | error e => trivial

/-- An attempt that depends on a test yields what is described if both of its branches do. -/
theorem ite {c : Prop} [Decidable c] {a b : Attempt α} (hpos : Yields P a) (hneg : Yields P b) :
    Yields P (if c then a else b) := by
  split
  · exact hpos
  · exact hneg

/-- A fold whose steps keep a property. -/
theorem foldlM {γ : Type} {f : α → γ → Attempt α} (hf : ∀ c x, P x → Yields P (f x c)) :
    ∀ (l : List γ) {x : α}, P x → Yields P (l.foldlM f x)
  | [], _, h => .pure h
  | c :: l, x, h => by
    rw [List.foldlM_cons]
    exact (hf c x h).bind (fun _ h => foldlM hf l h)

/-- A success is as described. -/
theorem of_ok {a : Attempt α} (h : Yields P a) {x : α} (hx : a = .ok x) : P x := by
  subst hx
  exact h

end Yields

/-! ## Single effects -/

/-- The random numbers are where they were. -/
abbrev Session.Still (x y : Session) : Prop := y.state.random = x.state.random

namespace Site

variable (s : Site) (x : Session)

/-- Setting a variable draws no number. -/
theorem setVar_still {target : VarTarget} {name : String} {value : Expr} {y : Session}
    (h : s.setVar x target name value = .ok y) : x.Still y := by
  obtain ⟨value, -, h⟩ := bind_eq_ok h
  obtain ⟨n, -, h⟩ := bind_eq_ok h
  obtain ⟨slot, -, h⟩ := bind_eq_ok h
  cases h
  exact s.storeVar_random x _ _ _ _

/-- Adding to a variable draws no number. -/
theorem addVar_still {target : VarTarget} {name : String} {delta : Expr} {y : Session}
    (h : s.addVar x target name delta = .ok y) : x.Still y := by
  obtain ⟨n, -, h⟩ := bind_eq_ok h
  obtain ⟨slot, -, h⟩ := bind_eq_ok h
  cases h
  exact s.storeVar_random x _ _ _ _

/-- Setting a marker draws no number. -/
theorem setMarker_still (space : ZoneRef) (marker : String) (state : Expr) :
    Yields x.Still (s.setMarker x space marker state) := by
  refine .after (fun zone => .after (fun value => .after (fun new => .after (fun lattice => ?_))))
  refine .ite (.after (fun old => .ite (.pure rfl) (.pure ?_))) (.fail _ _)
  rw [Session.Still, note_state]
  rfl

/-- A token that is put in at the top or at the bottom takes no draw. -/
theorem relocate_still {place : InsertAt} (hplace : place ≠ .random) (id : TokenId)
    (source : ZoneId)
    (index : Nat) (target : ZoneId) :
    Yields x.Still (s.relocate x id source index target place) := by
  unfold relocate
  cases x.state.store.remove? source index with
  | none => exact .fail _ _
  | some p =>
    have hrandom := InsertAt.placement_random hplace (s.definition.orderOf target)
      (p.2.size target) x.state.random
    refine .after (fun put => .ite (.pure hrandom) (.after (fun _ => .pure ?_)))
    rw [Session.Still, arrive, note_state]
    exact hrandom

/-- Moving a token to a place that is not random draws no number. -/
theorem moveToken_still {place : InsertAt} (hplace : place ≠ .random) (token : String)
    (source target : ZoneRef) : Yields x.Still (s.moveToken x token source target place) := by
  refine .after (fun id => .after (fun source => .after (fun target => .after (fun index => ?_))))
  exact s.relocate_still x hplace id source index target

/-- Moving a token to a place of an adjacent zone that is not random draws no number. -/
theorem moveTokenAdjacent_still {place : InsertAt} (hplace : place ≠ .random) (token : String)
    (source target : ZoneRef) :
    Yields x.Still (s.moveTokenAdjacent x token source target place) := by
  refine .after (fun id => .after (fun source => .after (fun target => ?_)))
  refine .ite (.after (fun index => ?_)) (.fail _ _)
  exact s.relocate_still x hplace id source index target

/-- Moving a block of tokens draws no number. -/
theorem moveBlock_still (source target : ZoneId) (block rest : List Token) :
    Yields x.Still (s.moveBlock x source target block rest) := by
  refine .ite (.pure rfl) (.after (fun old => .after (fun _ => .pure ?_)))
  rw [Session.Still, arriveAll_state]
  rfl

/-- Moving all tokens that a filter keeps draws no number. -/
theorem moveAll_still (source target : ZoneRef) (filter : Filter) :
    Yields x.Still (s.moveAll x source target filter) := by
  refine .after (fun source => .after (fun target => .ite (.pure rfl) (.after (fun p => ?_))))
  exact s.moveBlock_still x source target p.1 p.2

/-- Drawing tokens, which come from the top, draws no number. -/
theorem draw_still (source target : ZoneRef) (count : Expr) :
    Yields x.Still (s.draw x source target count) := by
  refine .after (fun count => .after (fun source => .after (fun target => ?_)))
  exact .ite (.pure rfl) (s.moveBlock_still x source target _ _)

/-- Creating a token draws no number. -/
theorem createToken_still {type : String} {zone : ZoneRef} {props : Dict Expr} {y : Session}
    (h : s.createToken x type zone props = .ok y) : x.Still y := by
  obtain ⟨type, -, h⟩ := bind_eq_ok h
  obtain ⟨zone, -, h⟩ := bind_eq_ok h
  obtain ⟨props, -, h⟩ := bind_eq_ok h
  obtain ⟨store, -, h⟩ := bind_eq_ok h
  obtain ⟨⟨⟩, -, h⟩ := bind_eq_ok h
  cases h
  rw [Session.Still, note_state]
  rfl

/-- Destroying a token draws no number. -/
theorem destroyToken_still (token : String) : Yields x.Still (s.destroyToken x token) := by
  refine .after (fun id => .after (fun p => .pure ?_))
  rw [Session.Still, note_state]
  split <;> rfl

/-- Setting a prop of a token draws no number. -/
theorem setTokenProp_still (token prop : String) (value : Expr) :
    Yields x.Still (s.setTokenProp x token prop value) := by
  refine .after (fun id => .after (fun _ => .after (fun value => .after (fun new => ?_))))
  split
  · exact .fail _ _
  · refine .after (fun type => .after (fun initial => .ite (.pure rfl) (.pure ?_)))
    rw [Session.Still, note_state]
    rfl

/-- Removing items one by one, each to the top, draws no number. -/
theorem removeItems_still (target : ZoneId) :
    ∀ (items : List Value) (budget : Nat) (x : Session),
      Yields (fun p => x.Still p.2) (s.removeItems target items budget x)
  | [], 0, _ => .pure rfl
  | _ :: _, 0, _ => .pure rfl
  | [], _ + 1, _ => .pure rfl
  | item :: items, budget + 1, x => by
    have htop : InsertAt.top ≠ .random := nofun
    refine .after (fun id => .after (fun (source, index) => ?_))
    refine (s.relocate_still x htop id source index target).bind (fun y hy => ?_)
    exact (removeItems_still target items budget y).mono (fun _ hz => hz.trans hy)

/-- Removing from groups in turn draws no number. -/
theorem removeGroups_still :
    ∀ (groups : List PriorityGroup) (budget : Nat) (x : Session),
      Yields (fun p => x.Still p.2) (s.removeGroups groups budget x)
  | [], 0, _ => .pure rfl
  | _ :: _, 0, _ => .pure rfl
  | [], _ + 1, _ => .pure rfl
  | g :: groups, budget + 1, x => by
    refine .after (fun items => .after (fun target => ?_))
    refine (s.removeItems_still target items (budget + 1) x).bind (fun p hp => ?_)
    exact (removeGroups_still groups p.1 p.2).mono (fun _ hz => hz.trans hp)

/-- Removing by priority draws no number. -/
theorem removeByPriority_still (budget : Expr) (groups : List PriorityGroup) :
    Yields (fun p => x.Still p.2) (s.removeByPriority x budget groups) := by
  refine .after (fun budget => .ite (.fail _ _) ?_)
  exact (s.removeGroups_still groups _ x).bind (fun _ hp => .pure hp)

/-- Granting a free operation draws no number. -/
theorem grantFreeOperation_still (o : GrantOffer) :
    Yields x.Still (s.grantFreeOperation x o) :=
  .after (fun _ => .ite (.fail _ _) (.after (fun _ => .pure rfl)))

/-- Overriding an eligibility draws no number. -/
theorem setEligibilityOverride_still (seat : SeatRef) (eligible : Bool) :
    Yields x.Still (s.setEligibilityOverride x seat eligible) :=
  .after (fun _ => .after (fun _ => .pure rfl))

/-- Interrupting the current phase draws no number. -/
theorem pushInterruptPhase_still (phase : PhaseId) :
    Yields x.Still (s.pushInterruptPhase x phase) :=
  .ite rfl (.fail _ _)

/-- Whatever is paid, the random numbers are where they were. -/
theorem spend_still : Yields x.Still (s.spend x) := by
  rcases s.spend_cases x with ⟨-, hspend⟩ | ⟨-, fault, hfault⟩
  · rw [hspend]
    exact .pure rfl
  · rw [hfault]
    trivial

end Site

/-! ## Lots -/

mutual

/-- Whether an effect may draw lots, itself or by one that it holds. -/
def Effect.drawsLots : Effect → Bool
  | .rollRandom .. | .shuffle _ => true
  | .moveToken _ _ _ place | .moveTokenAdjacent _ _ _ place => place == .random
  | .ifThenElse _ yes no => Effect.anyDrawsLots yes || Effect.anyDrawsLots no
  | .forEach _ _ body _ | .letIn _ _ body | .reduce _ _ _ _ _ _ body
  | .removeByPriority _ _ _ body => Effect.anyDrawsLots body
  | _ => false

/-- Whether one of several effects may draw lots. -/
def Effect.anyDrawsLots : List Effect → Bool
  | [] => false
  | e :: es => e.drawsLots || Effect.anyDrawsLots es

end

/-- None of several effects may draw lots if each of them may not. -/
theorem Effect.anyDrawsLots_eq_false_iff {es : List Effect} :
    anyDrawsLots es = false ↔ ∀ e ∈ es, e.drawsLots = false := by
  induction es with
  | nil => simp [anyDrawsLots]
  | cons e es ih => simp [anyDrawsLots, ih]

section

variable {s : Site} {x : Session}

/-- An effect that draws no number still draws none when its bindings are kept. -/
theorem keepBindings_still {a : Attempt Session} (h : Yields x.Still a) :
    Yields (fun p => x.Still p.1) (keepBindings s a) :=
  h.bind (fun _ hy => .pure hy)

/-- A body whose bindings are forgotten at its end. -/
theorem forget_still {y : Session} {b : Bindings} {a : Attempt (Session × Bindings)}
    (hy : x.Still y) (h : Yields (fun p => y.Still p.1) a) :
    Yields (fun p => x.Still p.1) (a >>= fun p => Pure.pure (p.1, b)) :=
  h.bind (fun _ hp => .pure (Eq.trans hp hy))

end

mutual

/-- An effect that draws no lots leaves the random numbers where they are. -/
theorem Effect.run_still (e : Effect) (s : Site) (x : Session) (h : e.drawsLots = false) :
    Yields (fun p => x.Still p.1) (e.run s x) := by
  cases e with
  | setVar target name value => exact keepBindings_still (.lift (fun _ => s.setVar_still x))
  | addVar target name delta => exact keepBindings_still (.lift (fun _ => s.addVar_still x))
  | moveToken token source target place =>
    have hplace : place ≠ .random := by simpa [drawsLots] using h
    exact keepBindings_still (s.moveToken_still x hplace token source target)
  | moveAll source target filter =>
    exact keepBindings_still (s.moveAll_still x source target filter)
  | moveTokenAdjacent token source target place =>
    have hplace : place ≠ .random := by simpa [drawsLots] using h
    exact keepBindings_still (s.moveTokenAdjacent_still x hplace token source target)
  | draw source target count => exact keepBindings_still (s.draw_still x source target count)
  | shuffle zone => simp [drawsLots] at h
  | createToken type zone props => exact keepBindings_still (.lift (fun _ => s.createToken_still x))
  | destroyToken token => exact keepBindings_still (s.destroyToken_still x token)
  | setTokenProp token prop value =>
    exact keepBindings_still (s.setTokenProp_still x token prop value)
  | setMarker space marker state =>
    exact keepBindings_still (s.setMarker_still x space marker state)
  | ifThenElse when yes no =>
    rw [drawsLots, Bool.or_eq_false_iff] at h
    rw [Effect.run]
    refine .after (fun holds => .ite ?_ ?_)
    · exact forget_still rfl (Effect.runAll_still yes (s.enter "then") 0 x h.1)
    · exact forget_still rfl (Effect.runAll_still no (s.enter "else") 0 x h.2)
  | forEach bind source body limit =>
    rw [drawsLots] at h
    rw [Effect.run]
    refine .after (fun items => .after (fun limit => ?_))
    refine Yields.bind (P := x.Still) ?_ (fun y hy => .pure hy)
    refine Yields.foldlM (fun i y hy => ?_) _ rfl
    exact (Effect.runAll_still body (s.each bind i.1 i.2) 0 y h).bind
      (fun p hp => .pure (Eq.trans hp hy))
  | letIn bind value body =>
    rw [drawsLots] at h
    rw [Effect.run]
    exact .after (fun value => forget_still rfl
      (Effect.runAll_still body ((s.bind bind value).enter "in") 0 x h))
  | reduce source item acc initial next result body =>
    rw [drawsLots] at h
    rw [Effect.run]
    exact .after (fun value => forget_still rfl
      (Effect.runAll_still body ((s.bind result value).enter "in") 0 x h))
  | rollRandom bind min max body => simp [drawsLots] at h
  | removeByPriority budget groups countBind body =>
    rw [drawsLots] at h
    rw [Effect.run]
    refine (s.removeByPriority_still x budget groups).bind (fun p hp => ?_)
    exact forget_still hp (Effect.runAll_still body _ 0 p.2 h)
  | chooseOne bind options =>
    rw [Effect.run]
    exact .after (fun _ => .pure rfl)
  | chooseN bind options cardinality =>
    rw [Effect.run]
    exact .after (fun _ => .pure rfl)
  | grantFreeOperation offer => exact keepBindings_still (s.grantFreeOperation_still x offer)
  | setEligibilityOverride seat eligible =>
    exact keepBindings_still (s.setEligibilityOverride_still x seat eligible)
  | pushInterruptPhase phase => exact keepBindings_still (s.pushInterruptPhase_still x phase)

/-- Effects that draw no lots leave the random numbers where they are. -/
theorem Effect.runAll_still (es : List Effect) (s : Site) (i : Nat) (x : Session)
    (h : Effect.anyDrawsLots es = false) :
    Yields (fun p => x.Still p.1) (Effect.runAll es s i x) := by
  cases es with
  | nil =>
    rw [Effect.runAll]
    exact .pure rfl
  | cons e es =>
    rw [anyDrawsLots, Bool.or_eq_false_iff] at h
    rw [Effect.runAll]
    refine ((s.entry i e).spend_still x).bind (fun y hy => ?_)
    refine (Effect.run_still e (s.entry i e) y h.1).bind (fun p hp => ?_)
    refine (Effect.runAll_still es { s with bindings := p.2 } (i + 1) p.1 h.2).mono (fun q hq => ?_)
    exact hq.trans (hp.trans hy)

end

/-- A run of effects that draw no lots leaves the random numbers where they are. -/
theorem Session.run_random {x y : Session} {setting : Setting} {root : String} {b : Bindings}
    {effects : List Effect} (h : x.run setting root b effects = .ok y)
    (hlots : ∀ e ∈ effects, e.drawsLots = false) : y.state.random = x.state.random := by
  obtain ⟨p, hp, h⟩ := bind_eq_ok h
  cases h
  exact (Effect.runAll_still effects _ 0 x (Effect.anyDrawsLots_eq_false_iff.2 hlots)).of_ok hp

end Tabletop
