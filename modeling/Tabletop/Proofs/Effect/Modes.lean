import Tabletop.Proofs.Effect.Terms
import Tabletop.Proofs.Effect.Asking
import Tabletop.Play.Start

/-!
# Runs that may leave decisions open, and runs that may not

Whether a run may leave a decision open makes no difference until one is open.  Up to there both
runs are the same; at the choice where the one stops, the other is faulty, at the path of that
choice and for the same reason.

Main statement: `Session.agree_in_both_modes`.
-/

namespace Tabletop

/-! ## Halts in both modes -/

/-- The fault that stands for a halt where no decision may be left open. -/
inductive Halt.Firm : Halt → Fault → Prop where
  | fault (f : Fault) : Firm (.fault f) f
  /-- A missing selection is a fault at the choice that asks for it. -/
  | missing {d : Decision} {path : String} (hid : d.id = path ++ "::" ++ d.name) :
      Firm (.pending d) (.effect (.selectionMissing d.name) path)
  /-- A selection that does not fit is a fault for the same cause. -/
  | wrong (name : String) (cause : ChoiceFault) (path : String) :
      Firm (.refused name cause) (.effect (.selectionWrong cause) path)

/-- The second attempt is what the first one is where no decision may be left open. -/
def Firms {α : Type} (a b : Attempt α) : Prop :=
  match a with
  | .ok x => b = .ok x
  | .error halt => ∃ f, b = .error (.fault f) ∧ halt.Firm f

namespace Firms

variable {α β : Type} {a b : Attempt α}

/-- A success is the same in both modes. -/
theorem pure (x : α) : Firms (Pure.pure x : Attempt α) (Pure.pure x) := rfl

/-- What asks for nothing is the same in both modes. -/
theorem of_settled {P : α → Prop} (h : Settled P a) : Firms a a := by
  cases a with
  | ok x => rfl
  | error halt =>
    cases halt with
    | fault f => exact ⟨f, rfl, .fault f⟩
    | pending d => exact h.elim
    | refused name cause => exact h.elim

/-- An evaluation is the same in both modes. -/
theorem lift (r : Result α) : Firms (liftM r : Attempt α) (liftM r) :=
  of_settled (Settled.lift (fun _ _ => trivial))

/-- What agrees step by step agrees as a whole. -/
theorem bind {f g : α → Attempt β} (h : Firms a b) (hfg : ∀ x, a = .ok x → Firms (f x) (g x)) :
    Firms (a >>= f) (b >>= g) := by
  cases a with
  | ok x =>
    obtain rfl : b = .ok x := h
    exact hfg x rfl
  | error halt =>
    obtain ⟨fault, rfl, hfirm⟩ := h
    exact ⟨fault, rfl, hfirm⟩

/-- An attempt that depends on a test is firm if both of its branches are. -/
theorem ite {c : Prop} [Decidable c] {a' b' : Attempt α} (hpos : c → Firms a b)
    (hneg : ¬c → Firms a' b') : Firms (if c then a else a') (if c then b else b') := by
  by_cases h : c
  · rw [if_pos h, if_pos h]
    exact hpos h
  · rw [if_neg h, if_neg h]
    exact hneg h

/-- Folds agree if their steps do. -/
theorem foldlM {γ : Type} {f g : α → γ → Attempt α} (hfg : ∀ c x, Firms (f x c) (g x c)) :
    ∀ (l : List γ) (x : α), Firms (l.foldlM f x) (l.foldlM g x)
  | [], x => pure x
  | c :: l, x => by
    rw [List.foldlM_cons, List.foldlM_cons]
    exact (hfg c x).bind (fun y _ => foldlM hfg l y)

/-- A success in one mode is the same success in the other. -/
theorem ok_iff (h : Firms a b) (x : α) : a = .ok x ↔ b = .ok x := by
  cases a with
  | ok y =>
    obtain rfl : b = .ok y := h
    rfl
  | error halt =>
    obtain ⟨fault, rfl, -⟩ := h
    exact ⟨fun h => (by cases h), fun h => (by cases h)⟩

/-- What stands for the halt of an attempt. -/
theorem of_error (h : Firms a b) {halt : Halt} (ha : a = .error halt) :
    ∃ f, b = .error (.fault f) ∧ halt.Firm f := by
  subst ha
  exact h

end Firms

/-! ## Choices -/

namespace Site

variable (s : Site) (n : UInt32) (x : Session)

/-- What is asked for in the lenient mode is the fault of a missing selection in the strict one. -/
theorem missing_firms {α : Type} {d : Decision} (hid : d.id = s.decisionId d.name) :
    Firms ((s.onTerms .discover n).missing d : Attempt α) ((s.onTerms .strict n).missing d) :=
  ⟨_, rfl, .missing hid⟩

/-- What is refused in the lenient mode is the fault of a wrong selection in the strict one. -/
theorem refuse_firms {α : Type} (name : String) (cause : ChoiceFault) :
    Firms ((s.onTerms .discover n).refuse name cause : Attempt α)
      ((s.onTerms .strict n).refuse name cause) :=
  ⟨_, rfl, .wrong name cause s.path⟩

/-- A choice of one differs in what becomes of a missing or wrong selection only. -/
theorem chooseOne_firms (bind : String) (options : Query) :
    Firms ((s.onTerms .discover n).chooseOne x bind options)
      ((s.onTerms .strict n).chooseOne x bind options) := by
  refine Firms.bind (.lift (s.bindings.fill bind)) (fun name _ => ?_)
  refine Firms.bind (.lift (options.eval (s.view x))) (fun domain _ => ?_)
  simp only [bindings_onTerms]
  cases s.bindings.get? name with
  | none => exact s.missing_firms n rfl
  | some selected =>
    dsimp only
    cases domain.find? (fun option => option.same selected) with
    | none => exact s.refuse_firms n _ _
    | some option => exact .pure _

/-- A choice of several differs in what becomes of a missing or wrong selection only. -/
theorem chooseN_firms (bind : String) (options : Query) (c : Cardinality) :
    Firms ((s.onTerms .discover n).chooseN x bind options c)
      ((s.onTerms .strict n).chooseN x bind options c) := by
  refine Firms.bind (.lift (s.bindings.fill bind)) (fun name _ => ?_)
  refine Firms.bind (.lift (options.eval (s.view x))) (fun domain _ => ?_)
  refine Firms.bind (.lift (s.bounds x c domain.length)) (fun (min, max) _ => ?_)
  refine Firms.ite (fun _ => .of_settled (.fail (P := fun _ => True) s _)) (fun _ => ?_)
  simp only [bindings_onTerms]
  cases s.bindings.get? name with
  | none => exact s.missing_firms n rfl
  | some selected =>
    cases selected with
    | scalar y => exact s.refuse_firms n _ _
    | token id => exact s.refuse_firms n _ _
    | array xs =>
      dsimp only
      cases choiceFault? name domain min.toInt.toNat max.toInt.toNat xs with
      | some fault => exact s.refuse_firms n _ _
      | none => exact .pure _

end Site

/-! ## Runs -/

/-- A body whose bindings are forgotten at its end. -/
theorem forget_firms (b : Bindings) {a a' : Attempt (Session × Bindings)} (h : Firms a a') :
    Firms (a >>= fun p => Pure.pure (p.1, b)) (a' >>= fun p => Pure.pure (p.1, b)) :=
  h.bind (fun _ _ => .pure _)

mutual

/-- An effect is the same in both modes, up to the first decision without a fitting selection. -/
theorem Effect.run_firms (e : Effect) (s : Site) (n : UInt32) (x : Session) :
    Firms (e.run (s.onTerms .discover n) x) (e.run (s.onTerms .strict n) x) := by
  -- A plain effect does not look at the mode.
  have hplain (h : e.Plain) :
      Firms (e.run (s.onTerms .discover n) x) (e.run (s.onTerms .strict n) x) := by
    rw [h.run_onTerms, h.run_onTerms]
    exact .of_settled (h.run_settled s x)
  cases e with
  | ifThenElse when yes no =>
    rw [Effect.run, Effect.run]
    refine Firms.bind (.lift (when.eval (s.view x)))
      (fun holds _ => .ite (fun _ => ?_) (fun _ => ?_))
    · exact forget_firms _ (Effect.runAll_firms yes (s.enter "then") 0 n x)
    · exact forget_firms _ (Effect.runAll_firms no (s.enter "else") 0 n x)
  | forEach bind source body limit =>
    rw [Effect.run, Effect.run]
    refine Firms.bind (.lift (source.eval (s.view x))) (fun items _ => ?_)
    refine Firms.bind (.of_settled (s.loopLimit_settled x limit)) (fun limit _ => ?_)
    refine Firms.bind (.foldlM (fun i y => ?_) _ x) (fun _ _ => .pure _)
    exact (Effect.runAll_firms body (s.each bind i.1 i.2) 0 n y).bind (fun _ _ => .pure _)
  | letIn bind value body =>
    rw [Effect.run, Effect.run]
    refine Firms.bind (.lift (value.eval (s.view x))) (fun value _ => ?_)
    exact forget_firms _ (Effect.runAll_firms body ((s.bind bind value).enter "in") 0 n x)
  | reduce source item acc initial next result body =>
    rw [Effect.run, Effect.run, s.foldQuery_onTerms, s.foldQuery_onTerms]
    refine Firms.bind (.lift (s.foldQuery x source item acc initial next)) (fun value _ => ?_)
    exact forget_firms _ (Effect.runAll_firms body ((s.bind result value).enter "in") 0 n x)
  | rollRandom bind min max body =>
    rw [Effect.run, Effect.run]
    refine Firms.bind (.of_settled (s.roll_altered x min max)) (fun (k, y) _ => ?_)
    exact forget_firms _ (Effect.runAll_firms body ((s.bind bind (.int k)).enter "in") 0 n y)
  | removeByPriority budget groups countBind body =>
    rw [Effect.run, Effect.run, s.removeByPriority_onTerms, s.removeByPriority_onTerms]
    refine Firms.bind (.of_settled (s.removeByPriority_altered x budget groups))
      (fun (count, y) _ => ?_)
    cases countBind with
    | none => exact forget_firms _ (Effect.runAll_firms body (s.enter "in") 0 n y)
    | some name =>
      exact forget_firms _
        (Effect.runAll_firms body ((s.bind name (.int (Int64.ofNat count))).enter "in") 0 n y)
  | chooseOne bind options =>
    rw [Effect.run, Effect.run]
    exact (s.chooseOne_firms n x bind options).bind (fun _ _ => .pure _)
  | chooseN bind options cardinality =>
    rw [Effect.run, Effect.run]
    exact (s.chooseN_firms n x bind options cardinality).bind (fun _ _ => .pure _)
  | _ => exact hplain trivial

/-- Effects that run one after the other are the same in both modes, up to the first decision
without a fitting selection. -/
theorem Effect.runAll_firms (es : List Effect) (s : Site) (i : Nat) (n : UInt32) (x : Session) :
    Firms (Effect.runAll es (s.onTerms .discover n) i x)
      (Effect.runAll es (s.onTerms .strict n) i x) := by
  cases es with
  | nil => exact .pure (x, s.bindings)
  | cons e es =>
    rw [Effect.runAll, Effect.runAll]
    have hspend := ((s.entry i e).onTerms .strict n).spend_settled x
    refine Firms.bind (.of_settled hspend) (fun y _ => ?_)
    refine (Effect.run_firms e (s.entry i e) n y).bind (fun z _ => ?_)
    exact Effect.runAll_firms es { s with bindings := z.2 } (i + 1) n z.1

end

/-- The setting in another mode. -/
def Setting.inMode (s : Setting) (mode : DecisionMode) : Setting := { s with mode }

/-- A choice fault falls into one of the classes for choices. -/
theorem ChoiceFault.reason_mem (cause : ChoiceFault) :
    cause.reason ∈ [EffectReason.choiceNotArray, .choiceDuplicateSelection,
      .choiceCardinalityMismatch, .choiceOutOfDomain] := by
  cases cause <;> simp [reason]

namespace Session

variable (x : Session) (setting : Setting) (root : String) (b : Bindings) (effects : List Effect)

/-- A whole run is the same in both modes, up to the first decision without a fitting selection. -/
theorem run_firms :
    Firms (x.run (setting.inMode .discover) root b effects)
      (x.run (setting.inMode .strict) root b effects) :=
  (Effect.runAll_firms effects { setting, path := root, bindings := b } 0 setting.maxOps x).bind
    (fun _ _ => .pure _)

/-- A run that may leave decisions open comes to a session exactly if the run that may not comes to
the same one.  A decision that is left open is a missing selection in the other run, at the path
with which the id of the decision begins.  A refused selection is there a fault of one of the
classes for choices, with the same report.  Any other failure is the same in both. -/
theorem agree_in_both_modes :
    (∀ y, x.run (setting.inMode .discover) root b effects = .ok y ↔
      x.run (setting.inMode .strict) root b effects = .ok y) ∧
    (∀ d, x.run (setting.inMode .discover) root b effects = .error (.pending d) →
      ∃ path, d.id = path ++ "::" ++ d.name ∧
        x.run (setting.inMode .strict) root b effects =
          .error (.fault (.effect (.selectionMissing d.name) path))) ∧
    (∀ name cause, x.run (setting.inMode .discover) root b effects = .error (.refused name cause) →
      ∃ fault path, x.run (setting.inMode .strict) root b effects =
          .error (.fault (.effect fault path)) ∧
        fault.reason ∈ [EffectReason.choiceNotArray, .choiceDuplicateSelection,
          .choiceCardinalityMismatch, .choiceOutOfDomain] ∧
        fault.text = cause.text) ∧
    (∀ f, x.run (setting.inMode .discover) root b effects = .error (.fault f) →
      x.run (setting.inMode .strict) root b effects = .error (.fault f)) ∧
    ∀ halt, x.run (setting.inMode .strict) root b effects = .error halt →
      x.run (setting.inMode .discover) root b effects = .error halt ∧ (∃ f, halt = .fault f) ∨
      (∃ d, x.run (setting.inMode .discover) root b effects = .error (.pending d)) ∨
      ∃ name cause, x.run (setting.inMode .discover) root b effects =
        .error (.refused name cause) := by
  have hfirms := x.run_firms setting root b effects
  refine ⟨hfirms.ok_iff, fun d hd => ?_, fun name cause hrefused => ?_, fun f hf => ?_,
    fun halt hhalt => ?_⟩
  · obtain ⟨_, hstrict, ⟨⟩⟩ := hfirms.of_error hd
    exact ⟨_, ‹_›, hstrict⟩
  · obtain ⟨_, hstrict, ⟨⟩⟩ := hfirms.of_error hrefused
    exact ⟨_, _, hstrict, cause.reason_mem, rfl⟩
  · obtain ⟨_, hstrict, ⟨⟩⟩ := hfirms.of_error hf
    exact hstrict
  · cases hdiscover : x.run (setting.inMode .discover) root b effects with
    | ok y => cases hhalt.symm.trans ((hfirms.ok_iff y).1 hdiscover)
    | error other =>
      obtain ⟨f, hstrict, hfirm⟩ := hfirms.of_error hdiscover
      obtain rfl : halt = .fault f := Except.error.inj (hhalt.symm.trans hstrict)
      cases hfirm with
      | fault => exact .inl ⟨rfl, f, rfl⟩
      | missing => exact .inr (.inl ⟨_, rfl⟩)
      | wrong => exact .inr (.inr ⟨_, _, rfl⟩)

end Session

/-! ## A feast -/

/-- A feast at which every guest is given one of two gifts. -/
def Effect.gifts : List Effect :=
  [.forAll "guest" .seats [.chooseOne "gift" (.intRange (.int 1) (.int 2))]]

/-- For whom the gifts are given. -/
def Setting.feast : Setting where
  game := .ofDefinition (.minimal "feast")
  actor := ⟨0⟩

/-- Where the gifts are given. -/
def Session.feast : Session where
  state := (Setting.feast.game.start 2 0).toOption.getD default

/-- What an attempt asks for, or refuses. -/
def Attempt.halt? {α : Type} : Attempt α → Option (Decision ⊕ String × ChoiceFault)
  | .error (.pending d) => some (.inl d)
  | .error (.refused name cause) => some (.inr (name, cause))
  | _ => none

/-- An attempt whose halt is a decision asks for it. -/
theorem Attempt.eq_pending {α : Type} {a : Attempt α} {d : Decision}
    (h : Attempt.halt? a = some (.inl d)) : a = .error (.pending d) := by
  cases a with
  | ok x => cases h
  | error halt => cases halt <;> cases h; rfl

/-- An attempt whose halt is a refusal refuses. -/
theorem Attempt.eq_refused {α : Type} {a : Attempt α} {name : String} {cause : ChoiceFault}
    (h : Attempt.halt? a = some (.inr (name, cause))) : a = .error (.refused name cause) := by
  cases a with
  | ok x => cases h
  | error halt => cases halt <;> cases h; rfl

/-- The gift is missing at the first guest, and a third gift is none. -/
theorem Session.agree_in_both_modes_feast :
    (∃ path, "feast/0:forEach/each[0]/0:chooseOne::gift" = path ++ "::" ++ "gift" ∧
      Session.feast.run (Setting.feast.inMode .strict) "feast" ∅ Effect.gifts =
        .error (.fault (.effect (.selectionMissing "gift") path))) ∧
    ∃ fault path, Session.feast.run (Setting.feast.inMode .strict) "feast"
        (Bindings.bind ∅ "gift" (.int 3)) Effect.gifts = .error (.fault (.effect fault path)) ∧
      fault.text = "`3` is not an option for `gift`" := by
  constructor
  · have hasked : Attempt.halt?
        (Session.feast.run (Setting.feast.inMode .discover) "feast" ∅ Effect.gifts) =
        some (.inl (.one "feast/0:forEach/each[0]/0:chooseOne::gift" "gift" [.int 1, .int 2])) := by
      decide +kernel
    exact (Session.agree_in_both_modes _ _ _ _ _).2.1 _ (Attempt.eq_pending hasked)
  · have hrefused : Attempt.halt? (Session.feast.run (Setting.feast.inMode .discover) "feast"
        (Bindings.bind ∅ "gift" (.int 3)) Effect.gifts) =
        some (.inr ("gift", .outside "3" "gift")) := by
      decide +kernel
    obtain ⟨fault, path, hstrict, -, htext⟩ :=
      (Session.agree_in_both_modes _ _ _ _ _).2.2.1 _ _ (Attempt.eq_refused hrefused)
    exact ⟨fault, path, hstrict, htext.trans (by decide +kernel)⟩

end Tabletop
