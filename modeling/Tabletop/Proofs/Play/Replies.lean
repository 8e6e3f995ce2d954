import Tabletop.Proofs.Effect.Replies
import Tabletop.Proofs.Play.Cost

/-!
# Answers to a move that is carried out

A host and its special activity are carried out in one session with one budget, each with the
selections of its own.  A part of that is a step from one performance to the next; what such steps
do under smaller budgets, and with more selections on either side, is put together step by step.

Main statement: `Rules.perform_answerable`.
-/

namespace Tabletop

open Inquiry (Replies Spent)

/-- The rules with another budget. -/
def Rules.within (r : Rules) (n : UInt32) : Rules :=
  { r with limits := { r.limits with maxOps := n } }

/-- What stops moves, and the values of names that come in as answers on either side. -/
def Inquiry.stops (p : Bool → Bindings) : Inquiry Stop where
  Open e := ∃ q, e = .pending q
  Fits e := ∃ q x, e = .pending q ∧ (p q.special).get? q.decision.name = some x ∧ q.decision.Takes x
  Misfits e := ∃ q x, e = .pending q ∧ (p q.special).get? q.decision.name = some x ∧
    ¬q.decision.Takes x
  Refuses e e' := ∃ q cause action, e = .pending q ∧
    e' = .refused { refusal := .wrongSelection q.decision.name cause, action }
  Exhausts n e := ∃ path, e = .fault (.shortage n path)
  not_exhausts := by
    rintro e n ⟨q, rfl⟩ ⟨path, h⟩
    cases h

/-- A part of a performance under budgets up to one, and the same part with more selections. -/
structure Answerable (p : Bool → Bindings) (top : UInt32)
    (a a' : UInt32 → Performance → Check Performance) : Prop where
  replies : ∀ x, Replies (.stops p) top x.session.ops (fun y => y.session.ops) Eq
    (fun n => a n x) (fun n => a' n x)
  /-- Nothing is asked once all operations are spent. -/
  spent : ∀ (n : UInt32) x, x.session.ops = n.toNat →
    (Inquiry.stops p).Spent n.toNat (fun y => y.session.ops) (a' n x)

namespace Answerable

variable {p : Bool → Bindings} {top : UInt32}
  {a a' f f' : UInt32 → Performance → Check Performance}

/-- What spends nothing and asks for nothing. -/
theorem idle (g : Performance → Performance) (hg : ∀ x, (g x).session.ops = x.session.ops) :
    Answerable p top (fun _ x => .ok (g x)) (fun _ x => .ok (g x)) where
  replies x := .pure (hg x) rfl
  spent _ x hx := (hg x).trans hx

/-- A part that depends on what does not change. -/
theorem ite {c : Prop} [Decidable c] (ha : Answerable p top a a') (hf : Answerable p top f f') :
    Answerable p top (fun n x => if c then a n x else f n x)
      (fun n x => if c then a' n x else f' n x) := by
  by_cases h : c
  · simp only [if_pos h]
    exact ha
  · simp only [if_neg h]
    exact hf

/-- One part after another. -/
theorem comp (ha : Answerable p top a a') (hf : Answerable p top f f') :
    Answerable p top (fun n x => a n x >>= f n) (fun n x => a' n x >>= f' n) where
  replies x := by
    refine (ha.replies x).bind (fun _ _ _ n y hy => hf.spent n y hy) ?_
    rintro n y _ - - rfl
    exact hf.replies y
  spent n x hx := (ha.spent n x hx).bind (fun y hy => hf.spent n y hy)

end Answerable

namespace Plan

variable {p : Bool → Bindings} {top : UInt32} (pl : Plan) (r : Rules) {b' : Bindings}

/-! What a halt of a plan's effects asks, the move asks on the plan's side. -/

/-- A halt whose stop is an open question is an open question. -/
theorem stop_open (e : Halt) (h : (Inquiry.stops p).Open (pl.stop e)) :
    (Inquiry.halts (p pl.special)).Open e := by
  obtain ⟨q, hq⟩ := h
  cases e with
  | pending d => exact ⟨d, rfl⟩
  | fault f => cases hq
  | refused name cause => cases hq

/-- A halt whose stop an answer fits is one that the answer fits. -/
theorem stop_fits (e : Halt) (h : (Inquiry.stops p).Fits (pl.stop e)) :
    (Inquiry.halts (p pl.special)).Fits e := by
  obtain ⟨q, x, hq, hx, htakes⟩ := h
  cases e with
  | pending d =>
    cases hq
    exact ⟨d, x, rfl, hx, htakes⟩
  | fault f => cases hq
  | refused name cause => cases hq

/-- A halt whose stop an answer misfits is one that the answer misfits. -/
theorem stop_misfits (e : Halt) (h : (Inquiry.stops p).Misfits (pl.stop e)) :
    (Inquiry.halts (p pl.special)).Misfits e := by
  obtain ⟨q, x, hq, hx, hnot⟩ := h
  cases e with
  | pending d =>
    cases hq
    exact ⟨d, x, rfl, hx, hnot⟩
  | fault f => cases hq
  | refused name cause => cases hq

/-- A halt that refuses an answer stops the move with a refusal of it. -/
theorem stop_refuses (e e' : Halt) (h : (Inquiry.halts (p pl.special)).Refuses e e') :
    (Inquiry.stops p).Refuses (pl.stop e) (pl.stop e') := by
  obtain ⟨d, cause, rfl, rfl⟩ := h
  exact ⟨_, cause, _, rfl, rfl⟩

/-- A halt for want of operations stops the move for want of operations. -/
theorem stop_exhausts (n : Nat) (e : Halt) (h : (Inquiry.halts (p pl.special)).Exhausts n e) :
    (Inquiry.stops p).Exhausts n (pl.stop e) := by
  obtain ⟨path, rfl⟩ := h
  exact ⟨path, rfl⟩

/-- The effects of a plan can be answered: what they ask is asked at one of their operations. -/
theorem runEffects_answerable (hb : (Widening.adding (p pl.special)).Below pl.bindings b')
    (cause : Cause) (root : String) (effects : List Effect) :
    Answerable p top (fun n x => pl.runEffects (r.within n) cause root effects x)
      (fun n x => (pl.under b').runEffects (r.within n) cause root effects x) where
  replies x := by
    have hrun : Replies (.halts (p pl.special)) top _ _ _ _ _ :=
      x.session.run_replies (pl.setting r cause) (pl.pathStart ++ root) effects hb
    refine Replies.bind (hrun.mapError pl.stop_open pl.stop_fits pl.stop_misfits pl.stop_refuses
      pl.stop_exhausts) ?_ ?_
    · exact fun _ _ _ n y hy => hy
    · rintro n y _ - - rfl
      exact .pure rfl rfl
  spent n x hx := by
    have hrun := x.session.run_spent (p := p pl.special) (pl.setting r cause) (pl.pathStart ++ root)
      effects b' hx
    refine Spent.bind (hrun.mapError pl.stop_exhausts) ?_
    exact fun y hy => hy

/-- Paying for a plan can be answered. -/
theorem pay_answerable (hb : (Widening.adding (p pl.special)).Below pl.bindings b') :
    Answerable p top (fun n x => pl.pay (r.within n) x)
      (fun n x => (pl.under b').pay (r.within n) x)
    := by
  unfold pay
  simp only [under_payment, under_cost]
  cases pl.payment with
  | spend => exact runEffects_answerable pl r hb _ _ _
  | skip pipeline => exact .idle _ (fun _ => rfl)
  | free => exact .idle _ (fun _ => rfl)

/-- The stages of a plan can be answered, if what comes after each stage can. -/
theorem runStages_answerable (hb : (Widening.adding (p pl.special)).Below pl.bindings b')
    {after after' : UInt32 → Nat → Performance → Check Performance}
    (hafter : ∀ i, Answerable p top (fun n => after n i) (fun n => after' n i)) :
    ∀ (stages : List Stage) (i : Nat),
      Answerable p top (fun n => pl.runStages (r.within n) (after n) i stages)
        (fun n => (pl.under b').runStages (r.within n) (after' n) i stages)
  | [], _ => .idle id (fun _ => rfl)
  | _ :: stages, i =>
    (runEffects_answerable pl r hb _ _ _).comp
      ((hafter i).comp (runStages_answerable hb hafter stages (i + 1)))

/-- Carrying out a special activity as a whole can be answered. -/
theorem runWhole_answerable (hb : (Widening.adding (p pl.special)).Below pl.bindings b') :
    Answerable p top (fun n => pl.runWhole (r.within n))
      (fun n => (pl.under b').runWhole (r.within n)) :=
  (pay_answerable pl r hb).comp
    (runStages_answerable pl r hb (fun _ => .idle id (fun _ => rfl)) pl.stages 0)

end Plan

/-- The special activity with other bindings. -/
def Accompaniment.under (c : Accompaniment Plan) (b : Bindings) : Accompaniment Plan :=
  { c with special := c.special.under b }

namespace Rules

variable {p : Bool → Bindings} {top : UInt32} (r : Rules) {special : Option (Accompaniment Plan)}
  {b b' : Bindings}

/-- A special activity at a place of its host can be answered, and so can its absence. -/
theorem sideline_answerable
    (hspecial : ∀ c ∈ special, c.special.special = true ∧
      (Widening.adding (p true)).Below c.special.bindings b')
    (timing : Timing) (afterStage : Option Nat) :
    Answerable p top (fun n => (r.within n).sideline special timing afterStage)
      (fun n => (r.within n).sideline (special.map (·.under b')) timing afterStage) := by
  cases special with
  | none => exact .idle id (fun _ => rfl)
  | some c =>
    obtain ⟨hside, hb⟩ := hspecial c rfl
    exact .ite (c.special.runWhole_answerable r (hside.symm ▸ hb)) (.idle id (fun _ => rfl))

/-- A host and its special activity, carried out under smaller budgets or with more selections. -/
theorem perform_answerable {host : Plan} (hhost : host.special = false)
    (hb : (Widening.adding (p false)).Below host.bindings b)
    (hspecial : ∀ c ∈ special, c.special.special = true ∧
      (Widening.adding (p true)).Below c.special.bindings b') :
    Answerable p top (fun n => (r.within n).perform host special)
      (fun n => (r.within n).perform (host.under b) (special.map (·.under b'))) := by
  have hside (timing : Timing) (afterStage : Option Nat) : Answerable p top _ _ :=
    r.sideline_answerable hspecial timing afterStage
  rw [← hhost] at hb
  exact (host.pay_answerable r hb).comp ((hside .before none).comp
    ((host.runStages_answerable r hb (fun i => hside .during (some i)) host.stages 0).comp
      (hside .after none)))

end Rules

end Tabletop
