import Mathlib.Data.List.Nodup
import Tabletop.Trigger.Cascade

/-!
# In which order triggers hear of an event

The index keeps the triggers of each kind apart and sorts each kind by priority alone; that ties
keep their places is up to the sort.  This file compares that with one line of all triggers, in
which a higher priority comes first and of equal ones the trigger declared first.  No two triggers
stand at the same place of that line, so it is the only list of all triggers in that order, and what
the index holds for a kind is the part of the line that listens for the kind.

The rest of the line lets an event of the kind pass: a pattern accepts only events of its own kind.
So putting an event to the triggers that the index finds is putting it to all of them.

Main statements: `TriggerIndex.candidates_ofDefinition`, `Rules.dispatchAt_eq`.
-/

namespace Tabletop

namespace TriggerIndex

/-- Whether a trigger stands before another in firing order, or they are the same: by priority, and
of equal ones by position. -/
def precedes (a b : PlacedTrigger) : Bool :=
  b.2.priority < a.2.priority || (a.2.priority == b.2.priority && a.1 ≤ b.1)

/-- A trigger stands before another by its priority, and of equal ones by its position. -/
theorem precedes_iff {a b : PlacedTrigger} :
    precedes a b = true ↔
      b.2.priority.toInt < a.2.priority.toInt ∨
        a.2.priority.toInt = b.2.priority.toInt ∧ a.1 ≤ b.1 := by
  simp only [precedes, Bool.or_eq_true, Bool.and_eq_true, decide_eq_true_eq, beq_iff_eq,
    Int32.lt_iff_toInt_lt, Int32.toInt_inj]

/-- A trigger fires before another, or at the same rank, by its priority. -/
theorem firesBefore_iff {a b : PlacedTrigger} :
    firesBefore a b = true ↔ b.2.priority.toInt ≤ a.2.priority.toInt := by
  simp only [firesBefore, decide_eq_true_eq, Int32.le_iff_toInt_le]

/-- The firing order of placed triggers is transitive. -/
theorem precedes_trans (a b c : PlacedTrigger) (hab : precedes a b = true)
    (hbc : precedes b c = true) : precedes a c = true := by
  rw [precedes_iff] at *
  omega

/-- Of two placed triggers one stands before the other, or they are the same. -/
theorem precedes_total (a b : PlacedTrigger) : (precedes a b || precedes b a) = true := by
  rw [Bool.or_eq_true, precedes_iff, precedes_iff]
  omega

/-- Two triggers that stand before each other have the same position. -/
theorem position_eq_of_precedes {a b : PlacedTrigger} (hab : precedes a b = true)
    (hba : precedes b a = true) : a.1 = b.1 := by
  rw [precedes_iff] at *
  omega

/-- The order by priority is transitive. -/
theorem firesBefore_trans (a b c : PlacedTrigger) (hab : firesBefore a b = true)
    (hbc : firesBefore b c = true) : firesBefore a c = true := by
  rw [firesBefore_iff] at *
  omega

/-- Of two triggers one has at least the priority of the other. -/
theorem firesBefore_total (a b : PlacedTrigger) : (firesBefore a b || firesBefore b a) = true := by
  rw [Bool.or_eq_true, firesBefore_iff, firesBefore_iff]
  omega

variable (d : Definition)

/-- All triggers of a definition with their positions, in firing order. -/
def placedLine : List PlacedTrigger := (placed d).mergeSort precedes

/-- The positions in a definition ascend. -/
theorem pairwise_placed : (placed d).Pairwise (fun a b => a.1 < b.1) := by
  have hpositions : (placed d).map (·.1) = List.range' 0 d.triggers.length := by
    rw [placed, List.map_map]
    exact List.zipIdx_map_snd 0 d.triggers
  have hpairwise : ((placed d).map (·.1)).Pairwise (· < ·) := by
    rw [hpositions]
    exact List.pairwise_lt_range'
  exact List.pairwise_map.1 hpairwise

/-- Triggers are told apart by their positions. -/
theorem eq_of_position_eq {a b : PlacedTrigger} (ha : a ∈ placed d) (hb : b ∈ placed d)
    (h : a.1 = b.1) : a = b := by
  have hnodup : ((placed d).map (·.1)).Nodup :=
    List.pairwise_map.2 ((pairwise_placed d).imp Nat.ne_of_lt)
  exact List.inj_on_of_nodup_map hnodup ha hb h

/-- A sort by priority alone leaves triggers that are listed by position in firing order. -/
theorem pairwise_mergeSort_firesBefore {l : List PlacedTrigger}
    (h : l.Pairwise (fun a b => a.1 < b.1)) :
    (l.mergeSort firesBefore).Pairwise (fun a b => precedes a b = true) := by
  induction l with
  | nil => simp
  | cons a l ih =>
    obtain ⟨ha, hl⟩ := List.pairwise_cons.1 h
    obtain ⟨before, after, hsorted, hrest, hbefore⟩ :=
      List.mergeSort_cons firesBefore_trans firesBefore_total a l
    have hwhole := List.pairwise_mergeSort firesBefore_trans firesBefore_total (a :: l)
    rw [hsorted] at hwhole ⊢
    have hih := ih hl
    rw [hrest] at hih
    have hmem : ∀ b, b ∈ before ++ after → a.1 < b.1 := by
      intro b hb
      rw [← hrest] at hb
      exact ha b (List.mem_mergeSort.1 hb)
    rw [List.pairwise_append, List.pairwise_cons] at hwhole ⊢
    rw [List.pairwise_append] at hih
    refine ⟨hih.1, ⟨fun b hb => ?_, hih.2.1⟩, fun b hb c hc => ?_⟩
    · have hprio := firesBefore_iff.1 (hwhole.2.1.1 b hb)
      have hposition := hmem b (List.mem_append_right _ hb)
      rw [precedes_iff]
      omega
    · rcases List.mem_cons.1 hc with rfl | hc
      · have hprio := hbefore b hb
        rw [Bool.not_eq_true', ← Bool.not_eq_true, firesBefore_iff] at hprio
        rw [precedes_iff]
        omega
      · exact hih.2.2 b hb c hc

/-- The line is in firing order, and there is no other such list of all triggers. -/
theorem eq_placedLine_iff {l : List PlacedTrigger} :
    l = placedLine d ↔ l.Perm (placed d) ∧ l.Pairwise (fun a b => precedes a b = true) := by
  have hperm : (placedLine d).Perm (placed d) := List.mergeSort_perm _ _
  have hsorted : (placedLine d).Pairwise (fun a b => precedes a b = true) :=
    List.pairwise_mergeSort precedes_trans precedes_total _
  constructor
  · rintro rfl
    exact ⟨hperm, hsorted⟩
  · rintro ⟨hl, hpairwise⟩
    refine (hl.trans hperm.symm).eq_of_pairwise (fun a b ha hb hab hba => ?_) hpairwise hsorted
    exact eq_of_position_eq d (hl.mem_iff.1 ha) (hperm.mem_iff.1 hb)
      (position_eq_of_precedes hab hba)

/-- The triggers of a kind are the part of the line that listens for it. -/
theorem ofKind_eq (k : EventKind) :
    ofKind d k = (placedLine d).filter (fun t => t.2.pattern.kind = k) := by
  obtain ⟨hperm, hsorted⟩ := (eq_placedLine_iff d).1 rfl
  have hpositions := (pairwise_placed d).filter (fun t => t.2.pattern.kind = k)
  have hkind := pairwise_mergeSort_firesBefore hpositions
  have hsame : (ofKind d k).Perm ((placedLine d).filter (fun t => t.2.pattern.kind = k)) :=
    (List.mergeSort_perm _ _).trans (hperm.filter _).symm
  refine hsame.eq_of_pairwise (fun a b ha hb hab hba => ?_) hkind (hsorted.filter _)
  have ha' : a ∈ placed d := (List.mem_filter.1 (List.mem_mergeSort.1 ha)).1
  have hb' : b ∈ placed d := hperm.mem_iff.1 (List.mem_filter.1 hb).1
  exact eq_of_position_eq d ha' hb' (position_eq_of_precedes hab hba)

/-- What a table that leaves out empty entries has for a key, where a missing entry reads as
empty. -/
theorem lookup_filter_getD {κ α : Type} [BEq κ] [LawfulBEq κ] (f : κ → List α) (k : κ) :
    ∀ ks : List κ, (((ks.map (fun k => (k, f k))).filter (fun e => !e.2.isEmpty)).lookup
      k).getD [] =
      if k ∈ ks then f k else []
  | [] => rfl
  | k' :: ks => by
    have ih := lookup_filter_getD f k ks
    by_cases hk : k = k'
    · subst hk
      rw [if_pos List.mem_cons_self]
      cases hempty : (f k).isEmpty with
      | true =>
        rw [List.map_cons, List.filter_cons_of_neg (by simp [hempty]), ih,
          List.isEmpty_iff.1 hempty, ite_self]
      | false =>
        rw [List.map_cons, List.filter_cons_of_pos (by simp [hempty]), List.lookup_cons_self]
        rfl
    · have hmem : k ∈ k' :: ks ↔ k ∈ ks := by simp [hk]
      simp only [hmem]
      cases hempty : (f k').isEmpty with
      | true => rw [List.map_cons, List.filter_cons_of_neg (by simp [hempty]), ih]
      | false =>
        rw [List.map_cons, List.filter_cons_of_pos (by simp [hempty]), List.lookup_cons,
          beq_false_of_ne hk]
        exact ih

/-- What the index has for a kind of event: the part of the line that listens for it. -/
theorem candidates_ofDefinition (k : EventKind) :
    (ofDefinition d).candidates k = (placedLine d).filter (fun t => t.2.pattern.kind = k) := by
  have hall : k ∈ kinds := by cases k <;> decide
  rw [candidates, ofDefinition, lookup_filter_getD, if_pos hall, ofKind_eq]

end TriggerIndex

/-- All triggers of a definition in firing order. -/
def Definition.line (d : Definition) : List Trigger := (TriggerIndex.placedLine d).map (·.2)

/-- A pattern accepts only events of its own kind. -/
theorem EventPattern.kind_eq_of_accepted {pattern : EventPattern} {e : Event}
    (h : pattern.accepted e = true) : pattern.kind = e.kind := by
  cases pattern <;> cases e <;> first | rfl | cases h

/-- A trigger lets the events of other kinds pass. -/
theorem Trigger.react_of_kind_ne {t : Trigger} {e : Event} (hkind : t.pattern.kind ≠ e.kind)
    (r : Rules) (depth : UInt32) (onward : Option (Event → Progress → Tracked Progress))
    (p : Progress) : t.react r depth onward e p = .ok p := by
  have hrefused : t.pattern.accepted e = false := by
    rw [← Bool.not_eq_true]
    exact fun h => hkind (EventPattern.kind_eq_of_accepted h)
  have hfires : t.fires r.game e p.state = .ok false := by
    rw [fires, if_neg (by simp [hrefused])]
    rfl
  unfold react
  rw [hfires]
  rfl

namespace Rules

variable (r : Rules)

/-- How an event is put to the triggers below a level, if there is a level below. -/
def below : Nat → Option (Event → Progress → Tracked Progress)
  | 0 => none
  | left + 1 => some (r.dispatchAt left)

/-- An event is put to all triggers, in firing order. -/
theorem dispatchAt_eq (left : Nat) (e : Event) (p : Progress) :
    r.dispatchAt left e p =
      r.definition.line.foldlM (fun p t => t.react r (r.depthAt left) (r.below left) e p) p := by
  have hfold : r.dispatchAt left e p = (r.game.triggers.candidates e.kind).foldlM
      (fun p t => t.2.react r (r.depthAt left) (r.below left) e p) p := by
    cases left <;> rfl
  rw [hfold, r.game.triggers_eq, TriggerIndex.candidates_ofDefinition, List.foldlM_filter,
    Definition.line, List.foldlM_map]
  congr 1
  funext p t
  by_cases hkind : t.2.pattern.kind = e.kind
  · rw [if_pos (by simpa using hkind)]
  · rw [if_neg (by simpa using hkind), Trigger.react_of_kind_ne hkind]
    rfl

end Rules

end Tabletop
