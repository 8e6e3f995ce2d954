import Tabletop.Definition.Action
import Tabletop.State.Basic

/-!
# The annals of lasting effects

Annals tell what happens to the lasting effects of a game: which of them are set up, for which
action and for which seat; when a boundary comes; and whose teardowns run.  Activations are numbered
in the order of their setups, since the same effect may be active several times for the same action
and seat.

A roster is read off the annals.  It holds the activations that are active, and those that are due:
the boundary has come, and they are still to be torn down.  Annals are orderly if they go on as the
roster expects: whoever is due is torn down first, in the order of the roster, before anything else
happens.

What becomes of an activation in orderly annals follows from that alone.

Main statement: `Roster.Orderly.lifetime`.
-/

namespace Tabletop

/-- An activation of a lasting effect. -/
structure Activation where
  number : Nat
  effect : LastingEffect
  action : ActionId
  /-- The seat for which the setup runs. -/
  seat : Seat

namespace Activation

variable (a : Activation)

/-- The duration of the effect. -/
def duration : Duration := a.effect.duration

/-- What an activation is of: an effect, the action that brings it, and the seat. -/
def origin : LastingEffect × ActionId × Seat := (a.effect, a.action, a.seat)

/-- What a state says of an activation while it is active. -/
def entry : ActiveLasting where
  id := a.effect.id
  action := a.action
  duration := a.duration
  executor := a.seat

end Activation

/-- What happens to lasting effects. -/
inductive Happening where
  | setup (a : Activation)
  /-- A phase is left, or a turn is closed. -/
  | boundary (d : Duration)
  | teardown (a : Activation)

/-- What annals come to. -/
structure Roster where
  /-- The number of activations so far. -/
  count : Nat := 0
  active : List Activation := []
  /-- The activations that are still to be torn down at the present boundary. -/
  due : List Activation := []

namespace Roster

/-- The activations that a boundary ends. -/
def ending (o : Roster) (d : Duration) : List Activation :=
  o.active.filter (fun a => a.duration = d)

/-- Brings a roster up to date. -/
def tell (o : Roster) : Happening → Roster
  | .setup a => { o with count := o.count + 1, active := o.active ++ [a] }
  | .boundary d =>
    { o with active := o.active.filter (fun a => a.duration ≠ d), due := o.ending d }
  | .teardown _ => { o with due := o.due.tail }

/-- Brings a roster up to date with annals. -/
def tellAll (o : Roster) (log : List Happening) : Roster := log.foldl tell o

/-- What may happen next. -/
def Expects (o : Roster) : Happening → Prop
  | .setup a => o.due = [] ∧ a.number = o.count
  | .boundary _ => o.due = []
  | .teardown a => o.due.head? = some a

/-- Annals that go on as a roster expects. -/
def Orderly : Roster → List Happening → Prop
  | _, [] => True
  | o, x :: log => o.Expects x ∧ (o.tell x).Orderly log

variable {o : Roster} {x : Happening} {log before mid after : List Happening} {a b : Activation}
  {d : Duration} {n : Nat}

/-- An empty log leaves the roster. -/
@[simp] theorem tellAll_nil (o : Roster) : o.tellAll [] = o := rfl

/-- A log is told one happening after the other. -/
@[simp] theorem tellAll_cons (o : Roster) (x : Happening) (log : List Happening) :
    o.tellAll (x :: log) = (o.tell x).tellAll log := rfl

/-- Two logs are told one after the other. -/
@[simp] theorem tellAll_append (o : Roster) (log log' : List Happening) :
    o.tellAll (log ++ log') = (o.tellAll log).tellAll log' := List.foldl_append

/-- Annals go on as expected if their first part does and the rest goes on from there. -/
theorem orderly_append :
    ∀ {log : List Happening} {o : Roster}, o.Orderly (log ++ after) ↔
      o.Orderly log ∧ (o.tellAll log).Orderly after
  | [], o => by simp [Orderly]
  | x :: log, o => by
    rw [List.cons_append, Orderly, Orderly, orderly_append, and_assoc]
    rfl

/-! ## Boundaries -/

/-- Tearing down whoever is due is orderly, and nobody is due then. -/
theorem tellAll_due (due : List Activation) :
    ∀ {o : Roster}, o.due = due → o.Orderly (due.map .teardown) ∧
      o.tellAll (due.map .teardown) = { o with due := [] } := by
  induction due with
  | nil =>
    intro o h
    refine ⟨trivial, ?_⟩
    cases o
    cases h
    rfl
  | cons a due ih =>
    intro o h
    have hrest : (o.tell (.teardown a)).due = due := by simp [tell, h]
    obtain ⟨horderly, htold⟩ := ih hrest
    exact ⟨⟨by simp [Expects, h], horderly⟩, htold⟩

/-- What happens at a boundary: the activations that it ends are torn down one after the other. -/
def passing (o : Roster) (d : Duration) : List Happening :=
  .boundary d :: (o.ending d).map .teardown

/-- What happens at a boundary is what the roster expects, if nothing is due before. -/
theorem orderly_passing (h : o.due = []) (d : Duration) : o.Orderly (o.passing d) :=
  ⟨h, (tellAll_due (o.ending d) rfl).1⟩

/-- After a boundary the activations that it ends are gone, and nothing is due. -/
theorem tellAll_passing (h : o.due = []) (d : Duration) :
    o.tellAll (o.passing d) = { o with active := o.active.filter (fun a => a.duration ≠ d) } := by
  refine (tellAll_due (o.ending d) rfl).2.trans ?_
  rw [tell, ← h]

/-- What happens at boundaries that come one after the other. -/
def crossing (o : Roster) : List Duration → List Happening
  | [] => []
  | d :: ds => o.passing d ++ (o.tellAll (o.passing d)).crossing ds

/-- Boundaries may be crossed in two groups. -/
theorem crossing_append (ds ds' : List Duration) :
    ∀ o : Roster, o.crossing (ds ++ ds') =
      o.crossing ds ++ (o.tellAll (o.crossing ds)).crossing ds' := by
  induction ds with
  | nil =>
    intro o
    rfl
  | cons d ds ih =>
    intro o
    rw [List.cons_append, crossing, ih, crossing, List.append_assoc, tellAll_append]

/-- What happens in the course of a move: its lasting effects are set up, and then boundaries
come. -/
def course (o : Roster) (as : List Activation) (ds : List Duration) : List Happening :=
  as.map .setup ++ (o.tellAll (as.map .setup)).crossing ds

/-- Nothing happens before whoever is due has been torn down. -/
theorem exists_of_due :
    ∀ {log : List Happening} {o : Roster}, o.Orderly log → (o.tellAll log).due = [] →
      ∃ later, log = o.due.map .teardown ++ later := by
  intro log
  induction log with
  | nil =>
    intro o _ hdue
    exact ⟨[], by simpa using hdue⟩
  | cons x log ih =>
    intro o horderly hdue
    cases hpresent : o.due with
    | nil => exact ⟨x :: log, rfl⟩
    | cons a due =>
      obtain ⟨hx, hlog⟩ := horderly
      obtain ⟨later, hlater⟩ := ih hlog hdue
      cases x with
      | setup b => exact absurd hx.1 (by simp [hpresent])
      | boundary d => exact absurd hx (by simp [Expects, hpresent])
      | teardown b =>
        have hab : a = b := by simpa [Expects, hpresent] using hx
        have hrest : (o.tell (.teardown b)).due = due := by simp [tell, hpresent]
        rw [hrest] at hlater
        exact ⟨later, by rw [hlater, hab]; rfl⟩

/-! ## Numbers -/

/-- A roster lists activations in the order of their numbers, each once. -/
structure Sound (o : Roster) : Prop where
  active : o.active.Pairwise (fun a b => a.number < b.number)
  due : o.due.Pairwise (fun a b => a.number < b.number)
  active_lt : ∀ a ∈ o.active, a.number < o.count
  due_lt : ∀ a ∈ o.due, a.number < o.count
  /-- Whoever is due is no longer active. -/
  apart : ∀ a ∈ o.active, ∀ b ∈ o.due, a.number ≠ b.number

/-- The empty roster is sound. -/
theorem sound_empty : Sound {} where
  active := .nil
  due := .nil
  active_lt := by simp
  due_lt := by simp
  apart := by simp

/-- In the order of the numbers, whoever is listed before an activation has a smaller number, and
whoever is listed after it a greater one. -/
theorem lt_of_pairwise {older younger : List Activation}
    (h : (older ++ a :: younger).Pairwise (fun a b => a.number < b.number)) :
    (∀ b ∈ older, b.number < a.number) ∧ ∀ b ∈ younger, a.number < b.number := by
  obtain ⟨-, hyounger, hacross⟩ := List.pairwise_append.1 h
  constructor
  · intro b hb
    exact hacross b hb a List.mem_cons_self
  · exact (List.pairwise_cons.1 hyounger).1

/-- A number is listed once. -/
theorem filter_number {l : List Activation} (h : l.Pairwise (fun a b => a.number < b.number))
    (ha : a ∈ l) : l.filter (fun b => b.number = a.number) = [a] := by
  obtain ⟨older, younger, rfl⟩ := List.append_of_mem ha
  obtain ⟨holder, hyounger⟩ := lt_of_pairwise h
  have hno {l : List Activation} (hne : ∀ b ∈ l, b.number ≠ a.number) :
      l.filter (fun b => b.number = a.number) = [] := by
    simpa using hne
  rw [List.filter_append, List.filter_cons_of_pos (by simp),
    hno (fun b hb => Nat.ne_of_lt (holder b hb)), hno (fun b hb => Nat.ne_of_gt (hyounger b hb))]
  rfl

/-- Activations of a sound roster are told apart by their numbers. -/
theorem eq_of_number {l : List Activation} (h : l.Pairwise (fun a b => a.number < b.number))
    (ha : a ∈ l) (hb : b ∈ l) (hnumber : b.number = a.number) : b = a := by
  have hfound : b ∈ l.filter (fun b => b.number = a.number) := by simp [hb, hnumber]
  rw [filter_number h ha] at hfound
  exact List.mem_singleton.1 hfound

/-- A roster stays sound when it is told what it expects. -/
theorem Sound.tell (h : o.Sound) (hx : o.Expects x) : (o.tell x).Sound := by
  cases x with
  | setup a =>
    obtain ⟨hdue, hnumber⟩ := hx
    refine ⟨?_, h.due, ?_, ?_, ?_⟩
    · refine List.pairwise_append.2 ⟨h.active, List.pairwise_singleton _ a, ?_⟩
      intro b hb c hc
      rw [List.mem_singleton.1 hc, hnumber]
      exact h.active_lt b hb
    · intro b hb
      rcases List.mem_append.1 hb with hb | hb
      · exact Nat.lt_succ_of_lt (h.active_lt b hb)
      · rw [List.mem_singleton.1 hb, hnumber]
        exact Nat.lt_succ_self _
    · intro b hb
      exact Nat.lt_succ_of_lt (h.due_lt b hb)
    · intro b _ c hc
      simp [Roster.tell, hdue] at hc
  | boundary d =>
    refine ⟨h.active.filter _, h.active.filter _, ?_, ?_, ?_⟩
    · intro a ha
      exact h.active_lt a (List.mem_filter.1 ha).1
    · intro a ha
      exact h.active_lt a (List.mem_filter.1 ha).1
    · intro a ha b hb hnumber
      obtain ⟨ha, had⟩ := List.mem_filter.1 ha
      obtain ⟨hb, hbd⟩ := List.mem_filter.1 hb
      rw [eq_of_number h.active hb ha hnumber] at had
      simp_all
  | teardown a =>
    refine ⟨h.active, h.due.sublist (List.tail_sublist _), h.active_lt, ?_, ?_⟩
    · intro b hb
      exact h.due_lt b (List.mem_of_mem_tail hb)
    · intro b hb c hc
      exact h.apart b hb c (List.mem_of_mem_tail hc)

/-- A roster stays sound when it is told annals that go on as it expects. -/
theorem Sound.tellAll : ∀ {log : List Happening} {o : Roster}, o.Sound → o.Orderly log →
    (o.tellAll log).Sound
  | [], _, h, _ => h
  | _ :: _, _, h, hlog => (h.tell hlog.1).tellAll hlog.2

/-- The count of activations never goes down. -/
theorem count_le_tell (o : Roster) (x : Happening) : o.count ≤ (o.tell x).count := by
  cases x with
  | setup a => exact Nat.le_succ _
  | boundary d => exact Nat.le_refl _
  | teardown a => exact Nat.le_refl _

/-- The count of activations never goes down in the course of annals. -/
theorem count_le_tellAll : ∀ (log : List Happening) (o : Roster), o.count ≤ (o.tellAll log).count
  | [], _ => Nat.le_refl _
  | x :: log, o => Nat.le_trans (o.count_le_tell x) (count_le_tellAll log _)

/-- Setups take the numbers that follow, and teardowns are of activations that have one. -/
theorem lt_of_mem : ∀ {log : List Happening} {o : Roster}, o.Sound → o.Orderly log →
    (.setup a ∈ log → o.count ≤ a.number) ∧
      (.setup a ∈ log ∨ .teardown a ∈ log → a.number < (o.tellAll log).count) := by
  intro log
  induction log with
  | nil =>
    intro o _ _
    simp
  | cons x log ih =>
    rintro o hs ⟨hx, hlog⟩
    obtain ⟨hfrom, hupto⟩ := ih (hs.tell hx) hlog
    have hcount := o.count_le_tell x
    have hlater := count_le_tellAll log (o.tell x)
    constructor
    · intro hsetup
      rcases List.mem_cons.1 hsetup with rfl | hsetup
      · exact Nat.le_of_eq hx.2.symm
      · exact Nat.le_trans hcount (hfrom hsetup)
    · rintro (hsetup | hteardown)
      · rcases List.mem_cons.1 hsetup with rfl | hsetup
        · have hnumber : a.number < (o.tell (.setup a)).count := hx.2 ▸ Nat.lt_succ_self _
          exact Nat.lt_of_lt_of_le hnumber hlater
        · exact hupto (.inl hsetup)
      · rcases List.mem_cons.1 hteardown with rfl | hteardown
        · have hnumber := hs.due_lt a (List.mem_of_mem_head? hx)
          exact Nat.lt_of_lt_of_le hnumber (Nat.le_trans hcount hlater)
        · exact hupto (.inr hteardown)

/-! ## What becomes of an activation -/

/-- As long as no boundary of its duration has come, an activation stays active and is not torn
down. -/
theorem active_of_open : ∀ {log : List Happening} {o : Roster}, o.Sound → o.Orderly log →
    a ∈ o.active → .boundary a.duration ∉ log →
      a ∈ (o.tellAll log).active ∧ ∀ b, b.number = a.number → .teardown b ∉ log := by
  intro log
  induction log with
  | nil =>
    intro o _ _ ha _
    exact ⟨ha, by simp⟩
  | cons x log ih =>
    rintro o hs ⟨hx, hlog⟩ ha hopen
    obtain ⟨hnotx, hopen⟩ := List.ne_and_not_mem_of_not_mem_cons hopen
    have hkept : a ∈ (o.tell x).active := by
      cases x with
      | setup b => exact List.mem_append_left _ ha
      | boundary d =>
        have hne : a.duration ≠ d := fun heq => hnotx (congrArg Happening.boundary heq)
        exact List.mem_filter.2 ⟨ha, by simpa using hne⟩
      | teardown b => exact ha
    obtain ⟨hactive, hrest⟩ := ih (hs.tell hx) hlog hkept hopen
    refine ⟨hactive, fun b hb hmem => ?_⟩
    rcases List.mem_cons.1 hmem with rfl | hmem
    · exact hs.apart a ha b (List.mem_of_mem_head? hx) hb.symm
    · exact hrest b hb hmem

/-- A number that has been given and is not active does not become active again. -/
theorem Orderly.absent : ∀ {log : List Happening} {o : Roster}, o.Orderly log → n < o.count →
    (∀ b ∈ o.active, b.number ≠ n) → ∀ b ∈ (o.tellAll log).active, b.number ≠ n := by
  intro log
  induction log with
  | nil => exact fun _ _ h => h
  | cons x log ih =>
    rintro o ⟨hx, hlog⟩ hn h
    refine ih hlog (Nat.lt_of_lt_of_le hn (o.count_le_tell x)) ?_
    cases x with
    | setup a =>
      intro b hb
      rcases List.mem_append.1 hb with hb | hb
      · exact h b hb
      · rw [List.mem_singleton.1 hb, hx.2]
        exact Nat.ne_of_gt hn
    | boundary d => exact fun b hb => h b (List.mem_filter.1 hb).1
    | teardown a => exact h

/-- Nor is it torn down, once it is not due. -/
theorem Orderly.not_teardown : ∀ {log : List Happening} {o : Roster}, o.Orderly log →
    n < o.count → (∀ b ∈ o.active, b.number ≠ n) → (∀ b ∈ o.due, b.number ≠ n) →
      ∀ b, b.number = n → .teardown b ∉ log := by
  intro log
  induction log with
  | nil =>
    intro o _ _ _ _ b _
    simp
  | cons x log ih =>
    rintro o ⟨hx, hlog⟩ hn hactive hdue b hb hmem
    rcases List.mem_cons.1 hmem with rfl | hmem
    · exact hdue b (List.mem_of_mem_head? hx) hb
    · have hone : o.Orderly [x] := ⟨hx, trivial⟩
      have hactive' : ∀ c ∈ (o.tell x).active, c.number ≠ n := hone.absent hn hactive
      refine ih hlog (Nat.lt_of_lt_of_le hn (o.count_le_tell x)) hactive' ?_ b hb hmem
      cases x with
      | setup a => exact hdue
      | boundary d => exact fun c hc => hactive c (List.mem_filter.1 hc).1
      | teardown a => exact fun c hc => hdue c (List.mem_of_mem_tail hc)

/-- Whoever is active has been set up. -/
theorem setup_of_active : ∀ {log : List Happening} {o : Roster}, a ∈ (o.tellAll log).active →
    a ∈ o.active ∨ .setup a ∈ log := by
  intro log
  induction log with
  | nil => exact fun ha => .inl ha
  | cons x log ih =>
    intro o ha
    rcases ih ha with ha | ha
    · cases x with
      | setup b =>
        rcases List.mem_append.1 ha with ha | ha
        · exact .inl ha
        · rw [List.mem_singleton.1 ha]
          exact .inr List.mem_cons_self
      | boundary d => exact .inl (List.mem_filter.1 ha).1
      | teardown b => exact .inl ha
    · exact .inr (List.mem_cons_of_mem _ ha)

/-- An activation that has just been set up. -/
theorem exists_of_setup (h : Orderly {} (before ++ .setup a :: after)) :
    ∃ o : Roster, o.Sound ∧ o.due = [] ∧ a ∈ o.active ∧ a.number < o.count ∧
      tellAll {} (before ++ [.setup a]) = o ∧ o.Orderly after ∧
        ∀ b, .setup b ∈ before ∨ .teardown b ∈ before → b.number < a.number := by
  obtain ⟨hbefore, ⟨hdue, hnumber⟩, hafter⟩ := orderly_append.1 h
  have hs := sound_empty.tellAll hbefore
  refine ⟨(tellAll {} before).tell (.setup a), hs.tell ⟨hdue, hnumber⟩, hdue, by simp [tell], ?_,
    by simp,
    hafter, fun b hb => ?_⟩
  · rw [hnumber]
    exact Nat.lt_succ_self _
  · rw [hnumber]
    exact (lt_of_mem sound_empty hbefore).2 hb

/-- When the boundary comes for an activation, it is due and no longer active. -/
theorem ending_of_boundary (hs : o.Sound) (ha : a ∈ o.active) :
    a ∈ o.ending a.duration ∧
      ∀ b ∈ (o.tell (.boundary a.duration)).active, b.number ≠ a.number := by
  refine ⟨List.mem_filter.2 ⟨ha, by simp⟩, fun b hb hnumber => ?_⟩
  obtain ⟨hb, hduration⟩ := List.mem_filter.1 hb
  rw [eq_of_number hs.active ha hb hnumber] at hduration
  simp at hduration

end Roster

/-- What annals tell of an activation, when its setup comes after some of them and before others. -/
structure Activation.Lifetime (a : Activation) (before after : List Happening) : Prop where
  /-- Activations that were set up before have smaller numbers. -/
  older : ∀ b, .setup b ∈ before → b.number < a.number
  /-- Activations that are set up later have greater numbers. -/
  younger : ∀ b, .setup b ∈ after → a.number < b.number
  /-- It is active, and listed once, until a boundary of its duration comes. -/
  active : ∀ mid later, after = mid ++ later → .boundary a.duration ∉ mid →
    (Roster.tellAll {} (before ++ .setup a :: mid)).active.filter
    (fun b => b.number = a.number) = [a]
  /-- From then on it is not. -/
  gone : ∀ mid later, after = mid ++ later → .boundary a.duration ∈ mid →
    ∀ b ∈ (Roster.tellAll {} (before ++ .setup a :: mid)).active, b.number ≠ a.number
  /-- If no such boundary comes, it is not torn down. -/
  standing : .boundary a.duration ∉ after →
    ∀ b, b.number = a.number → .teardown b ∉ before ++ .setup a :: after
  /-- At the first such boundary it is torn down in its turn among those that the boundary ends:
  after the older and before the younger ones.  It is not torn down before or again. -/
  ended : ∀ mid later, after = mid ++ .boundary a.duration :: later → .boundary a.duration ∉ mid →
    ∃ older younger rest,
      (Roster.tellAll {} (before ++ .setup a :: mid)).ending a.duration = older ++ a :: younger ∧
      later = older.map .teardown ++ .teardown a :: (younger.map .teardown ++ rest) ∧
      (∀ b ∈ older, b.number < a.number) ∧ (∀ b ∈ younger, a.number < b.number) ∧
      ∀ b, b.number = a.number →
        .teardown b ∉ before ++ .setup a :: mid ∧ .teardown b ∉ rest

namespace Roster

variable {before after : List Happening} {a : Activation}

/-- In orderly annals, at the end of which nobody is due, every activation has its lifetime. -/
theorem Orderly.lifetime (h : Orderly {} (before ++ .setup a :: after))
    (hdue : (tellAll {} (before ++ .setup a :: after)).due = []) : a.Lifetime before after := by
  obtain ⟨o, hs, -, ha, hn, ho, hafter, hbefore⟩ := exists_of_setup h
  have htold (log : List Happening) : tellAll {} (before ++ .setup a :: log) = o.tellAll log := by
    rw [← ho]
    simp
  -- Before a boundary of its duration, nobody of that number is torn down.
  have hnever {log : List Happening} (hlog : o.Orderly log) (hopen : .boundary a.duration ∉ log)
      (b : Activation) (hb : b.number = a.number) : .teardown b ∉ before ++ .setup a :: log := by
    intro hmem
    rcases List.mem_append.1 hmem with hmem | hmem
    · exact absurd hb (Nat.ne_of_lt (hbefore b (.inr hmem)))
    · rcases List.mem_cons.1 hmem with heq | hmem
      · cases heq
      · exact (active_of_open hs hlog ha hopen).2 b hb hmem
  constructor
  · intro b hb
    exact hbefore b (.inl hb)
  · intro b hb
    exact Nat.lt_of_lt_of_le hn ((lt_of_mem hs hafter).1 hb)
  · rintro mid later rfl hopen
    have hmid := (orderly_append.1 hafter).1
    rw [htold]
    exact filter_number (hs.tellAll hmid).active (active_of_open hs hmid ha hopen).1
  · rintro mid later rfl hcome
    obtain ⟨first, rest, rfl, hfirst⟩ := List.eq_append_cons_of_mem hcome
    have hmid := (orderly_append.1 hafter).1
    obtain ⟨hfirstOrderly, -, hrest⟩ := orderly_append.1 hmid
    have hactive := (active_of_open hs hfirstOrderly ha hfirst).1
    have hcount := Nat.lt_of_lt_of_le hn (count_le_tellAll first o)
    rw [htold, tellAll_append, tellAll_cons]
    exact hrest.absent hcount (ending_of_boundary (hs.tellAll hfirstOrderly) hactive).2
  · intro hopen
    exact hnever hafter hopen
  · rintro mid later rfl hopen
    obtain ⟨hmid, -, hlater⟩ := orderly_append.1 hafter
    rw [htold, tellAll_append, tellAll_cons] at hdue
    have hsmid := hs.tellAll hmid
    have hactive := (active_of_open hs hmid ha hopen).1
    obtain ⟨hending, habsent⟩ := ending_of_boundary hsmid hactive
    obtain ⟨older, younger, hsplit⟩ := List.append_of_mem hending
    have hpresent : ((o.tellAll mid).tell (.boundary a.duration)).due = older ++ a :: younger :=
      hsplit
    have hordered : ((o.tellAll mid).ending a.duration).Pairwise (fun a b => a.number < b.number) :=
      hsmid.active.filter _
    rw [hsplit] at hordered
    obtain ⟨holder, hyounger⟩ := lt_of_pairwise hordered
    obtain ⟨rest, hrest⟩ := exists_of_due hlater hdue
    -- After those teardowns, there is nobody of that number left.
    have hleft := (tellAll_due _ (o := (o.tellAll mid).tell (.boundary a.duration)) rfl).2
    rw [hrest] at hlater
    have hrestOrderly := (orderly_append.1 hlater).2
    rw [hleft] at hrestOrderly
    have hcount := Nat.lt_of_lt_of_le hn (count_le_tellAll mid o)
    rw [hpresent] at hrest
    refine ⟨older, younger, rest, by rw [htold]; exact hsplit, by simpa using hrest, holder,
      hyounger,
      fun b hb => ⟨hnever hmid hopen b hb, ?_⟩⟩
    exact hrestOrderly.not_teardown hcount habsent (by simp) b hb

end Roster

end Tabletop
