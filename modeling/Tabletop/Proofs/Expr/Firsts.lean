import Mathlib.Data.List.Induction
import Tabletop.Proofs.Expr.Query

/-!
# What a query finds, once each

A query collects items, perhaps of several kinds one after the other, and its result keeps those of
them whose identity has not come up before.  This is done once, for the whole sequence.  It might as
well be done for the parts of a query first: an item that its own part drops would have been dropped
anyway, and one that its part keeps is looked at again.  So it does not matter how parts are put
together.

Main statement: `Query.finds_firsts`.
-/

namespace Tabletop

universe u v

/-! ## First occurrences -/

section firsts

variable {α : Type u} {κ : Type v} [DecidableEq κ] {key? : α → Option κ}

/-- Whether an item has the key of one before it.  An item without a key comes up anew each time. -/
def comesAgain (key? : α → Option κ) (before : List α) (x : α) : Bool :=
  (key? x).isSome && before.any (fun y => key? y = key? x)

/-- The items whose key none before them has, in order. -/
def firstsBy (key? : α → Option κ) (xs : List α) : List α :=
  (xs.zipIdx.filter (fun e => !comesAgain key? (xs.take e.2) e.1)).map Prod.fst

/-- Nothing comes again after nothing. -/
theorem comesAgain_nil (x : α) : comesAgain key? [] x = false := Bool.and_false _

/-- An item comes again after two lists if it does after one of them. -/
theorem comesAgain_append (xs ys : List α) (x : α) :
    comesAgain key? (xs ++ ys) x = (comesAgain key? xs x || comesAgain key? ys x) := by
  simp only [comesAgain, List.any_append, Bool.and_or_distrib_left]

/-- An item comes again if it has a key and one before it has the same. -/
theorem comesAgain_eq_true_iff {before : List α} {x : α} :
    comesAgain key? before x = true ↔
      ∃ key, key? x = some key ∧ ∃ y ∈ before, key? y = some key := by
  cases hx : key? x <;> simp [comesAgain, hx]

/-- An item more at the end is kept or dropped, and changes nothing about those before it. -/
theorem firstsBy_concat (xs : List α) (x : α) :
    firstsBy key? (xs ++ [x]) =
      firstsBy key? xs ++ if comesAgain key? xs x then [] else [x] := by
  have hbefore : ∀ e ∈ xs.zipIdx,
      (!comesAgain key? ((xs ++ [x]).take e.2) e.1) = !comesAgain key? (xs.take e.2) e.1 := by
    intro e he
    have hindex : e.2 < xs.length := List.snd_lt_of_mem_zipIdx he
    rw [List.take_append_of_le_length (Nat.le_of_lt hindex)]
  rw [firstsBy, List.zipIdx_append, List.filter_append, List.map_append, List.filter_congr hbefore]
  refine congrArg (firstsBy key? xs ++ ·) ?_
  cases hagain : comesAgain key? xs x <;> simp [hagain]

/-- The first items are left in the order in which they were. -/
theorem firstsBy_sublist (xs : List α) : (firstsBy key? xs).Sublist xs := by
  have hsub := (List.filter_sublist (l := xs.zipIdx)
    (p := fun e => !comesAgain key? (xs.take e.2) e.1)).map Prod.fst
  rwa [List.zipIdx_map_fst] at hsub

/-- An item that comes again hides nothing that is not hidden anyway. -/
theorem comesAgain_concat_of_again {xs : List α} {x : α} (hx : comesAgain key? xs x = true)
    (y : α) :
    comesAgain key? (xs ++ [x]) y = comesAgain key? xs y := by
  rw [comesAgain_append, Bool.or_eq_left_iff_imp]
  intro hy
  obtain ⟨key, hkey, z, hz, hzkey⟩ := comesAgain_eq_true_iff.1 hy
  rw [List.mem_singleton.1 hz] at hzkey
  obtain ⟨key', hkey', w, hw, hwkey⟩ := comesAgain_eq_true_iff.1 hx
  have hsame : some key = some key' := hzkey.symm.trans hkey'
  exact comesAgain_eq_true_iff.2 ⟨key, hkey, w, hw, hwkey.trans hsame.symm⟩

/-- Whether some item has a key is seen from the first ones. -/
theorem any_firstsBy (xs : List α) (k : Option κ) :
    (firstsBy key? xs).any (fun y => key? y = k) = xs.any (fun y => key? y = k) := by
  induction xs using List.reverseRecOn with
  | nil => rfl
  | append_singleton xs x ih =>
    rw [firstsBy_concat, List.any_append, List.any_append, ih]
    cases hagain : comesAgain key? xs x with
    | false => rfl
    | true =>
      -- The item that is dropped has the key of one that is kept.
      obtain ⟨key, hkey, w, hw, hwkey⟩ := comesAgain_eq_true_iff.1 hagain
      rw [if_pos rfl, List.any_nil, Bool.or_false, eq_comm, Bool.or_eq_left_iff_imp]
      intro hx
      have hxk : key? x = k := by simpa using hx
      exact List.any_eq_true.2 ⟨w, hw, decide_eq_true (hwkey.trans (hkey.symm.trans hxk))⟩

/-- An item comes again after the first items exactly if it does after all of them. -/
theorem comesAgain_firstsBy (xs : List α) (x : α) :
    comesAgain key? (firstsBy key? xs) x = comesAgain key? xs x := by
  rw [comesAgain, any_firstsBy, comesAgain]

/-- What comes later is looked at twice: among its own, and against what came earlier. -/
theorem firstsBy_append (xs ys : List α) :
    firstsBy key? (xs ++ ys) =
      firstsBy key? xs ++ (firstsBy key? ys).filter (fun y => !comesAgain key? xs y) := by
  induction ys using List.reverseRecOn with
  | nil => simp [firstsBy]
  | append_singleton ys y ih =>
    rw [← List.append_assoc, firstsBy_concat, ih, firstsBy_concat, comesAgain_append,
      List.filter_append, List.append_assoc]
    congr 2
    cases hys : comesAgain key? ys y <;> cases hxs : comesAgain key? xs y <;> simp [hxs]

/-- The first item is kept, and hides those after it that have its key. -/
theorem firstsBy_cons (x : α) (xs : List α) :
    firstsBy key? (x :: xs) =
      x :: (firstsBy key? xs).filter (fun y => !comesAgain key? [x] y) := by
  have hone : firstsBy key? [x] = [x] := by simp [firstsBy, comesAgain_nil]
  rw [← List.singleton_append, firstsBy_append, hone, List.singleton_append]

/-- Among items that all come for the first time, all are first. -/
theorem firstsBy_firstsBy (xs : List α) : firstsBy key? (firstsBy key? xs) = firstsBy key? xs := by
  induction xs using List.reverseRecOn with
  | nil => rfl
  | append_singleton xs x ih =>
    rw [firstsBy_concat]
    cases hx : comesAgain key? xs x with
    | true => rw [if_pos rfl, List.append_nil, ih]
    | false => rw [if_neg Bool.false_ne_true, firstsBy_concat, ih, comesAgain_firstsBy, hx]; rfl

/-- Items that are dropped anyway may be dropped from the first part before. -/
theorem firstsBy_firstsBy_append (xs ys : List α) :
    firstsBy key? (firstsBy key? xs ++ ys) = firstsBy key? (xs ++ ys) := by
  simp only [firstsBy_append, firstsBy_firstsBy, comesAgain_firstsBy]

/-- Items that are dropped anyway may be dropped from the last part before. -/
theorem firstsBy_append_firstsBy (xs ys : List α) :
    firstsBy key? (xs ++ firstsBy key? ys) = firstsBy key? (xs ++ ys) := by
  simp only [firstsBy_append, firstsBy_firstsBy]

/-- The firsts stay the firsts when items are replaced and the keys with them. -/
theorem firstsBy_map {α' : Type u} {κ' : Type v} [DecidableEq κ'] {key'? : α' → Option κ'}
    {f : α → α'} {g : κ → κ'} (hg : Function.Injective g)
    (hkey : ∀ x, key'? (f x) = (key? x).map g) (xs : List α) :
    firstsBy key'? (xs.map f) = (firstsBy key? xs).map f := by
  have hagain : ∀ ys x, comesAgain key'? (ys.map f) (f x) = comesAgain key? ys x := by
    intro ys x
    simp [comesAgain, hkey, (Option.map_injective hg).eq_iff, Function.comp_def]
  induction xs using List.reverseRecOn with
  | nil => rfl
  | append_singleton xs x ih =>
    rw [List.map_append, List.map_singleton, firstsBy_concat, firstsBy_concat, ih, hagain,
      List.map_append]
    cases comesAgain key? xs x <;> rfl

/-- Of the items that have a key, no two that are kept have the same. -/
theorem pairwise_firstsBy {xs : List α} (hkey : ∀ x ∈ xs, (key? x).isSome = true) :
    (firstsBy key? xs).Pairwise (fun x y => key? x ≠ key? y) := by
  induction xs with
  | nil => exact .nil
  | cons x xs ih =>
    rw [firstsBy_cons]
    refine .cons (fun y hy hsame => ?_)
      ((ih fun y hy => hkey y (List.mem_cons_of_mem _ hy)).filter _)
    obtain ⟨key, hx⟩ := Option.isSome_iff_exists.1 (hkey x List.mem_cons_self)
    have hagain : comesAgain key? [x] y = true :=
      comesAgain_eq_true_iff.2 ⟨key, hsame ▸ hx, x, List.mem_singleton_self x, hx⟩
    simp [hagain] at hy

/-- Items that all have different keys are all kept. -/
theorem firstsBy_eq_self {xs : List α} (h : xs.Pairwise (fun x y => key? x ≠ key? y)) :
    firstsBy key? xs = xs := by
  induction h with
  | nil => rfl
  | cons hx hxs ih =>
    rw [firstsBy_cons, ih, List.filter_eq_self.2]
    intro y hy
    simp [comesAgain, hx y hy]

end firsts

/-! ## Results of queries -/

namespace Value

/-- After some values whose identities have been noted, those first values are found that come up
anew. -/
theorem distinctFrom_eq (xs : List Value) : ∀ {before : List Value} {seen : List Scalar},
    (∀ key, key ∈ seen ↔ ∃ y ∈ before, y.identity? = some key) →
      distinctFrom seen xs =
        (firstsBy identity? xs).filter (fun x => !comesAgain identity? before x) := by
  induction xs with
  | nil => exact fun _ => rfl
  | cons x xs ih =>
    intro before seen hseen
    have hlater : ((firstsBy identity? xs).filter (fun y => !comesAgain identity? [x] y)).filter
          (fun y => !comesAgain identity? before y) =
        (firstsBy identity? xs).filter (fun y => !comesAgain identity? (before ++ [x]) y) := by
      rw [List.filter_filter]
      refine List.filter_congr fun y _ => ?_
      rw [comesAgain_append, Bool.not_or]
    rw [distinctFrom, firstsBy_cons, List.filter_cons, hlater]
    cases hx : x.identity? with
    | none =>
      have hnew : comesAgain identity? before x = false := by simp [comesAgain, hx]
      rw [hnew, if_pos (by rfl), ← @ih (before ++ [x]) seen]
      simp [hseen, hx]
    | some key =>
      cases hagain : comesAgain identity? before x with
      | true =>
        obtain ⟨key', hkey', hbefore⟩ := comesAgain_eq_true_iff.1 hagain
        obtain rfl : key = key' := Option.some.inj (hx.symm.trans hkey')
        have hknown : seen.contains key = true := List.contains_iff_mem.2 ((hseen key).2 hbefore)
        simp only [hknown, comesAgain_concat_of_again hagain]
        exact ih hseen
      | false =>
        have hunknown : ¬seen.contains key = true := fun hknown => by
          have hbefore := (hseen key).1 (List.contains_iff_mem.1 hknown)
          rw [comesAgain_eq_true_iff.2 ⟨key, hx, hbefore⟩] at hagain
          cases hagain
        dsimp only
        rw [if_neg hunknown, if_pos (by rfl), ← @ih (before ++ [x]) (key :: seen)]
        intro other
        simp [hseen, hx, or_comm, eq_comm]

/-- The distinct values are the first ones by identity. -/
theorem distinct_eq_firstsBy (xs : List Value) : distinct xs = firstsBy identity? xs := by
  have hnone : ∀ key, key ∈ ([] : List Scalar) ↔
      ∃ y ∈ ([] : List Value), y.identity? = some key := by
    simp
  exact (distinctFrom_eq xs hnone).trans (List.filter_eq_self.2 fun x _ => by simp [comesAgain_nil])

/-- An array has no identity. -/
theorem ne_array_of_identity? {x : Value} (h : x.identity?.isSome = true) (ys : List Scalar) :
    x ≠ .array ys := by
  rintro rfl
  cases h

/-- A value that has an identity is the same as those that have the same. -/
theorem same_eq {y : Value} (hy : y.identity?.isSome = true) (x : Value) :
    y.same x = decide (y.identity? = x.identity?) := by
  obtain ⟨key, hkey⟩ := Option.isSome_iff_exists.1 hy
  cases hx : x.identity? with
  | none =>
    have hne : y ≠ x := by
      rintro rfl
      cases hx.symm.trans hkey
    simp [same, hkey, hx, hne]
  | some other => simp [same, hkey, hx, beq_eq_decide]

/-- Of several values that each have an identity, a value is in if it has that of one. -/
theorem isIn_eq {xs : List Value} (hxs : Identified xs) (x : Value) :
    x.isIn xs = xs.any (fun y => y.identity? = x.identity?) := by
  rw [isIn, Bool.eq_iff_iff, List.any_eq_true, List.any_eq_true]
  exact exists_congr fun y => and_congr_right fun hy => by rw [same_eq (hxs y hy)]

end Value

namespace Query

section

variable (v : View)

/-- A query finds the items that it collects, each when it first comes up. -/
theorem eval_eq_firstsBy (q : Query) :
    q.eval v = do return firstsBy Value.identity? (← q.collect v) := by
  simp only [eval, Value.distinct_eq_firstsBy]

section

variable {v} {q : Query} {xs : List Value}

/-- Every member of a query's result has an identity. -/
theorem eval_identified (h : q.eval v = .ok xs) : Value.Identified xs := by
  obtain ⟨all, hall, h⟩ := bind_eq_ok ((eval_eq_firstsBy v q).symm.trans h)
  cases h
  exact (q.collect_identified hall).sublist (firstsBy_sublist all)

/-- No two members of a query's result have the same identity. -/
theorem pairwise_eval (h : q.eval v = .ok xs) :
    xs.Pairwise (fun x y => x.identity? ≠ y.identity?) := by
  obtain ⟨all, hall, h⟩ := bind_eq_ok ((eval_eq_firstsBy v q).symm.trans h)
  cases h
  exact pairwise_firstsBy (q.collect_identified hall)

/-- What a query finds has different identities. -/
theorem eval_nodup (h : q.eval v = .ok xs) : (xs.filterMap Value.identity?).Nodup := by
  refine List.pairwise_filterMap.2 ((pairwise_eval h).imp fun hne key hx key' hy hsame => hne ?_)
  rw [hx, hy, hsame]

end

/-- Queries that stand one after the other collect one after the other. -/
theorem collectAll_append (ps qs : List Query) :
    collectAll (ps ++ qs) v = do
      let xs ← collectAll ps v
      let ys ← collectAll qs v
      return xs ++ ys := by
  induction ps with
  | nil =>
    rw [List.nil_append, collectAll]
    exact (bind_pure (collectAll qs v)).symm
  | cons p ps ih =>
    simp only [List.cons_append, collectAll, ih, bind_assoc, pure_bind, List.append_assoc]

/-- A query made of several may be replaced by them. -/
theorem collectAll_splice (before inner after : List Query) :
    collectAll (before ++ concat inner :: after) v = collectAll (before ++ inner ++ after) v := by
  simp only [List.append_assoc, collectAll_append, collectAll, collect]

/-- It does not matter whether parts are freed of repetitions before they are put together. -/
theorem collectAll_firstsBy (parts : List Query) :
    (do return firstsBy Value.identity? (← parts.mapM (fun p => p.eval v)).flatten) =
      (do return firstsBy Value.identity? (← collectAll parts v) : Result (List Value)) := by
  induction parts with
  | nil => rfl
  | cons p parts ih =>
    rw [List.mapM_cons, collectAll, eval_eq_firstsBy]
    cases p.collect v with
    | error fault => rfl
    | ok xs =>
      have hput := congrArg
        (fun found => found >>= fun ys => return firstsBy Value.identity? (xs ++ ys)) ih
      simp only [bind_assoc, pure_bind, firstsBy_append_firstsBy] at hput
      change (pure (firstsBy Value.identity? xs) >>= _) >>= _ = (pure xs >>= _) >>= _
      simp only [bind_assoc, pure_bind, List.flatten_cons, firstsBy_firstsBy_append]
      exact hput

end

/-- **What a query finds.**  The members of a result are the first ones, by identity, of all that is
collected: none of them is an array, and no two have the same identity.  A query made of several
finds the first ones of their results put together, and one of its parts that is made of several
itself may be replaced by them.  A value is in a query exactly if one of the collected items has its
identity.

The equations between outcomes say that both sides fail alike, too. -/
theorem finds_firsts (v : View) :
    (∀ q : Query, q.eval v = (do return firstsBy Value.identity? (← q.collect v))) ∧
    (∀ (q : Query) (xs : List Value), q.eval v = .ok xs →
      (∀ x ∈ xs, ∀ ys, x ≠ .array ys) ∧ xs.Pairwise (fun x y => x.identity? ≠ y.identity?)) ∧
    (∀ parts, (concat parts).eval v =
      (do return firstsBy Value.identity? (← parts.mapM (fun p => p.eval v)).flatten)) ∧
    (∀ before inner after, (concat (before ++ concat inner :: after)).eval v =
      (concat (before ++ inner ++ after)).eval v) ∧
    (∀ item set, (Cond.mem item set).eval v = do
      let x ← item.eval v
      let all ← set.collect v
      return all.any (fun y => y.identity? = x.identity?)) := by
  refine ⟨eval_eq_firstsBy v, fun q xs h => ?_, fun parts => ?_, fun before inner after => ?_,
    fun item set => ?_⟩
  · exact ⟨fun x hx => Value.ne_array_of_identity? (eval_identified h x hx), pairwise_eval h⟩
  · rw [eval_eq_firstsBy, collect, collectAll_firstsBy]
  · rw [eval, eval, collect, collect, collectAll_splice]
  · rw [Cond.eval]
    cases item.eval v with
    | error fault => rfl
    | ok x =>
      cases hall : set.collect v with
      | error fault => rfl
      | ok all =>
        have hisIn : x.isIn (Value.distinct all) =
            all.any (fun y => y.identity? = x.identity?) := by
          rw [Value.distinct_eq_firstsBy, Value.isIn_eq, any_firstsBy]
          exact (set.collect_identified hall).sublist (firstsBy_sublist all)
        exact congrArg Except.ok hisIn

end Query

/-- A camp in which a scout has been pointed out, and been picked again by its id. -/
def View.camp : View where
  game := default
  state := default
  bindings := .ofList [("scout", .token "scout-0"), ("picks", .array [.str "scout-0", .int 7])]
  actor := default

/-- The scout, all that has been picked, a ford and two numbers. -/
def Query.camp : Query :=
  .concat [.binding "scout", .concat [.binding "picks", .enums ["ford"]], .range 6 7]

/-- The scout is found once, and so is the number that was picked. -/
theorem Query.finds_firsts_camp :
    let found := [.token "scout-0", .int 7, .str "ford", .int 6]
    Query.camp.eval .camp = .ok found ∧ (∀ x ∈ found, ∀ ys, x ≠ .array ys) ∧
      found.Pairwise (fun x y => x.identity? ≠ y.identity?) :=
  have hfound : Query.camp.eval .camp = .ok [.token "scout-0", .int 7, .str "ford", .int 6] := rfl
  ⟨hfound, (Query.finds_firsts .camp).2.1 .camp _ hfound⟩

end Tabletop
