import Tabletop.Proofs.Paired.Basic

/-!
# Computations under a budget that ask

A computation that stops for a selection does so at one of its operations.  With a budget that ends
there it is asked the same question, and an answer has nothing left to go on with.  So budgets tell
apart what becomes of an answer itself from what becomes of the computation later on.

A computation is taken together with what it comes to under smaller budgets, and with a second one
that has an answer more.  `Inquiry.Replies` says how these belong together; `Inquiry.Replies.bind`
puts it together step by step.

Main statements: `Inquiry.StopsAt.unique` and `Inquiry.Replies.bind`.
-/

namespace Tabletop

/-- How computations with errors of a kind ask, and what one answer is to their questions. -/
structure Inquiry (ε : Type) where
  /-- An error is an open question. -/
  Open : ε → Prop
  /-- The answer fits a question. -/
  Fits : ε → Prop
  /-- The answer is for a question, but does not fit it. -/
  Misfits : ε → Prop
  /-- A second error refuses the answer to the question that the first one is. -/
  Refuses : ε → ε → Prop
  /-- So many operations are not enough. -/
  Exhausts : Nat → ε → Prop
  not_exhausts : ∀ {e n}, Open e → ¬Exhausts n e

namespace Inquiry

variable {ε α β : Type} (I : Inquiry ε)

/-- All of so many operations are spent: there is a result, or one operation more is needed. -/
def Spent (n : Nat) (after : α → Nat) : Except ε α → Prop
  | .ok x => after x = n
  | .error e => I.Exhausts n e

/-- With so many operations a computation stops with an error, and with fewer they are not
enough. -/
structure StopsAt (before : Nat) (a : UInt32 → Except ε α) (n : UInt32) (e : ε) : Prop where
  eq : a n = .error e
  short : ∀ k : UInt32, before ≤ k.toNat → k.toNat < n.toNat → ∃ e', a k = .error e' ∧
    I.Exhausts k.toNat e'

/-- What becomes of a question, with just the operations that lead to it, once there is an
answer. -/
structure Replied (n : Nat) (after : α → Nat) (e : ε) (a' : Except ε α) : Prop where
  fits : I.Fits e → I.Spent n after a'
  misfits : I.Misfits e → ∃ e', a' = .error e' ∧ I.Refuses e e'

/-- Two computations under budgets up to one, the second with an answer more.  The first comes to
the same under every budget that is enough for it, and what it comes to the second comes to as
well. -/
structure Replies (top : UInt32) (before : Nat) (after : α → Nat) (R : α → α → Prop)
    (a a' : UInt32 → Except ε α) : Prop where
  le : ∀ {n x}, n ≤ top → a n = .ok x → before ≤ after x
  affords : ∀ {x}, a top = .ok x → ∀ n ≤ top, after x ≤ n.toNat → a n = .ok x
  exhausts : ∀ {x}, a top = .ok x → ∀ n ≤ top, before ≤ n.toNat → n.toNat < after x →
    ∃ e, a n = .error e ∧ I.Exhausts n.toNat e
  follows : ∀ {n x}, n ≤ top → a n = .ok x → ∃ x', a' n = .ok x' ∧ R x x'
  asks : ∀ {e}, a top = .error e → I.Open e → ∃ n ≤ top, before ≤ n.toNat ∧
    I.StopsAt before a n e ∧ I.Replied n.toNat after e (a' n)

end Inquiry

namespace Inquiry

variable {ε α β : Type} {I : Inquiry ε} {n : Nat}

/-- A question comes up at one operation only. -/
theorem StopsAt.unique {before : Nat} {a : UInt32 → Except ε α} {n k : UInt32} {e e' : ε}
    (hn : I.StopsAt before a n e) (hk : I.StopsAt before a k e') (he : I.Open e) (he' : I.Open e')
    (hbn : before ≤ n.toNat) (hbk : before ≤ k.toNat) : n = k := by
  rcases Nat.lt_trichotomy n.toNat k.toNat with hlt | heq | hlt
  · obtain ⟨e₁, h₁, hout⟩ := hk.short n hbn hlt
    cases hn.eq.symm.trans h₁
    exact absurd hout (I.not_exhausts he)
  · exact UInt32.toNat_inj.1 heq
  · obtain ⟨e₁, h₁, hout⟩ := hn.short k hbk hlt
    cases hk.eq.symm.trans h₁
    exact absurd hout (I.not_exhausts he')

namespace Spent

variable {mid : α → Nat} {after : β → Nat}

/-- What comes after all operations are spent. -/
theorem bind {a : Except ε α} {f : α → Except ε β} (ha : I.Spent n mid a)
    (hf : ∀ x, mid x = n → I.Spent n after (f x)) : I.Spent n after (a >>= f) := by
  cases a with
  | error e => exact ha
  | ok x => exact hf x ha

/-- A fold whose steps have nothing left to spend. -/
theorem foldlM {γ : Type} {f : α → γ → Except ε α} {counter : α → Nat}
    (hf : ∀ c x, counter x = n → I.Spent n counter (f x c)) :
    ∀ (l : List γ) {x : α}, counter x = n → I.Spent n counter (l.foldlM f x)
  | [], _, hx => hx
  | c :: l, x, hx => by
    rw [List.foldlM_cons]
    exact (hf c x hx).bind (fun _ hy => foldlM hf l hy)

/-- Reporting errors under other names changes nothing about what is spent. -/
theorem mapError {δ : Type} {J : Inquiry δ} {f : ε → δ} {a : Except ε α} (h : I.Spent n mid a)
    (hf : ∀ n e, I.Exhausts n e → J.Exhausts n (f e)) : J.Spent n mid (a.mapError f) := by
  cases a with
  | error e => exact hf n e h
  | ok x => exact h

end Spent

namespace Replies

variable {top : UInt32} {before : Nat} {after : β → Nat} {mid : α → Nat} {R : α → α → Prop}
  {Q : β → β → Prop}

/-- What spends nothing. -/
theorem still {a a' : Except ε α} (hafter : ∀ x, a = .ok x → mid x = before)
    (hfollows : ∀ x, a = .ok x → ∃ x', a' = .ok x' ∧ R x x')
    (hasks : ∀ e, a = .error e → I.Open e → before ≤ top.toNat ∧ I.Replied before mid e a') :
    I.Replies top before mid R (fun _ => a) (fun _ => a') where
  le _ hx := Nat.le_of_eq (hafter _ hx).symm
  affords hx _ _ _ := hx
  exhausts hx n _ hbn hn := by
    rw [hafter _ hx] at hn
    exact absurd hbn (Nat.not_le_of_gt hn)
  follows _ hx := hfollows _ hx
  asks {e} he hopen := by
    obtain ⟨hbefore, hreplied⟩ := hasks e he hopen
    have hnat : (UInt32.ofNat before).toNat = before :=
      UInt32.toNat_ofNat_of_lt' (Nat.lt_of_le_of_lt hbefore top.toNat_lt)
    refine ⟨UInt32.ofNat before, ?_, Nat.le_of_eq hnat.symm, ⟨he, fun k hbk hk => ?_⟩, ?_⟩
    · exact UInt32.le_iff_toNat_le.2 (hnat.symm ▸ hbefore)
    · rw [hnat] at hk
      exact absurd hbk (Nat.not_le_of_gt hk)
    · rw [hnat]
      exact hreplied

/-- What replies step by step replies as a whole, if nothing is asked once all operations are
spent. -/
theorem bind {a a' : UInt32 → Except ε α} {f f' : UInt32 → α → Except ε β}
    (ha : I.Replies top before mid R a a')
    (hspent : ∀ e, a top = .error e → I.Open e → ∀ n x', mid x' = n.toNat →
      I.Spent n.toNat after (f' n x'))
    (hf : ∀ n x x', n ≤ top → a n = .ok x → R x x' →
      I.Replies top (mid x) after Q (fun n => f n x) (fun n => f' n x')) :
    I.Replies top before after Q (fun n => a n >>= f n) (fun n => a' n >>= f' n) where
  le {n y} hn hy := by
    obtain ⟨x, hx, hy⟩ := bind_eq_ok hy
    obtain ⟨x', -, hR⟩ := ha.follows hn hx
    exact Nat.le_trans (ha.le hn hx) ((hf n x x' hn hx hR).le hn hy)
  affords {y} hy n hn hafter := by
    obtain ⟨x, hx, hy⟩ := bind_eq_ok hy
    obtain ⟨x', -, hR⟩ := ha.follows (UInt32.le_refl top) hx
    have hrest := hf top x x' (UInt32.le_refl top) hx hR
    have hmid : mid x ≤ after y := hrest.le (UInt32.le_refl top) hy
    exact bind_ok (ha.affords hx n hn (Nat.le_trans hmid hafter)) (hrest.affords hy n hn hafter)
  exhausts {y} hy n hn hbn hshort := by
    obtain ⟨x, hx, hy⟩ := bind_eq_ok hy
    obtain ⟨x', -, hR⟩ := ha.follows (UInt32.le_refl top) hx
    by_cases hmid : n.toNat < mid x
    · obtain ⟨e, he, hout⟩ := ha.exhausts hx n hn hbn hmid
      exact ⟨e, by rw [he]; rfl, hout⟩
    · have hmid := Nat.le_of_not_lt hmid
      obtain ⟨e, he, hout⟩ :=
        (hf top x x' (UInt32.le_refl top) hx hR).exhausts hy n hn hmid hshort
      exact ⟨e, bind_ok (ha.affords hx n hn hmid) he, hout⟩
  follows {n y} hn hy := by
    obtain ⟨x, hx, hy⟩ := bind_eq_ok hy
    obtain ⟨x', hx', hR⟩ := ha.follows hn hx
    obtain ⟨y', hy', hQ⟩ := (hf n x x' hn hx hR).follows hn hy
    exact ⟨y', bind_ok hx' hy', hQ⟩
  asks {e} he hopen := by
    rcases bind_eq_error he with he | ⟨x, hx, he⟩
    · -- The first part asks, and what comes after it has nothing left to spend.
      obtain ⟨n, hn, hbn, ⟨heq, hshort⟩, hfits, hmisfits⟩ := ha.asks he hopen
      refine ⟨n, hn, hbn, ⟨by rw [heq]; rfl, fun k hbk hk => ?_⟩, fun hfit => ?_, fun hmisfit => ?_⟩
      · obtain ⟨e', he', hout⟩ := hshort k hbk hk
        exact ⟨e', by rw [he']; rfl, hout⟩
      · exact (hfits hfit).bind (hspent e he hopen n)
      · obtain ⟨e', he', hrefuses⟩ := hmisfits hmisfit
        exact ⟨e', by rw [he']; rfl, hrefuses⟩
    · -- The second part asks; with just the operations that lead there, the first is the same.
      obtain ⟨x', -, hR⟩ := ha.follows (UInt32.le_refl top) hx
      obtain ⟨n, hn, hmid, hstops, -⟩ := (hf top x x' (UInt32.le_refl top) hx hR).asks he hopen
      have hxn := ha.affords hx n hn hmid
      obtain ⟨x₁, hx₁, hR₁⟩ := ha.follows hn hxn
      obtain ⟨n₁, -, hmid₁, hstops₁, hreplied⟩ := (hf n x x₁ hn hxn hR₁).asks he hopen
      obtain rfl := hstops.unique hstops₁ hopen hopen hmid hmid₁
      have hbefore := ha.le hn hxn
      refine ⟨n, hn, Nat.le_trans hbefore hmid, ⟨bind_ok hxn hstops.eq, fun k hbk hk => ?_⟩, ?_⟩
      · have hkn : k ≤ top := UInt32.le_trans (UInt32.le_of_lt (UInt32.lt_iff_toNat_lt.2 hk)) hn
        by_cases hkmid : k.toNat < mid x
        · obtain ⟨e', he', hout⟩ := ha.exhausts hx k hkn hbk hkmid
          exact ⟨e', by rw [he']; rfl, hout⟩
        · have hkmid := Nat.le_of_not_lt hkmid
          obtain ⟨e', he', hout⟩ := hstops.short k hkmid hk
          exact ⟨e', bind_ok (ha.affords hx k hkn hkmid) he', hout⟩
      · rw [bind_ok hx₁ rfl]
        exact hreplied

/-- Results at hand. -/
theorem pure {x x' : α} (h : mid x = before) (hR : R x x') :
    I.Replies top before mid R (fun _ => Pure.pure x) (fun _ => Pure.pure x') :=
  .still (fun _ hy => by cases hy; exact h) (fun _ hy => by cases hy; exact ⟨x', rfl, hR⟩)
    (fun _ he => by cases he)

/-- A fold whose steps reply. -/
theorem foldlM {γ : Type} (mid : α → Nat) {f f' : UInt32 → α → γ → Except ε α}
    (hf : ∀ c x, I.Replies top (mid x) mid Eq (fun n => f n x c) (fun n => f' n x c))
    (hspent : ∀ (n : UInt32) c x, mid x = n.toNat → I.Spent n.toNat mid (f' n x c)) :
    ∀ (l : List γ) (x : α),
      I.Replies top (mid x) mid Eq (fun n => l.foldlM (f n) x) (fun n => l.foldlM (f' n) x)
  | [], _ => .pure rfl rfl
  | c :: l, x => by
    simp only [List.foldlM_cons]
    refine (hf c x).bind (fun _ _ _ n _ => Spent.foldlM (hspent n) l) (fun _ y y' _ _ hy => ?_)
    obtain rfl : y = y' := hy
    exact foldlM mid hf hspent l y

/-- Reporting errors under other names changes nothing about questions and answers. -/
theorem mapError {δ : Type} {J : Inquiry δ} {f : ε → δ} {a a' : UInt32 → Except ε α}
    (h : I.Replies top before mid R a a') (hopen : ∀ e, J.Open (f e) → I.Open e)
    (hfits : ∀ e, J.Fits (f e) → I.Fits e) (hmisfits : ∀ e, J.Misfits (f e) → I.Misfits e)
    (hrefuses : ∀ e e', I.Refuses e e' → J.Refuses (f e) (f e'))
    (hexhausts : ∀ n e, I.Exhausts n e → J.Exhausts n (f e)) :
    J.Replies top before mid R (fun n => (a n).mapError f) (fun n => (a' n).mapError f) := by
  constructor
  · exact fun hn hx => h.le hn (mapError_eq_ok hx)
  · intro x hx n hn hafter
    rw [h.affords (mapError_eq_ok hx) n hn hafter]
    rfl
  · intro x hx n hn hbn hshort
    obtain ⟨e, he, hout⟩ := h.exhausts (mapError_eq_ok hx) n hn hbn hshort
    exact ⟨f e, by rw [he]; rfl, hexhausts _ e hout⟩
  · intro n x hn hx
    obtain ⟨x', hx', hR⟩ := h.follows hn (mapError_eq_ok hx)
    exact ⟨x', by rw [hx']; rfl, hR⟩
  · intro e' he' hopen'
    cases he : a top with
    | ok x =>
      rw [he] at he'
      cases he'
    | error e =>
      rw [he] at he'
      cases he'
      obtain ⟨n, hn, hbn, ⟨heq, hshort⟩, hfit, hmisfit⟩ := h.asks he (hopen e hopen')
      refine ⟨n, hn, hbn, ⟨by rw [heq]; rfl, fun k hbk hk => ?_⟩, fun hf => ?_, fun hf => ?_⟩
      · obtain ⟨e₁, he₁, hout⟩ := hshort k hbk hk
        exact ⟨f e₁, by rw [he₁]; rfl, hexhausts _ e₁ hout⟩
      · exact (hfit (hfits e hf)).mapError hexhausts
      · obtain ⟨e₁, he₁, hrefused⟩ := hmisfit (hmisfits e hf)
        exact ⟨f e₁, by rw [he₁]; rfl, hrefuses e e₁ hrefused⟩

end Replies

end Inquiry

end Tabletop
