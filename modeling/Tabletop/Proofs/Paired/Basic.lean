import Mathlib.Order.Basic
import Tabletop.Play.Plan

/-!
# Two computations side by side

Many facts about a game compare two runs of the same rules: with a few params more, with another
fingerprint, with a trace or without one, under a larger budget.  `Paired` says how a second
computation follows a first: a success is followed by a success with a related result, and what the
first one's error tells about the second is laid down once for each kind of error.

The point of it is `Paired.bind`: what is paired step by step is paired as a whole.

Main statements: `Paired.bind`, and `Stays.bind` for computations without a fault.
-/

namespace Tabletop

/-- What the error of one computation tells about another that follows it.  Whatever it tells
survives when the other computation goes on. -/
structure ErrorSense (ε : Type) where
  /-- What an error tells about the outcome of the other computation. -/
  tells : {β : Type} → ε → Except ε β → Prop
  /-- Going on afterwards changes nothing about it. -/
  tells_bind : ∀ {β γ : Type} {e : ε} {b : Except ε β} (f : β → Except ε γ),
    tells e b → tells e (b >>= f)
  /-- A computation with the same error agrees with it. -/
  tells_error : ∀ {β : Type} (e : ε), tells e (.error e : Except ε β)

/-- An error tells nothing. -/
def ErrorSense.silent (ε : Type) : ErrorSense ε where
  tells _ _ := True
  tells_bind _ _ := trivial
  tells_error _ := trivial

variable {ε α α' β β' : Type}

/-- What comes after another computation succeeds only if that one did. -/
theorem bind_eq_ok {a : Except ε α} {f : α → Except ε β} {y : β} (h : a >>= f = .ok y) :
    ∃ x, a = .ok x ∧ f x = .ok y := by
  cases a with
  | error e => cases h
  | ok x => exact ⟨x, rfl, h⟩

/-- What comes after a success goes on with its result. -/
theorem bind_ok {a : Except ε α} {f : α → Except ε β} {x : α} {y : Except ε β} (ha : a = .ok x)
    (hf : f x = y) : a >>= f = y := by
  rw [ha]
  exact hf

/-- What fails as a whole fails at first or later on. -/
theorem bind_eq_error {a : Except ε α} {f : α → Except ε β} {e : ε} (h : a >>= f = .error e) :
    a = .error e ∨ ∃ x, a = .ok x ∧ f x = .error e := by
  cases a with
  | error e' =>
    cases h
    exact .inl rfl
  | ok x => exact .inr ⟨x, rfl, h⟩

/-- What succeeds with its errors under other names succeeds without. -/
theorem mapError_eq_ok {δ : Type} {a : Except ε α} {f : ε → δ} {x : α} (h : a.mapError f = .ok x) :
    a = .ok x := by
  cases a with
  | error e => cases h
  | ok y =>
    cases h
    rfl

/-- A computation that succeeds comes to something. -/
theorem exists_ok_of_isOk {a : Except ε α} (h : a.isOk = true) : ∃ x, a = .ok x := by
  cases a with
  | error e => cases h
  | ok x => exact ⟨x, rfl⟩

/-- What succeeds comes to what it yields. -/
theorem eq_ok_getD [Inhabited α] {a : Except ε α} (h : a.isOk = true) :
    a = .ok (a.toOption.getD default) := by
  obtain ⟨x, rfl⟩ := exists_ok_of_isOk h
  rfl

/-- A computation whose success has been observed comes to what was observed. -/
theorem eq_ok_of_toOption {a : Except ε α} {x : α} (h : a.toOption = some x) : a = .ok x := by
  cases a with
  | error e => cases h
  | ok y => exact congrArg Except.ok (Option.some.inj h)

/-- What an error about a missing value tells about another computation, which may have the value:
without it the error is the same, and with it a success says that the value will do. -/
structure Missing (e : ε) (x? : Option Value) (does : Value → Prop) (b : Except ε β) : Prop where
  none : x? = none → b = .error e
  some : ∀ x, x? = some x → ∀ y, b = .ok y → does x

namespace Missing

variable {e : ε} {x? : Option Value} {does : Value → Prop}

/-- What an error tells about a missing value still holds when the other computation goes on. -/
theorem bind {b : Except ε β} (f : β → Except ε β') (h : Missing e x? does b) :
    Missing e x? does (b >>= f) where
  none hnone := by
    rw [h.none hnone]
    rfl
  some x hx y hy := by
    obtain ⟨z, hz, -⟩ := bind_eq_ok hy
    exact h.some x hx z hz

/-- A computation that ends with the same error tells what a missing value tells. -/
theorem error (e : ε) : Missing e x? does (.error e : Except ε β) where
  none _ := rfl
  some _ _ _ hy := by cases hy

end Missing

/-- A second computation follows a first: success with success and related results; what an error
tells about the second is up to the sense of errors. -/
def Paired (E : ErrorSense ε) (R : α → α' → Prop) : Except ε α → Except ε α' → Prop
  | .ok x, b => ∃ y, b = .ok y ∧ R x y
  | .error e, b => E.tells e b

namespace Paired

variable {E : ErrorSense ε} {R : α → α' → Prop} {Q : β → β' → Prop}

/-- Successes with related results are paired. -/
theorem ok {x : α} {y : α'} (h : R x y) : Paired E R (.ok x) (.ok y) := ⟨y, rfl, h⟩

/-- Values that are related are paired. -/
theorem pure {x : α} {y : α'} (h : R x y) : Paired E R (Pure.pure x) (Pure.pure y) := ⟨y, rfl, h⟩

/-- An error is paired with whatever it tells about. -/
theorem error {e : ε} {b : Except ε α'} (h : E.tells e b) : Paired E R (.error e) b := h

/-- A computation is paired with itself. -/
theorem refl (a : Except ε α) : Paired E Eq a a := by
  cases a with
  | error e => exact E.tells_error e
  | ok x => exact .ok rfl

/-- What is paired step by step is paired as a whole. -/
theorem bind {a : Except ε α} {b : Except ε α'} {f : α → Except ε β} {g : α' → Except ε β'}
    (h : Paired E R a b) (hfg : ∀ x y, R x y → Paired E Q (f x) (g y)) :
    Paired E Q (a >>= f) (b >>= g) := by
  cases a with
  | error e => exact E.tells_bind g h
  | ok x =>
    obtain ⟨y, rfl, hxy⟩ := h
    exact hfg x y hxy

/-- Branches are paired when the same one is taken. -/
theorem ite {c : Prop} [Decidable c] {a₁ a₂ : Except ε α} {b₁ b₂ : Except ε α'}
    (hpos : c → Paired E R a₁ b₁) (hneg : ¬c → Paired E R a₂ b₂) :
    Paired E R (if c then a₁ else a₂) (if c then b₁ else b₂) := by
  by_cases h : c
  · rw [if_pos h, if_pos h]
    exact hpos h
  · rw [if_neg h, if_neg h]
    exact hneg h

/-- What a success is followed by. -/
theorem of_ok {a : Except ε α} {b : Except ε α'} (h : Paired E R a b) {x : α} (hx : a = .ok x) :
    ∃ y, b = .ok y ∧ R x y := by
  subst hx
  exact h

/-- What an error tells. -/
theorem of_error {a : Except ε α} {b : Except ε α'} (h : Paired E R a b) {e : ε}
    (he : a = .error e) : E.tells e b := by
  subst he
  exact h

/-- Folds are paired when their steps are. -/
theorem foldlM {γ : Type} {f : α → γ → Except ε α} {g : α' → γ → Except ε α'}
    (hfg : ∀ c x y, R x y → Paired E R (f x c) (g y c)) :
    ∀ (l : List γ) {x : α} {y : α'}, R x y → Paired E R (l.foldlM f x) (l.foldlM g y)
  | [], _, _, h => .pure h
  | c :: l, x, y, h => by
    rw [List.foldlM_cons, List.foldlM_cons]
    exact (hfg c x y h).bind (fun _ _ h => foldlM hfg l h)

/-- Reporting errors under other names keeps computations paired, if it keeps what they tell. -/
theorem mapError {δ : Type} {D : ErrorSense δ} {a : Except ε α} {b : Except ε α'} {f : ε → δ}
    (h : Paired E R a b) (hf : ∀ e, E.tells e b → D.tells (f e) (b.mapError f)) :
    Paired D R (a.mapError f) (b.mapError f) := by
  cases a with
  | error e => exact hf e h
  | ok x =>
    obtain ⟨y, rfl, hxy⟩ := h
    exact ⟨y, rfl, hxy⟩

end Paired

/-! ## Results that stay -/

/-- A second result is the first, unless that is a fault. -/
abbrev Stays (a b : Result α) : Prop := Paired (.silent Fault) Eq a b

namespace Stays

/-- A result stays what it is. -/
theorem refl (a : Result α) : Stays a a := Paired.refl a

/-- After a fault anything may come. -/
theorem fault {f : Fault} {b : Result α} : Stays (.error f) b := trivial

/-- A success stays as it is. -/
theorem eq_ok {a b : Result α} (h : Stays a b) {x : α} (hx : a = .ok x) : b = .ok x := by
  obtain ⟨y, hb, rfl⟩ := h.of_ok hx
  exact hb

/-- Results that stay one after the other stay together. -/
theorem bind {a b : Result α} {f g : α → Result β} (h : Stays a b) (hfg : ∀ x, Stays (f x) (g x)) :
    Stays (a >>= f) (b >>= g) :=
  Paired.bind h (fun x _ hxy => hxy ▸ hfg x)

/-- A fault that is reported under a name is none the less a fault. -/
theorem inPredicate {a b : Result α} (name : Predicate) (h : Stays a b) :
    Stays (inPredicate name a) (inPredicate name b) :=
  Paired.mapError h (fun _ _ => trivial)

end Stays

end Tabletop
