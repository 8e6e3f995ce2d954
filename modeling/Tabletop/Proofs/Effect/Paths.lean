import Tabletop.Proofs.Board.Numbering
import Tabletop.Proofs.Effect.Calls

/-!
# Where effects stand

The path of an effect tells where the effect stands: which effects hold it, from the outside in, in
which of their bodies, and in which round of a loop.  What it tells can be read back, even where
something follows the path that may hold any characters.  So the id of a decision gives away the
place at which it came up, and the name that was asked for.

A name with placeholders is filled in with the values of these placeholders; nothing else that is in
scope matters.

Main statements: `Spot.eq_of_text_append`, and `Session.exists_spot_of_pending` about the id under
which a run asks.
-/

namespace Tabletop

/-! ## Characters that separate -/

/-- Two texts that start with characters of a kind and go on with one of another kind are equal in
both parts. -/
theorem eq_of_append_cons_eq {α : Type} {p : α → Bool} {c d : α} {x y : List α} (hc : p c = false)
    (hd : p d = false) :
    ∀ {a b : List α}, (∀ e ∈ a, p e = true) → (∀ e ∈ b, p e = true) → a ++ c :: x = b ++ d :: y →
      a = b ∧ c = d ∧ x = y
  | [], [], _, _, h => ⟨rfl, List.cons.inj h⟩
  | [], e :: b, _, hb, h => by
    obtain ⟨rfl, -⟩ := List.cons.inj h
    exact absurd (hb c List.mem_cons_self) (Bool.eq_false_iff.1 hc)
  | e :: a, [], ha, _, h => by
    obtain ⟨rfl, -⟩ := List.cons.inj h
    exact absurd (ha e List.mem_cons_self) (Bool.eq_false_iff.1 hd)
  | e :: a, f :: b, ha, hb, h => by
    obtain ⟨rfl, hrest⟩ := List.cons.inj h
    obtain ⟨rfl, hseparated⟩ := eq_of_append_cons_eq hc hd
      (fun g hg => ha g (List.mem_cons_of_mem e hg)) (fun g hg => hb g (List.mem_cons_of_mem e hg))
      hrest
    exact ⟨rfl, hseparated⟩

/-- A number can be read back from its numeral. -/
theorem eq_of_repr_eq {m n : Nat} (h : m.repr = n.repr) : m = n := by
  have hdigits := congrArg String.toList h
  rw [Nat.toList_repr, Nat.toList_repr] at hdigits
  exact eq_of_toDigits_eq hdigits

/-- The decimal digits of a number are digits. -/
theorem isDigit_of_mem_repr {n : Nat} {c : Char} (h : c ∈ n.repr.toList) : c.isDigit = true := by
  rw [Nat.toList_repr] at h
  exact Nat.isDigit_of_mem_toDigits (by decide) (by decide) h

/-! ## Spots -/

/-- A body of an effect; that of a loop stands for one of its rounds. -/
inductive Body where
  | yes
  | no
  | only
  | round (k : Nat)

/-- The name of a body in paths. -/
def Body.text : Body → String
  | yes => "then"
  | no => "else"
  | only => "in"
  | round k => "each[" ++ toString k ++ "]"

/-- An effect of a list, as paths name it: its number in the list and its kind. -/
structure Entry where
  index : Nat
  kind : String
  letters : ∀ c ∈ kind.toList, c.isAlpha = true

/-- The name of an effect of a list in paths. -/
def Entry.text (e : Entry) : String := toString e.index ++ ":" ++ e.kind

/-- Where an effect stands among the effects of a list and those in their bodies. -/
inductive Spot where
  /-- In the list itself. -/
  | here (e : Entry)
  /-- In a body of an effect of the list. -/
  | within (e : Entry) (body : Body) (rest : Spot)

/-- What a spot adds to the path of the list. -/
def Spot.text : Spot → String
  | here e => "/" ++ e.text
  | within e body rest => "/" ++ e.text ++ "/" ++ body.text ++ rest.text

namespace Effect

/-- The kinds of effects are written in letters. -/
theorem isAlpha_of_mem_kind (e : Effect) : ∀ c ∈ e.kind.toList, c.isAlpha = true :=
  List.all_eq_true.1 (by cases e <;> rw [kind] <;> rfl)

/-- An effect as number `i` of a list. -/
def numbered (e : Effect) (i : Nat) : Entry := ⟨i, e.kind, e.isAlpha_of_mem_kind⟩

/-- The effects in a body. -/
def body? : Effect → Body → Option (List Effect)
  | .ifThenElse _ yes _, .yes => some yes
  | .ifThenElse _ _ no, .no => some no
  | .forEach _ _ body _, .round _ => some body
  | .letIn _ _ body, .only => some body
  | .reduce _ _ _ _ _ _ body, .only => some body
  | .rollRandom _ _ _ body, .only => some body
  | .removeByPriority _ _ _ body, .only => some body
  | _, _ => none

end Effect

/-- The effect that an entry names. -/
def Entry.effect? (e : Entry) (es : List Effect) : Option Effect :=
  es[e.index]?.filter (fun effect => effect.kind = e.kind)

/-- The effect at a spot of a list. -/
def Spot.effect? : Spot → List Effect → Option Effect
  | here e, es => e.effect? es
  | within e body rest, es => do rest.effect? (← (← e.effect? es).body? body)

/-! ### Reading spots back -/

namespace Body

/-- No body has a slash in its name. -/
theorem ne_slash_of_mem_text (b : Body) : ∀ c ∈ b.text.toList, decide (c ≠ '/') = true := by
  cases b with
  | yes => exact List.all_eq_true.1 rfl
  | no => exact List.all_eq_true.1 rfl
  | only => exact List.all_eq_true.1 rfl
  | round k =>
    intro c hc
    rw [text, String.toList_append, String.toList_append, List.mem_append, List.mem_append] at hc
    refine decide_eq_true ?_
    rintro rfl
    obtain (hc | hc) | hc := hc
    · exact absurd hc (by decide)
    · exact absurd (isDigit_of_mem_repr hc) (by decide)
    · exact absurd hc (by decide)

/-- The first two letters tell bodies apart, but not the rounds of a loop. -/
theorem take_text (b : Body) : b.text.toList.take 2 =
    match b with
    | yes => ['t', 'h']
    | no => ['e', 'l']
    | only => ['i', 'n']
    | round _ => ['e', 'a'] := by
  cases b with
  | round k =>
    rw [text, String.toList_append, String.toList_append]
    rfl
  | _ => rfl

/-- A body can be read back from its name. -/
theorem eq_of_text_eq {a b : Body} (h : a.text = b.text) : a = b := by
  have hletters : a.text.toList.take 2 = b.text.toList.take 2 := by rw [h]
  rw [take_text, take_text] at hletters
  cases a <;> cases b
  case round.round k l =>
    rw [text, text, String.append_left_inj, String.append_right_inj] at h
    exact congrArg round (eq_of_repr_eq h)
  all_goals simp at hletters ⊢

end Body

/-- An entry can be read back from its name, if no letter follows it. -/
theorem Entry.eq_of_text_append {e f : Entry} {c d : Char} {x y : List Char}
    (hc : c.isAlpha = false) (hd : d.isAlpha = false)
    (h : e.text.toList ++ c :: x = f.text.toList ++ d :: y) : e = f ∧ c = d ∧ x = y := by
  have hchars (e : Entry) (x : List Char) :
      e.text.toList ++ x = e.index.repr.toList ++ ':' :: (e.kind.toList ++ x) := by
    rw [text, String.toList_append, String.toList_append, List.append_assoc, List.append_assoc]
    rfl
  rw [hchars, hchars] at h
  obtain ⟨hindex, -, h⟩ := eq_of_append_cons_eq (p := Char.isDigit) rfl rfl
    (fun _ => isDigit_of_mem_repr) (fun _ => isDigit_of_mem_repr) h
  obtain ⟨hkind, hrest⟩ := eq_of_append_cons_eq hc hd e.letters f.letters h
  obtain ⟨i, kind, letters⟩ := e
  obtain ⟨j, kind', letters'⟩ := f
  obtain rfl : i = j := eq_of_repr_eq (String.toList_inj.1 hindex)
  obtain rfl : kind = kind' := String.toList_inj.1 hkind
  exact ⟨rfl, hrest⟩

namespace Spot

/-- The path of an effect of a list is its name after a slash. -/
theorem toList_here (e : Entry) (x : List Char) :
    (here e).text.toList ++ x = '/' :: (e.text.toList ++ x) := by
  rw [text, String.toList_append]
  rfl

/-- The path of an effect in a body goes on with the name of the body and the path in there. -/
theorem toList_within (e : Entry) (body : Body) (rest : Spot) (x : List Char) :
    (within e body rest).text.toList ++ x =
      '/' :: (e.text.toList ++ '/' :: (body.text.toList ++ (rest.text.toList ++ x))) := by
  simp only [text, String.toList_append, String.reduceToList, List.append_assoc, List.cons_append,
    List.nil_append]

/-- The path that a spot adds begins with a slash. -/
theorem exists_toList : ∀ (a : Spot) (x : List Char), ∃ y, a.text.toList ++ x = '/' :: y
  | here e, x => ⟨e.text.toList ++ x, toList_here e x⟩
  | within e body rest, x =>
    ⟨e.text.toList ++ '/' :: (body.text.toList ++ (rest.text.toList ++ x)),
      toList_within e body rest x⟩

/-- A spot can be read back from its text, even if a colon and other characters follow it. -/
theorem eq_of_toList_append {x y : List Char} {a b : Spot}
    (h : a.text.toList ++ ':' :: x = b.text.toList ++ ':' :: y) : a = b ∧ x = y := by
  induction a generalizing b with
  | here e =>
    cases b with
    | here f =>
      rw [toList_here, toList_here] at h
      obtain ⟨rfl, -, hrest⟩ := Entry.eq_of_text_append rfl rfl (List.cons.inj h).2
      exact ⟨rfl, hrest⟩
    | within f body rest =>
      rw [toList_here, toList_within] at h
      obtain ⟨-, hcolon, -⟩ := Entry.eq_of_text_append rfl rfl (List.cons.inj h).2
      exact absurd hcolon (by decide)
  | within e body rest ih =>
    cases b with
    | here f =>
      rw [toList_here, toList_within] at h
      obtain ⟨-, hslash, -⟩ := Entry.eq_of_text_append rfl rfl (List.cons.inj h).2
      exact absurd hslash (by decide)
    | within f body' rest' =>
      rw [toList_within, toList_within] at h
      obtain ⟨rfl, -, h⟩ := Entry.eq_of_text_append rfl rfl (List.cons.inj h).2
      -- The rest starts with a slash, and no body has one in its name.
      obtain ⟨z, hz⟩ := exists_toList rest (':' :: x)
      obtain ⟨z', hz'⟩ := exists_toList rest' (':' :: y)
      have hbody : body.text.toList ++ '/' :: z = body'.text.toList ++ '/' :: z' := by
        rwa [hz, hz'] at h
      obtain ⟨htext, -, rfl⟩ := eq_of_append_cons_eq (p := fun c => decide (c ≠ '/')) (by decide)
        (by decide) body.ne_slash_of_mem_text body'.ne_slash_of_mem_text hbody
      obtain ⟨rfl, hrest⟩ := ih (hz.trans hz'.symm)
      exact ⟨by rw [Body.eq_of_text_eq (String.toList_inj.1 htext)], hrest⟩

/-- The spot and the name of a decision can be read back from its id. -/
theorem eq_of_text_append {a b : Spot} {n m : String}
    (h : a.text ++ "::" ++ n = b.text ++ "::" ++ m) : a = b ∧ n = m := by
  have hchars (a : Spot) (n : String) :
      (a.text ++ "::" ++ n).toList = a.text.toList ++ ':' :: (':' :: n.toList) := by
    rw [String.toList_append, String.toList_append, List.append_assoc]
    rfl
  have hlists := congrArg String.toList h
  rw [hchars, hchars] at hlists
  obtain ⟨rfl, hname⟩ := eq_of_toList_append hlists
  exact ⟨rfl, String.toList_inj.1 (List.cons.inj hname).2⟩

end Spot

/-! ## Paths of calls -/

/-- A body that an effect comes to is one of its bodies, and the path of that body names it. -/
theorem Effect.Enters.exists_body {e : Effect} {s inner : Site} {x z : Session} {body : List Effect}
    (h : e.Enters s x body inner z) :
    ∃ b : Body, e.body? b = some body ∧ inner.path = s.path ++ "/" ++ b.text := by
  cases h with
  | yes _ => exact ⟨.yes, rfl, rfl⟩
  | no _ => exact ⟨.no, rfl, rfl⟩
  | @each _ _ _ _ _ _ _ _ _ _ _ i _ _ _ _ => exact ⟨.round i.2, rfl, rfl⟩
  | letIn _ => exact ⟨.only, rfl, rfl⟩
  | reduce _ => exact ⟨.only, rfl, rfl⟩
  | roll _ => exact ⟨.only, rfl, rfl⟩
  | @removed _ _ countBind _ _ _ _ _ _ =>
    refine ⟨.only, rfl, ?_⟩
    cases countBind <;> rfl

/-- An effect of a list is found under its entry. -/
theorem Effect.effect?_numbered {all es : List Effect} {e : Effect} {i : Nat}
    (h : all.drop i = e :: es) :
    (e.numbered i).effect? all = some e := by
  have hget : all[i]? = some e := by
    rw [← List.head?_drop, h]
    rfl
  rw [Entry.effect?, show all[(e.numbered i).index]? = some e from hget]
  simp [numbered]

/-- The path of a call names the spot of its effect. -/
theorem Calls.exists_spot {es : List Effect} {s : Site} {i : Nat} {x : Session} {c : Call}
    (h : Calls es s i x c) :
    ∀ {all : List Effect}, all.drop i = es →
      ∃ spot : Spot, spot.effect? all = some c.effect ∧ c.site.path = s.path ++ spot.text := by
  induction h with
  | @here e es s i x y _ =>
    intro all hall
    exact ⟨.here (e.numbered i), Effect.effect?_numbered hall, String.append_assoc⟩
  | @within e es body s inner i x y z c _ henters _ ih =>
    intro all hall
    obtain ⟨b, hbody, hpath⟩ := henters.exists_body
    obtain ⟨spot, heffect, hspot⟩ := ih (List.drop_zero)
    refine ⟨.within (e.numbered i) b spot, ?_, ?_⟩
    · rw [Spot.effect?, Effect.effect?_numbered hall]
      simp only [Option.bind_eq_bind, Option.bind_some, hbody]
      exact heffect
    · rw [hspot, hpath, Site.entry, Site.enter, Spot.text]
      simp only [Entry.text, Effect.numbered, String.append_assoc]
  | @later e es s i x y z b c _ _ _ ih =>
    intro all hall
    apply ih
    rw [← List.drop_drop, hall]
    rfl

/-! ## Names -/

/-- The name under which a choice asks, with its placeholders. -/
def Effect.template? : Effect → Option String
  | .chooseOne bind _ => some bind
  | .chooseN bind _ _ => some bind
  | _ => none

namespace Bindings

/-- The placeholders of a name that is being filled in. -/
def placeholdersFrom : Option (List Char) → List Char → List String
  | none, [] => []
  | some _, [] => []
  | none, c :: cs => if c = '\x7b' then placeholdersFrom (some []) cs else placeholdersFrom none cs
  | some key, c :: cs =>
    if c = '\x7d' then String.ofList key.reverse :: placeholdersFrom none cs
    else placeholdersFrom (some (c :: key)) cs

/-- The placeholders of a name: what stands in braces. -/
def placeholders (name : String) : List String := placeholdersFrom none name.toList

/-- A name is filled in alike under bindings that agree on its placeholders. -/
theorem fillFrom_congr {b b' : Bindings} {key : Option (List Char)} {cs : List Char}
    (h : ∀ name ∈ placeholdersFrom key cs, b.get? name = b'.get? name) :
    b.fillFrom key cs = b'.fillFrom key cs := by
  fun_induction placeholdersFrom key cs with
  | case1 => rfl
  | case2 key => rfl
  | case3 cs ih =>
    rw [fillFrom, fillFrom, if_pos rfl, if_pos rfl, ih h]
  | case4 c cs hc ih =>
    rw [fillFrom, fillFrom, if_neg hc, if_neg hc, ih h]
  | case5 cs key ih =>
    obtain ⟨hname, hrest⟩ := List.forall_mem_cons.1 h
    rw [fillFrom, fillFrom, if_pos rfl, if_pos rfl, ih hrest]
    dsimp only
    rw [hname]
  | case6 key c cs hc ih =>
    rw [fillFrom, fillFrom, if_neg hc, if_neg hc, ih h]

/-- A name is filled in with the values of its placeholders. -/
theorem fill_congr {b b' : Bindings} {name : String}
    (h : ∀ placeholder ∈ placeholders name, b.get? placeholder = b'.get? placeholder) :
    b.fill name = b'.fill name := by
  rw [fill, fill, fillFrom_congr h]

end Bindings

/-- A choice asks under its name, filled in, and its path comes before the name in the id. -/
theorem Call.name_of_pending {c : Call} {bind : String} {d : Decision}
    (hbind : c.effect.template? = some bind) (h : c.run = .error (.pending d)) :
    c.site.bindings.fill bind = .ok d.name ∧ d.id = c.site.path ++ "::" ++ d.name := by
  obtain ⟨e, s, x⟩ := c
  cases e <;> cases hbind
  case chooseOne options =>
    obtain ⟨name, domain, hname, -, -, -, rfl⟩ :=
      s.chooseOne_eq_pending x (choice_eq_pending (Effect.run_chooseOne s x bind options) h)
    exact ⟨hname, rfl⟩
  case chooseN options cardinality =>
    obtain ⟨name, domain, min, max, hname, -, -, -, -, -, rfl⟩ := s.chooseN_eq_pending x
      (choice_eq_pending (Effect.run_chooseN s x bind options cardinality) h)
    exact ⟨hname, rfl⟩

/-- A run that asks comes to a choice at a spot of its effects, and that choice asks. -/
theorem Session.exists_spot_of_pending {x : Session} {setting : Setting} {root : String}
    {b : Bindings} {effects : List Effect} {d : Decision}
    (h : x.run setting root b effects = .error (.pending d)) :
    ∃ (c : Call) (spot : Spot) (bind : String), x.Makes setting root b effects c ∧
      c.run = .error (.pending d) ∧ spot.effect? effects = some c.effect ∧
      c.site.path = root ++ spot.text ∧ c.effect.template? = some bind := by
  obtain ⟨c, hmakes, hasks, hchoice⟩ := exists_makes_of_pending h
  obtain ⟨spot, heffect, hpath⟩ := Calls.exists_spot hmakes List.drop_zero
  rcases hchoice with ⟨bind, options, hc⟩ | ⟨bind, options, cardinality, hc⟩
  · exact ⟨c, spot, bind, hmakes, hasks, heffect, hpath, by rw [hc]; rfl⟩
  · exact ⟨c, spot, bind, hmakes, hasks, heffect, hpath, by rw [hc]; rfl⟩

end Tabletop
