import Tabletop.Proofs.Effect.Lots
import Tabletop.Proofs.Effect.Paths
import Tabletop.Proofs.Paired.Plan
import Tabletop.Play.Start

/-!
# Scopes that open and close

A run can be made with one scope that changes on the way: a path to which segments are added and
from which they are taken again, and names that are bound and dropped again.  `Effect.exec` runs
effects like that.  Each body sets its own mark and drops what has been bound since; a body with
names of its own does so twice.

Every scope that is opened is closed: of a list of effects there remain the choices that stand
directly in it, and of a body nothing.  So a run with one scope comes to what a run comes to that
hands the names on.

Main statement: `Effect.scopes_close`.
-/

namespace Tabletop

/-! ## One scope -/

/-- Where a run stands and what is bound there. -/
structure Scope where
  root : String
  /-- The segments of the path below its root, the last one first. -/
  segments : List String
  bindings : Bindings

/-- The path of some segments below a root. -/
def pathBelow (root : String) : List String → String
  | [] => root
  | segment :: outer => pathBelow root outer ++ "/" ++ segment

namespace Scope

/-- The site at which an effect stands. -/
def site (sc : Scope) (g : Setting) : Site where
  setting := g
  path := pathBelow sc.root sc.segments
  bindings := sc.bindings

/-- Adds a segment to the path. -/
def enter (sc : Scope) (segment : String) : Scope := { sc with segments := segment :: sc.segments }

/-- Takes the last segment from the path. -/
def leave (sc : Scope) : Scope := { sc with segments := sc.segments.tail }

/-- Binds names. -/
def bindAll (sc : Scope) (names : List (String × Value)) : Scope :=
  { sc with bindings := sc.bindings.bindAll names }

/-- Drops what has been bound since a mark. -/
def truncate (sc : Scope) (mark : Nat) : Scope := { sc with bindings := sc.bindings.truncate mark }

/-- Runs a body one segment further in, and drops what it has bound. -/
def nested (sc : Scope) (segment : String) (body : Scope → Attempt (Session × Scope)) :
    Attempt (Session × Scope) := do
  let mark := sc.bindings.size
  let (x, sc) ← body (sc.enter segment)
  return (x, sc.leave.truncate mark)

/-- Runs a body with names of its own, and drops them at its end. -/
def nestedWith (sc : Scope) (names : List (String × Value)) (segment : String)
    (body : Scope → Attempt (Session × Scope)) : Attempt (Session × Scope) := do
  let mark := sc.bindings.size
  let (x, sc) ← (sc.bindAll names).nested segment body
  return (x, sc.truncate mark)

/-- Folds items in one scope, each bound together with what has been computed so far. -/
def foldItems (g : Setting) (x : Session) (item acc : String) (next : Expr) :
    List Value → Value → Scope → Result (Value × Scope)
  | [], value, sc => .ok (value, sc)
  | i :: is, value, sc => do
    let mark := sc.bindings.size
    let sc := sc.bindAll [(item, i), (acc, value)]
    let value ← next.eval ((sc.site g).view x)
    foldItems g x item acc next is value (sc.truncate mark)

/-- What a run comes to that starts from a scope and hands on the names. -/
def after (sc : Scope) (a : Attempt (Session × Bindings)) : Attempt (Session × Scope) := do
  let (x, bindings) ← a
  return (x, { sc with bindings })

end Scope

mutual

/-- Carries out an effect in a scope; its own operation has been paid for. -/
def Effect.exec (e : Effect) (g : Setting) (x : Session) (sc : Scope) : Attempt (Session × Scope) :=
  match e with
  | .ifThenElse when yes no => do
    if ← when.eval ((sc.site g).view x) then sc.nested "then" (Effect.execAll yes g 0 x)
    else sc.nested "else" (Effect.execAll no g 0 x)
  | .forEach bind source body limit => do
    let items ← source.eval ((sc.site g).view x)
    let limit ← (sc.site g).loopLimit x limit
    (items.take limit).zipIdx.foldlM
      (fun (x, sc) (item, k) =>
        sc.nestedWith [(bind, item)] ("each[" ++ toString k ++ "]") (Effect.execAll body g 0 x))
      (x, sc)
  | .letIn bind value body => do
    let value ← value.eval ((sc.site g).view x)
    sc.nestedWith [(bind, value)] "in" (Effect.execAll body g 0 x)
  | .reduce source item acc initial next result body => do
    let items ← source.eval ((sc.site g).view x)
    let value ← initial.eval ((sc.site g).view x)
    let (value, sc) ← sc.foldItems g x item acc next items value
    sc.nestedWith [(result, value)] "in" (Effect.execAll body g 0 x)
  | .rollRandom bind min max body => do
    let (n, x) ← (sc.site g).roll x min max
    sc.nestedWith [(bind, .int n)] "in" (Effect.execAll body g 0 x)
  | .removeByPriority budget groups countBind body => do
    let (count, x) ← (sc.site g).removeByPriority x budget groups
    let names := countBind.toList.map (fun name => (name, .int (Int64.ofNat count)))
    sc.nestedWith names "in" (Effect.execAll body g 0 x)
  | e => sc.after (e.run (sc.site g) x)

/-- Carries out effects one after the other in one scope, the first being number `i` of its list. -/
def Effect.execAll (es : List Effect) (g : Setting) (i : Nat) (x : Session) (sc : Scope) :
    Attempt (Session × Scope) :=
  match es with
  | [] => .ok (x, sc)
  | e :: es => do
    let sc := sc.enter (toString i ++ ":" ++ e.kind)
    let x ← (sc.site g).spend x
    let (x, sc) ← e.exec g x sc
    Effect.execAll es g (i + 1) x sc.leave

end

/-! ## What a list binds -/

namespace Bindings

/-- What has been bound since a mark is dropped, and nothing else. -/
theorem truncate_of_suffix {b b' : Bindings} (h : b.entries <:+ b'.entries) :
    b'.truncate b.size = b := by
  obtain ⟨added, hadded⟩ := h
  rw [truncate, size, size, ← hadded, List.length_append, Nat.add_sub_cancel, List.drop_left]

/-- What was bound before a choice stays below what it binds. -/
theorem suffix_bindChoice (b : Bindings) (bind name : String) (x : Value) :
    b.entries <:+ (b.bindChoice bind name x).entries := by
  unfold bindChoice
  split
  · exact List.suffix_cons _ _
  · exact (List.suffix_cons _ _).trans (List.suffix_cons _ _)

end Bindings

namespace Effect

/-- What an effect leaves bound: a choice binds what was selected, under the name that it has filled
in, and every other effect leaves the bindings as they were. -/
def Binds (e : Effect) (b b' : Bindings) : Prop :=
  match e.template? with
  | none => b' = b
  | some bind => ∃ name x, b.fill bind = .ok name ∧ b' = b.bindChoice bind name x

/-- What a list of effects leaves bound: what its effects do one after the other, those in their
bodies not counted. -/
def BindAll : List Effect → Bindings → Bindings → Prop
  | [], b, b' => b' = b
  | e :: es, b, b' => ∃ c, e.Binds b c ∧ BindAll es c b'

/-- What was bound before an effect stays below what it leaves bound. -/
theorem Binds.suffix {e : Effect} {b b' : Bindings} (h : e.Binds b b') :
    b.entries <:+ b'.entries := by
  unfold Binds at h
  split at h
  · exact h ▸ List.suffix_rfl
  · obtain ⟨name, x, -, rfl⟩ := h
    exact b.suffix_bindChoice _ name x

/-- The bindings from before are still there, below the new ones. -/
theorem BindAll.suffix : ∀ {es : List Effect} {b b' : Bindings}, BindAll es b b' →
    b.entries <:+ b'.entries
  | [], _, _, h => h ▸ List.suffix_rfl
  | _ :: _, _, _, ⟨_, he, hes⟩ => he.suffix.trans hes.suffix

end Effect

/-! ## What a run leaves bound -/

section

variable (s : Site) (x : Session)

/-- A refusal yields nothing. -/
theorem Site.refuse_yields {α : Type} {P : α → Prop} (name : String) (cause : ChoiceFault) :
    Yields P (s.refuse name cause) := by
  unfold refuse
  split <;> trivial

/-- A request for a selection yields nothing. -/
theorem Site.missing_yields {α : Type} {P : α → Prop} (d : Decision) : Yields P (s.missing d) := by
  unfold missing
  split <;> trivial

/-- A choice of one binds what was selected under the name that it has filled in, and nothing
else. -/
theorem Site.chooseOne_binds (bind : String) (options : Query) :
    Yields ((Effect.chooseOne bind options).Binds s.bindings) (s.chooseOne x bind options) := by
  refine (Yields.lift (fun name hname => hname)).bind (fun name hname => .after (fun domain => ?_))
  split
  · exact s.missing_yields _
  · split
    · exact s.refuse_yields _ _
    · exact .pure ⟨name, _, hname, rfl⟩

/-- A choice of several binds what was selected under the name that it has filled in, and nothing
else. -/
theorem Site.chooseN_binds (bind : String) (options : Query) (c : Cardinality) :
    Yields ((Effect.chooseN bind options c).Binds s.bindings) (s.chooseN x bind options c) := by
  refine (Yields.lift (fun name hname => hname)).bind (fun name hname => ?_)
  refine .after (fun domain => .after (fun (min, max) => .ite (.fail _ _) ?_))
  dsimp only
  split
  · exact s.missing_yields _
  · split
    · exact s.refuse_yields _ _
    · exact .pure ⟨name, _, hname, rfl⟩
  · exact s.refuse_yields _ _

/-- A body leaves nothing bound. -/
theorem forget_yields {a : Attempt (Session × Bindings)} {b : Bindings} :
    Yields (fun p => p.2 = b) (a >>= fun p => Pure.pure (p.1, b)) :=
  .after (fun _ => .pure rfl)

/-- An effect leaves bound what it chooses. -/
theorem Effect.run_binds (e : Effect) : Yields (fun p => e.Binds s.bindings p.2) (e.run s x) := by
  have hplain (h : e.Plain) : Yields (fun p => p.2 = s.bindings) (e.run s x) := by
    have hsettled := h.run_settled s x
    cases hrun : e.run s x with
    | error halt => trivial
    | ok p => exact (hsettled.of_ok hrun).2
  cases e with
  | chooseOne bind options => exact (s.chooseOne_binds x bind options).bind (fun _ hb => .pure hb)
  | chooseN bind options c => exact (s.chooseN_binds x bind options c).bind (fun _ hb => .pure hb)
  | ifThenElse when yes no =>
    rw [Effect.run]
    exact .after (fun _ => .ite forget_yields forget_yields)
  | forEach bind source body limit =>
    rw [Effect.run]
    exact .after (fun _ => .after (fun _ => .after (fun _ => .pure rfl)))
  | letIn _ _ _ | reduce _ _ _ _ _ _ _ | rollRandom _ _ _ _ | removeByPriority _ _ _ _ =>
    rw [Effect.run]
    exact .after (fun _ => forget_yields)
  | _ => exact hplain trivial

/-- A list of effects leaves bound what is chosen directly in it. -/
theorem Effect.runAll_binds : ∀ (es : List Effect) (s : Site) (i : Nat) (x : Session),
    Yields (fun p => BindAll es s.bindings p.2) (Effect.runAll es s i x)
  | [], _, _, _ => .pure rfl
  | e :: es, s, i, x => by
    rw [Effect.runAll]
    refine .after (fun y => (Effect.run_binds (s.entry i e) y e).bind (fun p hp => ?_))
    exact (Effect.runAll_binds es _ (i + 1) p.1).mono (fun q hq => ⟨p.2, hp, hq⟩)

end

/-! ## One scope and many -/

namespace Scope

variable (sc : Scope) (g : Setting)

/-- The session that a body comes to, in the scope that it was opened from. -/
def back (a : Attempt (Session × Bindings)) : Attempt (Session × Scope) := do
  let (x, _) ← a
  return (x, sc)

/-- What comes first in a run can be taken out of the scope that goes on afterwards. -/
theorem after_bind {α : Type} (a : Attempt α) (f : α → Attempt (Session × Bindings)) :
    sc.after (a >>= f) = a >>= fun x => sc.after (f x) := by
  cases a <;> rfl

/-- Forgetting what a body has bound is going back to the scope that it was opened from. -/
theorem after_forget (a : Attempt (Session × Bindings)) :
    sc.after (a >>= fun p => Pure.pure (p.1, sc.bindings)) = sc.back a := by
  cases a <;> rfl

/-- A list of effects that is run with one scope comes to what it comes to with the names handed
on. -/
def Follows (es : List Effect) : Prop :=
  ∀ (i : Nat) (x : Session) (sc : Scope),
    Effect.execAll es g i x sc = sc.after (Effect.runAll es (sc.site g) i x)

variable {sc g}

/-- Names that have been bound are dropped again. -/
theorem truncate_bindAll (names : List (String × Value)) :
    (sc.bindAll names).truncate sc.bindings.size = sc := by
  have hmark : (sc.bindings.bindAll names).truncate sc.bindings.size = sc.bindings := by
    apply Bindings.truncate_of_suffix
    rw [Bindings.bindAll_entries]
    exact List.suffix_append _ _
  unfold truncate bindAll
  rw [hmark]

/-- A body closes the scope that it opens: all that it has bound lies above the mark. -/
theorem Follows.nested {es : List Effect} (h : Follows g es) (segment : String) (x : Session) :
    sc.nested segment (Effect.execAll es g 0 x) =
      sc.back (Effect.runAll es ((sc.site g).enter segment) 0 x) := by
  have hbinds := Effect.runAll_binds es ((sc.enter segment).site g) 0 x
  unfold Scope.nested
  rw [h]
  change _ = sc.back (Effect.runAll es ((sc.enter segment).site g) 0 x)
  cases hrun : Effect.runAll es ((sc.enter segment).site g) 0 x with
  | error halt => rfl
  | ok p =>
    have hmark : p.2.truncate sc.bindings.size = sc.bindings :=
      Bindings.truncate_of_suffix (hbinds.of_ok hrun).suffix
    change Except.ok (p.1, { sc with bindings := p.2.truncate sc.bindings.size }) = .ok (p.1, sc)
    rw [hmark]

/-- So does a body with names of its own: they are dropped with the rest. -/
theorem Follows.nestedWith {es : List Effect} (h : Follows g es) (names : List (String × Value))
    (segment : String) (x : Session) :
    sc.nestedWith names segment (Effect.execAll es g 0 x) =
      sc.back (Effect.runAll es (((sc.bindAll names).site g).enter segment) 0 x) := by
  unfold Scope.nestedWith
  rw [h.nested]
  cases Effect.runAll es (((sc.bindAll names).site g).enter segment) 0 x with
  | error halt => rfl
  | ok p => exact congrArg (fun sc => Except.ok (p.1, sc)) (sc.truncate_bindAll names)

/-- Every round of a loop starts from the scope of the loop. -/
theorem Follows.rounds {body : List Effect} (h : Follows g body) (bind : String) (sc : Scope) :
    ∀ (items : List (Value × Nat)) (x : Session),
      items.foldlM (fun (x, sc) (item, k) =>
          Scope.nestedWith sc [(bind, item)] ("each[" ++ toString k ++ "]")
            (Effect.execAll body g 0 x))
        (x, sc) =
      (do
        let x ← items.foldlM ((sc.site g).round bind body) x
        return (x, sc))
  | [], _ => rfl
  | i :: items, x => by
    rw [List.foldlM_cons, List.foldlM_cons]
    dsimp only
    rw [h.nestedWith]
    unfold Site.round
    change sc.back (Effect.runAll body ((sc.site g).each bind i.1 i.2) 0 x) >>= _ = _
    cases Effect.runAll body ((sc.site g).each bind i.1 i.2) 0 x with
    | error halt => rfl
    | ok p => exact h.rounds bind sc items p.1

/-- A fold drops the two names of every item. -/
theorem foldItems_eq (sc : Scope) (g : Setting) (x : Session) (item acc : String) (next : Expr) :
    ∀ (items : List Value) (value : Value),
      sc.foldItems g x item acc next items value =
        ((sc.site g).foldItems x item acc next items value).map (fun value => (value, sc))
  | [], _ => rfl
  | i :: items, value => by
    rw [foldItems, Site.foldItems]
    simp only [truncate_bindAll, foldItems_eq sc g x item acc next items]
    change next.eval ((((sc.site g).bind item i).bind acc value).view x) >>= _ = _
    cases next.eval ((((sc.site g).bind item i).bind acc value).view x) <;> rfl

end Scope

mutual

/-- An effect that is run with one scope comes to what it comes to with the names handed on. -/
theorem Effect.exec_eq (e : Effect) (g : Setting) (x : Session) (sc : Scope) :
    e.exec g x sc = sc.after (e.run (sc.site g) x) := by
  cases e with
  | ifThenElse when yes no =>
    rw [Effect.exec, Effect.run, sc.after_bind]
    refine bind_congr (fun holds => ?_)
    cases holds with
    | true => exact ((Effect.execAll_eq yes g).nested "then" x).trans (sc.after_forget _).symm
    | false => exact ((Effect.execAll_eq no g).nested "else" x).trans (sc.after_forget _).symm
  | forEach bind source body limit =>
    rw [Effect.exec, Effect.run, sc.after_bind]
    refine bind_congr (fun items => ?_)
    rw [sc.after_bind]
    refine bind_congr (fun n => ?_)
    rw [sc.after_bind]
    exact (Effect.execAll_eq body g).rounds bind sc _ x
  | letIn bind value body =>
    rw [Effect.exec, Effect.run, sc.after_bind]
    refine bind_congr (fun v => ?_)
    exact ((Effect.execAll_eq body g).nestedWith [(bind, v)] "in" x).trans (sc.after_forget _).symm
  | reduce source item acc initial next result body =>
    rw [Effect.exec, Effect.run, sc.after_bind, Site.foldQuery]
    cases source.eval ((sc.site g).view x) with
    | error fault => rfl
    | ok items =>
      cases initial.eval ((sc.site g).view x) with
      | error fault => rfl
      | ok first =>
        change (liftM (sc.foldItems g x item acc next items first) : Attempt _) >>= _ =
          (liftM ((sc.site g).foldItems x item acc next items first) : Attempt _) >>= _
        rw [sc.foldItems_eq]
        cases (sc.site g).foldItems x item acc next items first with
        | error fault => rfl
        | ok v =>
          exact ((Effect.execAll_eq body g).nestedWith [(result, v)] "in" x).trans
            (sc.after_forget _).symm
  | rollRandom bind min max body =>
    rw [Effect.exec, Effect.run, sc.after_bind]
    refine bind_congr (fun (n, y) => ?_)
    exact ((Effect.execAll_eq body g).nestedWith [(bind, .int n)] "in" y).trans
      (sc.after_forget _).symm
  | removeByPriority budget groups countBind body =>
    rw [Effect.exec, Effect.run, sc.after_bind]
    refine bind_congr (fun (count, y) => ?_)
    refine ((Effect.execAll_eq body g).nestedWith _ "in" y).trans ?_
    cases countBind <;> exact (sc.after_forget _).symm
  | _ => rw [Effect.exec] <;> exact nofun

/-- Effects that are run with one scope come to what they come to with the names handed on. -/
theorem Effect.execAll_eq (es : List Effect) (g : Setting) : Scope.Follows g es := by
  intro i x sc
  cases es with
  | nil => rfl
  | cons e es =>
    rw [Effect.execAll, Effect.runAll, sc.after_bind]
    refine bind_congr (fun y => ?_)
    rw [Effect.exec_eq e, sc.after_bind]
    change (sc.enter (toString i ++ ":" ++ e.kind)).after
      (e.run ((sc.site g).entry i e) y) >>= _ = _
    cases e.run ((sc.site g).entry i e) y with
    | error halt => rfl
    | ok p => exact Effect.execAll_eq es g (i + 1) p.1 { sc with bindings := p.2 }

end

/-! ## What is left of a scope -/

namespace Effect

/-- A list of effects goes back to the path that it started from, and keeps the names that were
bound before. -/
theorem execAll_closes {es : List Effect} {g : Setting} {i : Nat} {x y : Session} {sc sc' : Scope}
    (h : execAll es g i x sc = .ok (y, sc')) :
    sc'.root = sc.root ∧ sc'.segments = sc.segments ∧ BindAll es sc.bindings sc'.bindings := by
  rw [execAll_eq es g i x sc] at h
  obtain ⟨p, hp, h⟩ := bind_eq_ok h
  cases h
  exact ⟨rfl, rfl, (runAll_binds es (sc.site g) i x).of_ok hp⟩

/-- What is brought back to a scope is that scope. -/
theorem eq_of_back {a : Attempt (Session × Bindings)} {y : Session} {sc sc' : Scope}
    (h : sc.back a = .ok (y, sc')) : sc' = sc := by
  obtain ⟨p, -, h⟩ := bind_eq_ok h
  cases h
  rfl

/-- An effect that is no choice leaves the scope as it was. -/
theorem exec_closes {e : Effect} (hchoice : e.template? = none) {g : Setting} {x y : Session}
    {sc sc' : Scope} (h : e.exec g x sc = .ok (y, sc')) : sc' = sc := by
  rw [exec_eq] at h
  obtain ⟨p, hp, h⟩ := bind_eq_ok h
  have hbinds := (run_binds (sc.site g) x e).of_ok hp
  rw [Binds, hchoice] at hbinds
  obtain ⟨z, b⟩ := p
  cases h
  cases hbinds
  rfl

/-- Effects that run with one scope come to what they come to where the names are handed on.

Where a list of effects succeeds, the path is as it was and the bindings are those from before, with
nothing above them but what the choices that stand directly in the list have bound.  Where a body
succeeds, with names of its own or without, the scope is as it was; the same holds for every effect
that is no choice.  And every round of a loop starts from the scope in which the loop stands and
from its own item. -/
theorem scopes_close (g : Setting) (x : Session) (sc : Scope) :
    (∀ es i, execAll es g i x sc = sc.after (runAll es (sc.site g) i x)) ∧
    (∀ es i y sc', execAll es g i x sc = .ok (y, sc') →
      sc'.root = sc.root ∧ sc'.segments = sc.segments ∧ BindAll es sc.bindings sc'.bindings ∧
        sc.bindings.entries <:+ sc'.bindings.entries) ∧
    (∀ es segment y sc', sc.nested segment (execAll es g 0 x) = .ok (y, sc') → sc' = sc) ∧
    (∀ es names segment y sc',
      sc.nestedWith names segment (execAll es g 0 x) = .ok (y, sc') → sc' = sc) ∧
    (∀ (e : Effect) y sc', e.template? = none → e.exec g x sc = .ok (y, sc') → sc' = sc) ∧
    ∀ bind source body limit, (forEach bind source body limit).exec g x sc = do
      let items ← source.eval ((sc.site g).view x)
      let n ← (sc.site g).loopLimit x limit
      let x ← (items.take n).zipIdx.foldlM (fun x (item, k) => do
        let inner := (sc.bindAll [(bind, item)]).enter ("each[" ++ toString k ++ "]")
        let (x, _) ← execAll body g 0 x inner
        return x) x
      return (x, sc) := by
  refine ⟨fun es i => execAll_eq es g i x sc, fun es i y sc' h => ?_, fun es segment y sc' h => ?_,
    fun es names segment y sc' h => ?_, fun e y sc' hchoice h => exec_closes hchoice h,
    fun bind source body limit => ?_⟩
  · obtain ⟨hroot, hsegments, hbinds⟩ := execAll_closes h
    exact ⟨hroot, hsegments, hbinds, hbinds.suffix⟩
  · exact eq_of_back (((execAll_eq es g).nested segment x).symm.trans h)
  · exact eq_of_back (((execAll_eq es g).nestedWith names segment x).symm.trans h)
  · have hround (x : Session) (i : Value × Nat) : (sc.site g).round bind body x i = (do
        let (x, _) ← execAll body g 0 x
          ((sc.bindAll [(bind, i.1)]).enter ("each[" ++ toString i.2 ++ "]"))
        return x) := by
      rw [execAll_eq body g]
      change _ = Scope.after _ (runAll body ((sc.site g).each bind i.1 i.2) 0 x) >>= _
      unfold Site.round
      cases runAll body ((sc.site g).each bind i.1 i.2) 0 x <;> rfl
    rw [exec]
    refine bind_congr (fun items => bind_congr (fun n => ?_))
    rw [(execAll_eq body g).rounds bind sc]
    simp only [← hround]

end Effect

/-! ## A supper -/

/-- Wine goes with the dish. -/
def Effect.pairing : List Effect := [.chooseOne "wine" (.enums ["red", "white"])]

/-- A dish is chosen, and a wine in a branch. -/
def Effect.supper : List Effect :=
  [.chooseOne "dish" (.enums ["soup", "fish"]), .ifThenElse (.const true) Effect.pairing []]

/-- For whom it is served. -/
def Setting.supper : Setting where
  game := .ofDefinition (.minimal "tavern")
  actor := ⟨0⟩

/-- Where it is served. -/
def Session.supper : Session where
  state := (Setting.supper.game.start 2 0).toOption.getD default

/-- Fish and white wine have been selected. -/
def Scope.supper : Scope where
  root := "tavern"
  segments := []
  bindings := .ofList [("dish", .scalar (.str "fish")), ("wine", .scalar (.str "white"))]

/-- The dish is still bound after the supper.  The wine is not: the branch in which it was chosen
left the scope as it was. -/
theorem Effect.scopes_close_supper :
    (∃ y sc, execAll supper .supper 0 .supper .supper = .ok (y, sc) ∧ sc.segments = [] ∧
      ∃ dish, sc.bindings = Scope.supper.bindings.bind "dish" dish) ∧
    ∃ y, Scope.supper.nested "then" (execAll pairing .supper 0 .supper) = .ok (y, .supper) := by
  obtain ⟨⟨y, sc⟩, hrun⟩ : ∃ p, execAll supper .supper 0 .supper .supper = .ok p :=
    exists_ok_of_isOk (by decide +kernel)
  obtain ⟨⟨z, sc'⟩, hbranch⟩ :
      ∃ p, Scope.supper.nested "then" (execAll pairing .supper 0 .supper) = .ok p :=
    exists_ok_of_isOk (by decide +kernel)
  obtain ⟨-, hlist, hbody, -⟩ := scopes_close Setting.supper .supper .supper
  constructor
  · obtain ⟨-, hsegments, ⟨b, ⟨name, dish, hname, hdish⟩, c, hnothing, hnil⟩, -⟩ :=
      hlist _ _ _ _ hrun
    cases hname
    exact ⟨y, sc, hrun, hsegments, dish, (hnil.trans hnothing).trans hdish⟩
  · obtain rfl := hbody _ _ _ _ hbranch
    exact ⟨z, hbranch⟩

end Tabletop
