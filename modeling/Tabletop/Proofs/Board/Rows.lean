import Tabletop.Board.TableIndex
import Tabletop.Proofs.Board.Contents

/-!
# Which row a key finds

The rows of a table are found by an index that is made once: every key stands in it with the
position of a row, and the position is looked up in the table when a row is asked for.  Rows may
lack the key field and several may have one key.  What is found is what a search through the rows
would find, from the first one on.

Main statement: `TableIndex.row_finds_first`.
-/

namespace Tabletop

/-! ## The first row of a key -/

namespace DataTable

/-- A row is the first one of a table whose key field is there and has the key. -/
def IsFirst (t : DataTable) (key : Scalar) (r : Row) : Prop :=
  r.get? t.key = some key ∧
    ∃ before after, t.rows = before ++ r :: after ∧ ∀ other ∈ before, other.get? t.key ≠ some key

/-- A search through the rows finds exactly the first row of a key. -/
theorem find?_eq_some_iff {t : DataTable} {key : Scalar} {r : Row} :
    t.rows.find? (·.get? t.key = some key) = some r ↔ t.IsFirst key r := by
  simp [List.find?_eq_some_iff_append, IsFirst]

end DataTable

/-- Where no two tables share an id, every table is found by its own. -/
theorem Definition.table?_eq_some_iff {d : Definition} (hids : (d.tables.map (·.id)).Nodup)
    {id : String} {t : DataTable} : d.table? id = some t ↔ t ∈ d.tables ∧ t.id = id := by
  unfold table?
  constructor
  · intro h
    exact ⟨List.mem_of_find?_eq_some h, by simpa using List.find?_some h⟩
  · rintro ⟨hmem, rfl⟩
    have hsome : (d.tables.find? (·.id == t.id)).isSome := List.find?_isSome.2 ⟨t, hmem, by simp⟩
    obtain ⟨first, hfirst⟩ := Option.isSome_iff_exists.1 hsome
    have hid : first.id = t.id := by simpa using List.find?_some hfirst
    rw [hfirst, List.inj_on_of_nodup_map hids (List.mem_of_find?_eq_some hfirst) hmem hid]

namespace TableIndex

/-! ## The index of one table -/

/-- One more row comes in at its position, unless it has no key or an earlier row had the same. -/
theorem index_concat (field : String) (rows : List Row) (r : Row) :
    index field (rows ++ [r]) =
      match r.get? field with
      | some x =>
        if ((index field rows).lookup x).isSome then index field rows
        else index field rows ++ [(x, rows.length)]
      | none => index field rows := by
  simp only [index, List.zipIdx_append, List.foldl_append, Nat.zero_add]
  rfl

/-- The index of a table has for each key the position of the first row that has it. -/
theorem lookup_index (field : String) (rows : List Row) (key : Scalar) :
    (index field rows).lookup key = rows.findIdx? (·.get? field = some key) := by
  induction rows using List.reverseRecOn with
  | nil => rfl
  | append_singleton rows r ih =>
    rw [index_concat, List.findIdx?_append, ← ih]
    cases hfield : r.get? field with
    | none => simp [hfield]
    | some x =>
      by_cases hkey : x = key
      · subst hkey
        cases hold : (index field rows).lookup x with
        | none => simp [hold, hfield, List.lookup_append]
        | some position => simp [hold]
      · have hother : key ≠ x := Ne.symm hkey
        have hsame : (index field rows ++ [(x, rows.length)]).lookup key =
            (index field rows).lookup key := by
          simp [List.lookup_append, List.lookup_cons, beq_eq_false_iff_ne.2 hother]
        simp only [apply_ite (List.lookup key), hsame, ite_self]
        simp [hfield, hkey]

/-! ## All tables -/

variable {d : Definition} {table : String} {key : Scalar}

/-- The index has the positions of every table under the table's id. -/
theorem positions_get? (hids : (d.tables.map (·.id)).Nodup) (table : String) :
    (ofDefinition d).positions.get? table = (d.table? table).map (fun t => index t.key t.rows) := by
  have hkeys : ((d.tables.map (fun t => (t.id, index t.key t.rows))).map (·.1)).Nodup := by
    rwa [List.map_map]
  ext positions
  rw [ofDefinition, Dict.get?_ofList hkeys, List.mem_map, Option.map_eq_some_iff]
  simp only [Definition.table?_eq_some_iff hids, Prod.mk.injEq]
  exact exists_congr fun t => and_assoc.symm

/-- The row of a table that has a key, by a search through the rows. -/
def scan (d : Definition) (table : String) (key : Scalar) : Result Row := do
  let t ← orFault (d.table? table) (.missing .table table)
  orFault (t.rows.find? (·.get? t.key = some key)) (.missing .tableRow (rowText table key))

/-- A search in a table that is not declared reports the table missing. -/
theorem scan_none (ht : d.table? table = none) :
    scan d table key = .error (.missing .table table) := by
  rw [scan, ht]
  rfl

/-- A search in a declared table finds its first row of the key, or reports the row missing. -/
theorem scan_some {t : DataTable} (ht : d.table? table = some t) :
    scan d table key =
      orFault (t.rows.find? (·.get? t.key = some key))
        (.missing .tableRow (rowText table key)) := by
  rw [scan, ht]
  rfl

/-- Under different table ids, the index answers as a search through the rows does. -/
theorem row_eq_scan (hids : (d.tables.map (·.id)).Nodup) (table : String) (key : Scalar) :
    (ofDefinition d).row d table key = scan d table key := by
  unfold row
  rw [positions_get? hids]
  cases ht : d.table? table with
  | none =>
    rw [scan_none ht]
    rfl
  | some t =>
    rw [scan_some ht, List.find?_eq_bind_findIdx?_getElem?]
    change (do
      let position ← orFault ((index t.key t.rows).lookup key)
        (.missing .tableRow (rowText table key))
      orFault t.rows[position]? (.missing .table table)) = _
    rw [lookup_index]
    cases hposition : t.rows.findIdx? (·.get? t.key = some key) with
    | none => rfl
    | some position =>
      -- a position of the index is one of the table's, so the last look-up does not fail
      obtain ⟨hlt, -⟩ := List.findIdx?_eq_some_iff_getElem.1 hposition
      change orFault t.rows[position]? _ = orFault t.rows[position]? _
      rw [List.getElem?_eq_getElem hlt]
      rfl

/-- In a definition whose tables have different ids, the index answers every table and key as a
search through the rows does.  Of a table that is there it finds the first row whose key field is
there and has the key; where no row has it, that row is reported missing, and where no table has the
id, the table is. -/
theorem row_finds_first (d : Definition) (hids : (d.tables.map (·.id)).Nodup) (table : String)
    (key : Scalar) :
    (ofDefinition d).row d table key = scan d table key ∧
    (∀ t ∈ d.tables, t.id = table →
      (∀ r, (ofDefinition d).row d table key = .ok r ↔ t.IsFirst key r) ∧
      ((∀ r ∈ t.rows, r.get? t.key ≠ some key) →
        (ofDefinition d).row d table key = .error (.missing .tableRow (rowText table key)))) ∧
    ((∀ t ∈ d.tables, t.id ≠ table) →
      (ofDefinition d).row d table key = .error (.missing .table table)) ∧
    ∀ fault, (ofDefinition d).row d table key = .error fault →
      fault.code = "MISSING_DEFINITION" := by
  rw [row_eq_scan hids]
  refine ⟨rfl, fun t hmem hid => ?_, fun hnone => ?_, fun fault hfault => ?_⟩
  · have ht := (Definition.table?_eq_some_iff hids).2 ⟨hmem, hid⟩
    rw [scan_some ht]
    refine ⟨fun r => ?_, fun hrows => ?_⟩
    · rw [← DataTable.find?_eq_some_iff]
      cases t.rows.find? (·.get? t.key = some key) <;> simp [orFault]
    · have hnone : t.rows.find? (·.get? t.key = some key) = none := by simpa using hrows
      rw [hnone]
      rfl
  · refine scan_none (List.find?_eq_none.2 fun t ht => ?_)
    simpa using hnone t ht
  · cases ht : d.table? table with
    | none =>
      rw [scan_none ht] at hfault
      cases hfault
      rfl
    | some t =>
      rw [scan_some ht] at hfault
      cases hfound : t.rows.find? (·.get? t.key = some key) with
      | none =>
        rw [hfound] at hfault
        cases hfault
        rfl
      | some r =>
        rw [hfound] at hfault
        cases hfault

/-- Of the prices of a market the second is the first one for pepper: the one before lacks the good,
and the one after repeats it.  Salt has no price there, and there is no table of wares. -/
theorem row_finds_pepper :
    let pepper (price : Int64) : Row := .ofList [("good", .str "pepper"), ("price", .int price)]
    let prices : List Row := [.ofList [("price", .int 9)], pepper 3, pepper 4]
    let d := { Definition.minimal "market" with
      tables := [{ id := "prices", key := "good", rows := prices }] }
    (ofDefinition d).row d "prices" (.str "pepper") = .ok (pepper 3) ∧
    (ofDefinition d).row d "prices" (.str "salt") = .error (.missing .tableRow "prices[salt]") ∧
    (ofDefinition d).row d "wares" (.str "pepper") = .error (.missing .table "wares") := by
  intro pepper prices d
  have hids : (d.tables.map (·.id)).Nodup := by decide
  have hthere :=
    (row_finds_first d hids "prices" (.str "pepper")).2.1 _ (List.mem_singleton_self _) rfl
  have hrow := (row_finds_first d hids "prices" (.str "salt")).2.1 _ (List.mem_singleton_self _) rfl
  have htable := (row_finds_first d hids "wares" (.str "pepper")).2.2.1
  refine ⟨(hthere.1 _).2 ⟨by decide +kernel, ?_⟩, hrow.2 (by decide +kernel), htable (by decide)⟩
  exact ⟨prices.take 1, prices.drop 2, rfl, by decide +kernel⟩

end TableIndex

end Tabletop
