import TableStore.Proofs.Database.Rows
import TableStore.Proofs.Store.Reachable

namespace TableStore

open FileSystem (Location)
open Store (isName)

section

variable {config : Config} {home : Location} {contents contents' : Contents} {store store' : Store}
  {name other : String} {table : Table}

theorem Carries.of_run {op : Operation Unit} {next : Except Error Contents}
    (h : Carries config home contents op next) (hstore : Holds config home contents store)
    (hrun : op.run store = (.ok (), store')) :
    ∃ contents', next = .ok contents' ∧ Holds config home contents' store' := by
  obtain ⟨hresult, hafter⟩ := h.runs store hstore
  rw [hrun] at hresult hafter
  cases next with
  | error e => cases hresult
  | ok contents' => exact ⟨contents', rfl, hafter⟩

theorem Answers.of_run {α : Type} {op : Operation α} {result : Except Error α} {a : α}
    (h : Answers config home contents op result) (hstore : Holds config home contents store)
    (hrun : op.run store = (.ok a, store')) : result = .ok a ∧ Holds config home contents store' := by
  obtain ⟨hresult, hafter⟩ := h store hstore
  rw [hrun] at hresult hafter
  exact ⟨hresult.symm, hafter⟩

namespace Contents

theorem insert_eq_ok {row : Row} (h : contents.insert name row = .ok contents') :
    ∃ table record, contents.table name = .ok table ∧ table.schema.encodeRow row = .ok record ∧
      contents' = contents.set name (table.insertRow (row.project table.schema.names)) := by
  obtain ⟨table, htable, h⟩ := bind_eq_ok.mp h
  obtain ⟨record, hrecord, h⟩ := bind_eq_ok.mp h
  obtain ⟨keys, -, h⟩ := bind_eq_ok.mp h
  exact ⟨table, record, htable, encode_eq_ok.mp hrecord, (Except.ok.inj h).symm⟩

theorem update_eq_ok {position : Nat} {row : Row}
    (h : contents.update name position row = .ok contents') :
    ∃ table old record, contents.table name = .ok table ∧ table.rows[position]? = some old ∧
      table.schema.encodeRow row = .ok record ∧
      contents' = contents.set name (table.updateRow position old (row.project table.schema.names)) := by
  obtain ⟨table, htable, h⟩ := bind_eq_ok.mp h
  obtain ⟨old, hold, h⟩ := bind_eq_ok.mp h
  obtain ⟨record, hrecord, h⟩ := bind_eq_ok.mp h
  obtain ⟨moves, -, h⟩ := bind_eq_ok.mp h
  exact ⟨table, old, record, htable, rowAt_eq_ok.mp hold, encode_eq_ok.mp hrecord,
    (Except.ok.inj h).symm⟩

theorem delete_eq_ok {position : Nat} (h : contents.delete name position = .ok contents') :
    ∃ table old, contents.table name = .ok table ∧ table.rows[position]? = some old ∧
      contents' = contents.set name (table.deleteRow position old) := by
  obtain ⟨table, htable, h⟩ := bind_eq_ok.mp h
  obtain ⟨old, hold, h⟩ := bind_eq_ok.mp h
  obtain ⟨keys, -, h⟩ := bind_eq_ok.mp h
  exact ⟨table, old, htable, rowAt_eq_ok.mp hold, (Except.ok.inj h).symm⟩

end Contents

/-- The store holds the tables, except that one of them has other rows. -/
def HoldsRows (config : Config) (home : Location) (contents : Contents) (name : String)
    (schema : Schema) (rows : List Row) (store : Store) : Prop :=
  ∃ table, table.schema = schema ∧ table.rows = rows ∧ (contents.set name table).Consistent ∧
    Holds config home (contents.set name table) store

theorem Holds.holdsRows (hstore : Holds config home contents store) (hc : contents.Consistent)
    (htable : contents name = some table) :
    HoldsRows config home contents name table.schema table.rows store := by
  refine ⟨table, rfl, rfl, ?_, ?_⟩
  · rwa [Contents.set_eq_self htable]
  · rwa [Contents.set_eq_self htable]

theorem HoldsRows.rows_eq {schema : Schema} {rows : List Row}
    (h : HoldsRows config home contents name schema rows store) (hname : isName name = true) :
    store.rows name = .ok (schema, rows) := by
  obtain ⟨table, rfl, rfl, hc, hstore⟩ := h
  rw [hstore.rows hc, Contents.table_eq_ok.mpr ⟨hname, Contents.set_self _ _ _⟩, map_ok]

theorem HoldsRows.rows_of_ne {schema : Schema} {rows : List Row}
    (h : HoldsRows config home contents name schema rows store') (hc : contents.Consistent)
    (hstore : Holds config home contents store) (hother : other ≠ name) :
    store'.rows other = store.rows other := by
  obtain ⟨table, -, -, hc', hstore'⟩ := h
  rw [hstore'.rows hc', hstore.rows hc, Contents.table, Contents.table,
    Contents.set_of_ne table hother]

theorem accepts_of_filterRows {ε : Type} {accepts : Row → Except ε Bool} {position : Nat}
    {rows : List Row} {found : List (Nat × Row)}
    (h : Operation.filterRows (fun _ ↦ true) accepts position rows = .ok found) :
    ∀ row ∈ rows, ∃ b, accepts row = .ok b := by
  induction rows generalizing position found with
  | nil => simp
  | cons row rows ih =>
    obtain ⟨b, hb, h⟩ := bind_eq_ok.mp h
    obtain ⟨rest, hrest, -⟩ := bind_eq_ok.mp h
    exact List.forall_mem_cons.mpr ⟨⟨b, hb⟩, ih hrest⟩

/-- The rows that a filter accepts are changed one after the other, each at its position. -/
theorem update_found {ε : Type} {accepts : Row → Except ε Bool} (change : Row → Row)
    (front : List Row) {rows : List Row} {found : List (Nat × Row)} (hc : contents.Consistent)
    (hstore : Holds config home contents store) (htable : contents name = some table)
    (hrows : table.rows = front ++ rows)
    (hchange : ∀ row ∈ rows, (change row).entries.map Prod.fst = table.schema.names)
    (hfound : Operation.filterRows (fun _ ↦ true) accepts front.length rows = .ok found)
    (hrun : (found.forM fun entry ↦ Operation.update name entry.1 (change entry.2)).run store =
      (.ok (), store')) :
    HoldsRows config home contents name table.schema (front ++ rows.map fun row ↦
      if (accepts row).toOption = some true then change row else row) store' := by
  -- The rows in `front` are done: the positions of the others do not move.
  induction rows generalizing contents table front found store with
  | nil =>
    obtain rfl := Except.ok.inj hfound
    obtain rfl := (Prod.mk.inj hrun).2
    rw [List.map_nil, ← hrows]
    exact hstore.holdsRows hc htable
  | cons row rows ih =>
    obtain ⟨b, hb, hfound⟩ := bind_eq_ok.mp hfound
    obtain ⟨rest, hrest, hfound⟩ := bind_eq_ok.mp hfound
    obtain rfl := Except.ok.inj hfound
    have htail : ∀ other ∈ rows, (change other).entries.map Prod.fst = table.schema.names :=
      fun other hother ↦ hchange other (List.mem_cons_of_mem _ hother)
    have hnext : ∀ done : Row, (front ++ [done]).length = front.length + 1 :=
      fun _ ↦ List.length_append
    rw [List.map_cons, hb, List.append_cons]
    cases b with
    | false =>
      apply ih (front ++ [row]) hc hstore htable _ htail _ hrun
      · simp [hrows]
      · rw [hnext]
        exact hrest
    | true =>
      obtain ⟨⟨⟩, middle, hupdate, hrun⟩ := Operation.run_bind_eq_ok.mp hrun
      obtain ⟨contents₁, hcontents, hstore₁⟩ :=
        (Carries.update hc name front.length (change row)).of_run hstore hupdate
      have hc₁ := hc.update hcontents
      obtain ⟨current, old, record, hcurrent, -, -, rfl⟩ := Contents.update_eq_ok hcontents
      obtain rfl := Option.some.inj ((hc.table_eq_ok.mp hcurrent).symm.trans htable)
      rw [Row.project_names (hchange row (by simp))] at hc₁ hstore₁
      have hdone : (current.updateRow front.length old (change row)).rows =
          (front ++ [change row]) ++ rows := by
        simp [Table.updateRow, Table.change, hrows]
      rw [← hnext (change row)] at hrest
      obtain ⟨table', hschema, hrows', hc', hstore'⟩ :=
        ih (front ++ [change row]) hc₁ hstore₁ (Contents.set_self _ _ _) hdone htail hrest hrun
      rw [Contents.set_set] at hc' hstore'
      exact ⟨table', hschema, hrows', hc', hstore'⟩

/-- The rows that a filter accepts are removed, the last one first. -/
theorem delete_found {ε : Type} {accepts : Row → Except ε Bool} (front : List Row)
    {rows : List Row} {found : List (Nat × Row)} (hc : contents.Consistent)
    (hstore : Holds config home contents store) (htable : contents name = some table)
    (hrows : table.rows = front ++ rows)
    (hfound : Operation.filterRows (fun _ ↦ true) accepts front.length rows = .ok found)
    (hrun : (found.reverse.forM fun entry ↦ Operation.delete name entry.1).run store =
      (.ok (), store')) :
    HoldsRows config home contents name table.schema (front ++ rows.filter fun row ↦
      (accepts row).toOption = some false) store' := by
  induction rows generalizing front found store' with
  | nil =>
    obtain rfl := Except.ok.inj hfound
    obtain rfl := (Prod.mk.inj hrun).2
    rw [List.filter_nil, ← hrows]
    exact hstore.holdsRows hc htable
  | cons row rows ih =>
    obtain ⟨b, hb, hfound⟩ := bind_eq_ok.mp hfound
    obtain ⟨rest, hrest, hfound⟩ := bind_eq_ok.mp hfound
    obtain rfl := Except.ok.inj hfound
    have hnext : (front ++ [row]).length = front.length + 1 := List.length_append
    have hrows' : table.rows = (front ++ [row]) ++ rows := by simp [hrows]
    rw [← hnext] at hrest
    cases b with
    | false =>
      obtain ⟨table', hschema, hrows', hheld⟩ := ih (front ++ [row]) hrows' hrest hrun
      exact ⟨table', hschema, by simp [hrows', hb, Except.toOption], hheld⟩
    | true =>
      simp only [if_true, List.reverse_cons, List.forM_eq_forM, List.forM_append] at hrun
      obtain ⟨⟨⟩, middle, hrun, hlast⟩ := Operation.run_bind_eq_ok.mp hrun
      -- The rows behind this one are gone already, and this one has its old position.
      obtain ⟨table₁, hschema, hrows₁, hc₁, hstore₁⟩ := ih (front ++ [row]) hrows' hrest hrun
      obtain ⟨⟨⟩, last, hdelete, hlast⟩ := Operation.run_bind_eq_ok.mp hlast
      obtain rfl := (Prod.mk.inj hlast).2
      obtain ⟨contents₂, hcontents, hstore₂⟩ :=
        (Carries.delete hc₁ name front.length).of_run hstore₁ hdelete
      have hc₂ := hc₁.delete hcontents
      obtain ⟨current, old, hcurrent, -, rfl⟩ := Contents.delete_eq_ok hcontents
      have hsame := (hc₁.table_eq_ok.mp hcurrent).symm.trans (Contents.set_self _ _ _)
      obtain rfl := Option.some.inj hsame
      rw [Contents.set_set] at hc₂ hstore₂
      refine ⟨current.deleteRow front.length old, hschema, ?_, hc₂, hstore₂⟩
      simp [Table.deleteRow, Table.change, hrows₁, hb, Except.toOption,
        List.eraseIdx_append_of_length_le]

theorem Holds.schema_eq (h : Holds config home contents store) (hc : contents.Consistent)
    (htable : contents name = some table) : store.schema name = .ok table.schema := by
  rw [Store.schema, h.document_eq hc htable]
  rfl

theorem Holds.schema_eq_ok {schema : Schema} (h : Holds config home contents store)
    (hc : contents.Consistent) (hschema : store.schema name = .ok schema) :
    ∃ table, contents name = some table ∧ table.schema = schema := by
  rw [Store.schema, h.document hc] at hschema
  cases htable : contents.table name with
  | error e =>
    rw [htable] at hschema
    cases hschema
  | ok table =>
    rw [htable] at hschema
    exact ⟨table, hc.table_eq_ok.mp htable, Except.ok.inj hschema⟩

theorem Holds.rows_eq_ok {schema : Schema} {rows : List Row}
    (h : Holds config home contents store) (hc : contents.Consistent)
    (hrows : store.rows name = .ok (schema, rows)) :
    ∃ table, contents name = some table ∧ table.schema = schema ∧ table.rows = rows := by
  rw [h.rows hc] at hrows
  obtain ⟨table, htable, heq⟩ := map_eq_ok.mp hrows
  obtain ⟨rfl, rfl⟩ := Prod.mk.inj heq
  exact ⟨table, hc.table_eq_ok.mp htable, rfl, rfl⟩

theorem Holds.hasIndex_iff (h : Holds config home contents store) (hc : contents.Consistent)
    (htable : contents name = some table) {column : String} :
    store.hasIndex name column = true ↔ column ∈ table.columns := by
  rw [h.hasIndex hc, Contents.index?_of_some htable, isSome_lookup_iff, Table.mem_columns]

theorem found_of_scan {e : Expr} {found : List (Nat × Row)} (hc : contents.Consistent)
    (hstore : Holds config home contents store) (htable : contents name = some table)
    (hrun : (Operation.scan name (.ofExpr e)).run store = (.ok found, store')) :
    Operation.filterRows (fun _ ↦ true) e.evaluate 0 table.rows = .ok found ∧
      Holds config home contents store' := by
  obtain ⟨hscan, hstore'⟩ := (Answers.scan hc name (.ofExpr e)).of_run hstore hrun
  refine ⟨?_, hstore'⟩
  rw [hc.scan_ofExpr htable] at hscan
  exact mapError_eq_ok.mp hscan

end

end TableStore
