import TableStore.Proofs.Database.Creation

namespace TableStore

open FileSystem (Location)

/-- A value that a column of this name takes. An index takes integers only. -/
def Schema.Stores (schema : Schema) (indexed : String → Prop) (entry : String × Value) : Prop :=
  ∃ column ∈ schema.columns, column.name = entry.1 ∧ (∃ s, column.encode entry.2 = .ok s) ∧
    (indexed entry.1 → ∃ key, entry.2 = .int key)

namespace Database

variable {table : String} {schema : Schema} {indexed : String → Prop}
  {cells fitted : List (String × Value)}

/-- A literal that a column of this name takes once it is fitted to it. -/
def Acceptable (table : String) (schema : Schema) (indexed : String → Prop)
    (cell : String × Value) : Prop :=
  ∃ entry, fittedChange table schema cell = .ok entry ∧ schema.Stores indexed entry

theorem exists_fitted (h : ∀ cell ∈ cells, Acceptable table schema indexed cell) :
    ∃ fitted, cells.mapM (fittedChange table schema) = .ok fitted ∧
      ∀ entry ∈ fitted, schema.Stores indexed entry := by
  obtain ⟨fitted, hfitted⟩ := exists_mapM_eq_ok (f := fittedChange table schema) fun cell hcell ↦ by
    obtain ⟨entry, hentry, -⟩ := h cell hcell
    exact ⟨entry, hentry⟩
  refine ⟨fitted, hfitted, fun entry hentry ↦ ?_⟩
  obtain ⟨cell, hcell, hfit⟩ := exists_of_mem_mapM hfitted hentry
  obtain ⟨entry', hfit', hstores⟩ := h cell hcell
  obtain rfl := Except.ok.inj (hfit.symm.trans hfit')
  exact hstores

theorem foldlM_addCell_eq_ok {start : Row} (h : List.Forall₂ schema.Fits cells fitted)
    (hnodup : (start.entries.map Prod.fst ++ cells.map Prod.fst).Nodup) :
    ∃ row, cells.foldlM (addCell table schema) start = .ok row ∧
      row.entries = start.entries ++ fitted := by
  induction h generalizing start with
  | nil => exact ⟨start, rfl, by simp⟩
  | @cons cell entry cells rest hfits _ ih =>
    obtain ⟨hname, column, hcolumn, hgiven, hmade⟩ := hfits
    have hfresh : cell.1 ∉ start.entries.map Prod.fst := by
      rw [List.nodup_append] at hnodup
      exact fun hmem ↦ hnodup.2.2 _ hmem _ (by simp) rfl
    have hcontains : start.contains cell.1 = false := by
      rw [← Bool.not_eq_true, Row.contains_iff]
      exact hfresh
    have hadd : addCell table schema start cell = .ok (start.set cell.1 entry.2) := by
      rw [addCell, checkColumn_eq_ok.mpr ⟨hcolumn, hgiven⟩, ok_bind, hcontains, Bool.not_false,
        ensure_true, ok_bind, fit_eq_ok.mpr hmade]
      rfl
    have hset : (start.set cell.1 entry.2).entries = start.entries ++ [entry] := by
      rw [← hname]
      exact Row.put_of_not_mem (hname ▸ hfresh)
    obtain ⟨row, hrow, hentries⟩ := @ih (start.set cell.1 entry.2) (by
      rw [hset, List.map_append, List.map_singleton, hname, List.append_assoc]
      exact hnodup)
    refine ⟨row, ?_, by rw [hentries, hset, List.append_assoc, List.singleton_append]⟩
    rw [List.foldlM_cons, hadd, ok_bind, hrow]

theorem insertedRow_of_acceptable {columns : Option (List String)} {values : List Value}
    (hnames : (columns.getD schema.names).Perm schema.names)
    (hlength : (columns.getD schema.names).length = values.length)
    (h : ∀ cell ∈ (columns.getD schema.names).zip values, Acceptable table schema indexed cell) :
    ∃ row, insertedRow table schema columns values = .ok row ∧
      (row.entries.map Prod.fst).Perm schema.names ∧
      ∀ entry ∈ row.entries, schema.Stores indexed entry := by
  obtain ⟨fitted, hfitted, hstores⟩ := exists_fitted h
  have hzip : ((columns.getD schema.names).zip values).map Prod.fst = columns.getD schema.names :=
    List.map_fst_zip (Nat.le_of_eq hlength)
  have hfits := mapM_fittedChange_eq_ok.mp hfitted
  obtain ⟨row, hrow, hentries⟩ := @foldlM_addCell_eq_ok table _ _ _ Row.empty hfits (by
    rw [hzip]
    exact hnames.nodup_iff.mpr schema.nodup_names)
  replace hentries : row.entries = fitted := hentries
  refine ⟨row, ?_, ?_, hentries ▸ hstores⟩
  · rw [insertedRow, hlength, decide_eq_true rfl, ensure_true, ok_bind, hrow]
  · rw [hentries, Schema.names_of_fits hfits, hzip]
    exact hnames

end Database

variable {config : Config} {home : Location} {contents : Contents} {name : String} {table : Table}

theorem Table.Consistent.takes_of_stores (hconsistent : table.Consistent) {row : Row}
    (hnames : (row.entries.map Prod.fst).Perm table.schema.names)
    (h : ∀ entry ∈ row.entries, table.schema.Stores (· ∈ table.columns) entry) :
    table.Takes row := by
  have hget : ∀ entry ∈ row.entries, row.get? entry.1 = some entry.2 :=
    fun entry hentry ↦ lookup_of_mem row.nodup hentry
  have hentry : ∀ column ∈ table.schema.names, ∃ entry ∈ row.entries, entry.1 = column :=
    fun column hcolumn ↦ List.mem_map.mp (hnames.mem_iff.mpr hcolumn)
  have hcovers : table.schema.Covers row := by
    refine Schema.covers_iff.mpr fun column ↦ ?_
    rw [Row.contains_iff, hnames.mem_iff]
  refine ⟨Schema.exists_encodeRow_iff.mpr ⟨hcovers, fun column hcolumn ↦ ?_⟩, fun column hcolumn ↦ ?_⟩
  · obtain ⟨entry, hmem, hname⟩ := hentry column.name (List.mem_map_of_mem hcolumn)
    obtain ⟨own, hown, hname', hencode, -⟩ := h entry hmem
    obtain rfl := Schema.eq_of_name hcolumn hown (hname'.trans hname)
    rwa [← hname, hget entry hmem, Option.getD_some]
  · obtain ⟨entry, hmem, rfl⟩ := hentry column (hconsistent.mem_names hcolumn)
    obtain ⟨-, -, -, -, hkey⟩ := h entry hmem
    obtain ⟨key, hkey⟩ := hkey hcolumn
    exact ⟨key, by rw [hget entry hmem, hkey]⟩

theorem Schema.Keeps.stores {row : Row} (h : table.schema.Keeps row)
    (hkeys : ∀ column ∈ table.columns, ∃ key, row.get? column = some (.int key))
    {entry : String × Value} (hentry : entry ∈ row.entries) :
    table.schema.Stores (· ∈ table.columns) entry := by
  have hget : row.get? entry.1 = some entry.2 := lookup_of_mem row.nodup hentry
  have hmem : entry.1 ∈ table.schema.names := h.names ▸ List.mem_map_of_mem hentry
  obtain ⟨column, hcolumn, hname⟩ := List.mem_map.mp hmem
  obtain ⟨-, hcells⟩ := Schema.exists_encodeRow_iff.mp h.encoded
  refine ⟨column, hcolumn, hname, ?_, fun hindexed ↦ ?_⟩
  · have hcell := hcells column hcolumn
    rwa [hname, hget, Option.getD_some] at hcell
  · obtain ⟨key, hkey⟩ := hkeys _ hindexed
    exact ⟨key, Option.some.inj (hget.symm.trans hkey)⟩

namespace Database

theorem runs_insert (hc : contents.Consistent) (htable : contents name = some table)
    {columns : Option (List String)} {values : List Value}
    (hnames : (columns.getD table.schema.names).Perm table.schema.names)
    (hlength : (columns.getD table.schema.names).length = values.length)
    (h : ∀ cell ∈ (columns.getD table.schema.names).zip values,
      Acceptable name table.schema (· ∈ table.columns) cell) :
    ∃ contents', Runs config home contents (Database.insert name columns values)
      (.ok (.status ("Row inserted into " ++ name))) contents' := by
  obtain ⟨row, hrow, hcovers, hstores⟩ := insertedRow_of_acceptable hnames hlength h
  have htakes := (hc.tables htable).takes_of_stores hcovers hstores
  have hinsert := (@Carries.insert config home _ hc name row).runs
  rw [hc.insert_of_takes htable htakes] at hinsert
  exact ⟨_, Runs.bind_ok (Answers.ask fun store hstore ↦ hstore.schema_eq hc htable)
    (Runs.ofResult_bind hrow (Runs.bind_ok hinsert (Answers.pure _)))⟩

end Database

theorem Table.Takes.of_merge (hc : contents.Consistent) (htable : contents name = some table)
    {fitted : List (String × Value)}
    (h : ∀ entry ∈ fitted, table.schema.Stores (· ∈ table.columns) entry) {row : Row}
    (hrow : row ∈ table.rows) : table.Takes (row.merge fitted) := by
  have hkeeps := (hc.tables htable).rows row hrow
  apply (hc.tables htable).takes_of_stores
  · rw [Row.names_merge, hkeeps.names]
  · intro entry hentry
    rw [Row.merge_entries] at hentry
    obtain ⟨old, hold, rfl⟩ := List.mem_map.mp hentry
    cases hlookup : fitted.reverse.lookup old.1 with
    | some value => exact h _ (List.mem_reverse.mp (mem_of_lookup hlookup))
    | none => exact hkeeps.stores (fun _ hcolumn ↦ hc.keys_of_mem htable hrow hcolumn) hold

theorem Answers.exists_scan (hc : contents.Consistent) (htable : contents name = some table)
    {e : Expr} (hjudged : ∀ row ∈ table.rows, ∃ b, e.evaluate row = .ok b) :
    ∃ found, Answers config home contents (Operation.scan name (.ofExpr e)) (.ok found) ∧
      (found.map Prod.fst).Pairwise (· < ·) ∧
      ∀ entry ∈ found, entry.1 < table.rows.length ∧ entry.2 ∈ table.rows := by
  obtain ⟨judged, hjudged⟩ := exists_mapM_eq_ok hjudged
  have hfilter := map_filterRows e.evaluate 0 table.rows
  rw [hjudged, map_ok, map_eq_ok] at hfilter
  obtain ⟨found, hfound, -⟩ := hfilter
  have hscan := @Answers.scan config home _ hc name (.ofExpr e)
  rw [hc.scan_ofExpr htable, hfound, mapError_ok] at hscan
  obtain ⟨hordered, hin⟩ := filterRows_positions hfound
  refine ⟨found, hscan, hordered, fun entry hentry ↦ ?_⟩
  obtain ⟨-, hlt, hrow⟩ := hin entry hentry
  exact ⟨by omega, hrow⟩

namespace Database

/-- An update in which each literal fits changes all rows that its condition is true of. -/
theorem runs_update (hc : contents.Consistent) (htable : contents name = some table)
    {changes : List (String × Value)} {e : Expr}
    (h : ∀ change ∈ changes, Acceptable name table.schema (· ∈ table.columns) change)
    (hcolumns : ∀ column ∈ e.columns, column ∈ table.schema.names)
    (hjudged : ∀ row ∈ table.rows, ∃ b, e.evaluate row = .ok b) :
    ∃ outcome contents', Runs config home contents (Database.update name changes (some e))
      (.ok outcome) contents' := by
  obtain ⟨fitted, hfitted, hstores⟩ := exists_fitted h
  obtain ⟨found, hscan, -, hin⟩ := @Answers.exists_scan config home _ _ _ hc htable _ hjudged
  have hnames : ∀ change ∈ fitted, change.1 ∈ table.schema.names := by
    intro change hchange
    obtain ⟨before, -, hbefore⟩ := exists_of_mem_mapM hfitted hchange
    exact (fittedChange_eq_ok.mp hbefore).mem_names
  have htakes : ∀ entry ∈ found,
      entry.1 < table.rows.length ∧ table.Takes (changedRow fitted entry.2) := by
    intro entry hentry
    obtain ⟨hlt, hrow⟩ := hin entry hentry
    refine ⟨hlt, ?_⟩
    rw [changedRow_eq_merge]
    · exact .of_merge hc htable hstores hrow
    · rwa [((hc.tables htable).rows _ hrow).names]
  obtain ⟨contents', hloop⟩ := @Runs.updateAll config home _ _ _ (changedRow fitted) _ hc htable htakes
  exact ⟨_, contents', Runs.bind_ok (Answers.ask fun store hstore ↦ hstore.schema_eq hc htable)
    (Runs.ofResult_bind hfitted (Runs.ofResult_bind rfl (Runs.ofResult_bind
      (checkColumns_eq_ok.mpr hcolumns) (Runs.bind_ok hscan (Runs.bind_ok hloop (Answers.pure _))))))⟩

theorem runs_delete (hc : contents.Consistent) (htable : contents name = some table) {e : Expr}
    (hcolumns : ∀ column ∈ e.columns, column ∈ table.schema.names)
    (hjudged : ∀ row ∈ table.rows, ∃ b, e.evaluate row = .ok b) :
    ∃ outcome contents', Runs config home contents (Database.delete name (some e))
      (.ok outcome) contents' := by
  obtain ⟨found, hscan, hordered, hin⟩ := @Answers.exists_scan config home _ _ _ hc htable _ hjudged
  obtain ⟨contents', hloop⟩ := @Runs.deleteFound config home _ _ _ _ hc htable hordered
    fun entry hentry ↦ (hin entry hentry).1
  exact ⟨_, contents', Runs.bind_ok (Answers.ask fun store hstore ↦ hstore.schema_eq hc htable)
    (Runs.ofResult_bind rfl (Runs.ofResult_bind (checkColumns_eq_ok.mpr hcolumns)
      (Runs.bind_ok hscan (Runs.bind_ok hloop (Answers.pure _)))))⟩

end Database

end TableStore
