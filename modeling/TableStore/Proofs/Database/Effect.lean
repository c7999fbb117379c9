import TableStore.Proofs.Database.Success
import TableStore.Proofs.Number.Denotation
import TableStore.Proofs.Store.Stocked

namespace TableStore

open FileSystem (Location)

section

variable {config : Config} {home : Location} {contents : Contents} {store store' : Store}
  {name : String}

namespace Database

def changedTable? : Statement → Option String
  | .insert table _ _ => some table
  | .update table _ _ => some table
  | .delete table _ => some table
  | _ => none

/-- What a statement makes of the rows of its table. A condition is about the rows as they were. -/
def Leaves (schema : Schema) (rows rows' : List Row) : Statement → Prop
  | .insert _ columns values =>
    ∃ cells row, (columns.getD schema.names).length = values.length ∧
      List.Forall₂ schema.Fits ((columns.getD schema.names).zip values) cells ∧
      row.entries.Perm cells ∧ row.entries.map Prod.fst = schema.names ∧ rows' = rows ++ [row]
  | .update _ changes condition =>
    ∃ e fitted, condition = some e ∧ List.Forall₂ schema.Fits changes fitted ∧
      (∀ row ∈ rows, ∃ b, e.evaluate row = .ok b) ∧
      rows' = rows.map fun row ↦
        if (e.evaluate row).toOption = some true then row.merge fitted else row
  | .delete _ condition =>
    ∃ e, condition = some e ∧ (∀ row ∈ rows, ∃ b, e.evaluate row = .ok b) ∧
      rows' = rows.filter fun row ↦ (e.evaluate row).toOption = some false
  | _ => True

variable {outcome : Outcome}

theorem required_eq_ok {condition : Option Expr} {e : Expr} (h : required condition = .ok e) :
    condition = some e := by
  cases condition with
  | none => cases h
  | some other => rw [Except.ok.inj h]

theorem leaves_insert {columns : Option (List String)} {values : List Value}
    (hc : contents.Consistent) (hstore : Holds config home contents store)
    (hrun : (insert name columns values).run store = (.ok outcome, store')) :
    ∃ table rows', contents name = some table ∧
      Leaves table.schema table.rows rows' (.insert name columns values) ∧
      HoldsRows config home contents name table.schema rows' store' := by
  obtain ⟨schema, hschema, hrun⟩ := Operation.run_ask_bind_eq_ok.mp hrun
  obtain ⟨table, htable, rfl⟩ := hstore.schema_eq_ok hc hschema
  obtain ⟨row, hrow, hrun⟩ := Operation.run_ask_bind_eq_ok.mp hrun
  obtain ⟨⟨⟩, _, hinsert, hrun⟩ := Operation.run_bind_eq_ok.mp hrun
  obtain rfl := (Prod.mk.inj hrun).2
  obtain ⟨contents', hcontents, hstore'⟩ := (Carries.insert hc name row).of_run hstore hinsert
  have hc' := hc.insert hcontents
  obtain ⟨current, record, hcurrent, hrecord, rfl⟩ := Contents.insert_eq_ok hcontents
  obtain rfl := Option.some.inj ((hc.table_eq_ok.mp hcurrent).symm.trans htable)
  obtain ⟨hlength, hcells⟩ := insertedRow_eq_ok hrow
  obtain ⟨hcovers, -⟩ := Schema.encodeRow_eq_ok.mp hrecord
  refine ⟨current, _, htable,
    ⟨row.entries, row.project current.schema.names, hlength, mapM_fittedChange_eq_ok.mp hcells, ?_, ?_, rfl⟩,
    ⟨current.insertRow (row.project current.schema.names), rfl, rfl, hc', hstore'⟩⟩
  · exact entries_perm hcovers
  · exact hcovers.names_project

theorem leaves_update {changes : List (String × Value)} {condition : Option Expr}
    (hc : contents.Consistent) (hstore : Holds config home contents store)
    (hrun : (update name changes condition).run store = (.ok outcome, store')) :
    ∃ table rows', contents name = some table ∧
      Leaves table.schema table.rows rows' (.update name changes condition) ∧
      HoldsRows config home contents name table.schema rows' store' := by
  obtain ⟨schema, hschema, hrun⟩ := Operation.run_ask_bind_eq_ok.mp hrun
  obtain ⟨table, htable, rfl⟩ := hstore.schema_eq_ok hc hschema
  obtain ⟨fitted, hfitted, hrun⟩ := Operation.run_ask_bind_eq_ok.mp hrun
  obtain ⟨e, hcondition, hrun⟩ := Operation.run_ask_bind_eq_ok.mp hrun
  obtain ⟨⟨⟩, -, hrun⟩ := Operation.run_ask_bind_eq_ok.mp hrun
  obtain ⟨found, middle, hscan, hrun⟩ := Operation.run_bind_eq_ok.mp hrun
  obtain ⟨hfound, hmiddle⟩ := found_of_scan hc hstore htable hscan
  obtain ⟨⟨⟩, _, hloop, hrun⟩ := Operation.run_bind_eq_ok.mp hrun
  obtain rfl := (Prod.mk.inj hrun).2
  have hnames : ∀ row ∈ table.rows, row.entries.map Prod.fst = table.schema.names :=
    fun row hrow ↦ ((hc.tables htable).rows row hrow).names
  have hmerge : ∀ row ∈ table.rows, changedRow fitted row = row.merge fitted := by
    intro row hrow
    apply changedRow_eq_merge
    intro change hchange
    obtain ⟨before, -, hbefore⟩ := exists_of_mem_mapM hfitted hchange
    rw [hnames row hrow]
    exact (fittedChange_eq_ok.mp hbefore).mem_names
  have hchanged : ∀ row ∈ table.rows, (changedRow fitted row).entries.map Prod.fst =
      table.schema.names := by
    intro row hrow
    rw [hmerge row hrow, Row.names_merge]
    exact hnames row hrow
  refine ⟨table, _, htable, ⟨e, fitted, required_eq_ok hcondition,
    mapM_fittedChange_eq_ok.mp hfitted, accepts_of_filterRows hfound, rfl⟩, ?_⟩
  have hdone := update_found (changedRow fitted) [] hc hmiddle htable rfl hchanged hfound hloop
  rw [List.nil_append] at hdone
  rwa [List.map_congr_left fun row hrow ↦ by rw [← hmerge row hrow]]

theorem leaves_delete {condition : Option Expr} (hc : contents.Consistent)
    (hstore : Holds config home contents store)
    (hrun : (delete name condition).run store = (.ok outcome, store')) :
    ∃ table rows', contents name = some table ∧
      Leaves table.schema table.rows rows' (.delete name condition) ∧
      HoldsRows config home contents name table.schema rows' store' := by
  obtain ⟨schema, hschema, hrun⟩ := Operation.run_ask_bind_eq_ok.mp hrun
  obtain ⟨table, htable, rfl⟩ := hstore.schema_eq_ok hc hschema
  obtain ⟨e, hcondition, hrun⟩ := Operation.run_ask_bind_eq_ok.mp hrun
  obtain ⟨⟨⟩, -, hrun⟩ := Operation.run_ask_bind_eq_ok.mp hrun
  obtain ⟨found, middle, hscan, hrun⟩ := Operation.run_bind_eq_ok.mp hrun
  obtain ⟨hfound, hmiddle⟩ := found_of_scan hc hstore htable hscan
  obtain ⟨⟨⟩, _, hloop, hrun⟩ := Operation.run_bind_eq_ok.mp hrun
  obtain rfl := (Prod.mk.inj hrun).2
  refine ⟨table, _, htable, ⟨e, required_eq_ok hcondition, accepts_of_filterRows hfound, rfl⟩, ?_⟩
  exact delete_found [] hc hmiddle htable rfl hfound hloop

theorem leaves_run {statement : Statement} (hc : contents.Consistent)
    (hstore : Holds config home contents store) (htable : changedTable? statement = some name)
    (hrun : (run statement).run store = (.ok outcome, store')) :
    ∃ table rows', contents name = some table ∧ Leaves table.schema table.rows rows' statement ∧
      HoldsRows config home contents name table.schema rows' store' := by
  cases statement with
  | insert table columns values =>
    obtain rfl := Option.some.inj htable
    exact leaves_insert hc hstore hrun
  | update table changes condition =>
    obtain rfl := Option.some.inj htable
    exact leaves_update hc hstore hrun
  | delete table condition =>
    obtain rfl := Option.some.inj htable
    exact leaves_delete hc hstore hrun
  | select => cases htable
  | createTable => cases htable
  | dropTable => cases htable

/-- A statement that succeeds changes the rows of its table as a list, and no other table. -/
theorem execute_effect (h : Reachable store) {text : String} {statement : Statement}
    (hparse : Statement.ofText text = .ok statement) (htable : changedTable? statement = some name)
    (hrun : (execute text).run store = (.ok outcome, store')) :
    ∃ schema rows rows', store.rows name = .ok (schema, rows) ∧
      store'.rows name = .ok (schema, rows') ∧ Leaves schema rows rows' statement ∧
      ∀ other, other ≠ name → store'.rows other = store.rows other := by
  obtain ⟨config, home, contents, -, hc, hstore⟩ := h.sane
  obtain ⟨parsed, hparsed, hrun⟩ := Operation.run_ask_bind_eq_ok.mp hrun
  rw [hparse, mapError_ok] at hparsed
  obtain rfl := Except.ok.inj hparsed
  obtain ⟨table, rows', hcontents, hleaves, hafter⟩ := leaves_run hc hstore htable hrun
  have hname := hc.named hcontents
  exact ⟨table.schema, table.rows, rows', (hstore.holdsRows hc hcontents).rows_eq hname,
    hafter.rows_eq hname, hleaves, fun other hother ↦ hafter.rows_of_ne hc hstore hother⟩

end Database

namespace Stocked

open Database

variable {schema : Schema} {rows : List Row} {columns : List String}

theorem exists_insert (h : Stocked name schema rows columns store) {given : Option (List String)}
    {values : List Value} (hnames : (given.getD schema.names).Perm schema.names)
    (hlength : (given.getD schema.names).length = values.length)
    (hcells : ∀ cell ∈ (given.getD schema.names).zip values,
      Acceptable name schema (· ∈ columns) cell) :
    ∃ outcome store', (run (.insert name given values)).run store = (.ok outcome, store') := by
  obtain ⟨-, home, contents, table, hc, hstore, htable, rfl, rfl, hcolumns⟩ := h
  have hindexed : (· ∈ table.columns) = (· ∈ columns) := funext fun other ↦ propext (hcolumns other)
  rw [← hindexed] at hcells
  obtain ⟨contents', hruns⟩ := @runs_insert {} home _ _ _ hc htable _ _ hnames hlength hcells
  exact ⟨_, Operation.exists_run_eq_ok (hruns store hstore).1⟩

theorem exists_update (h : Stocked name schema rows columns store) {changes : List (String × Value)}
    {e : Expr} (hchanges : ∀ change ∈ changes, Acceptable name schema (· ∈ columns) change)
    (he : ∀ column ∈ e.columns, column ∈ schema.names)
    (hjudged : ∀ row ∈ rows, ∃ b, e.evaluate row = .ok b) :
    ∃ outcome store', (run (.update name changes (some e))).run store = (.ok outcome, store') := by
  obtain ⟨-, home, contents, table, hc, hstore, htable, rfl, rfl, hcolumns⟩ := h
  have hindexed : (· ∈ table.columns) = (· ∈ columns) := funext fun other ↦ propext (hcolumns other)
  rw [← hindexed] at hchanges
  obtain ⟨outcome, contents', hruns⟩ := @runs_update {} home _ _ _ hc htable _ _ hchanges he hjudged
  exact ⟨outcome, Operation.exists_run_eq_ok (hruns store hstore).1⟩

theorem exists_delete (h : Stocked name schema rows columns store) {e : Expr}
    (he : ∀ column ∈ e.columns, column ∈ schema.names)
    (hjudged : ∀ row ∈ rows, ∃ b, e.evaluate row = .ok b) :
    ∃ outcome store', (run (.delete name (some e))).run store = (.ok outcome, store') := by
  obtain ⟨-, home, contents, table, hc, hstore, htable, rfl, rfl, -⟩ := h
  obtain ⟨outcome, contents', hruns⟩ := @runs_delete {} home _ _ _ hc htable _ he hjudged
  exact ⟨outcome, Operation.exists_run_eq_ok (hruns store hstore).1⟩

end Stocked

namespace Database

def weighed : Schema where
  columns := [{ name := "Id", type := .int }, { name := "weight", type := .float }]
  nodup := by decide

def weighedRow (id weight : Int64) : Row :=
  (Row.empty.set "Id" (.int id)).set "weight" (.float (.ofInt weight.toInt))

theorem keeps_weighedRow (id weight : Int64) : weighed.Keeps (weighedRow id weight) := by
  obtain ⟨x, hx⟩ := Double.exists_ofInt weight
  rw [weighedRow, hx]
  exact ⟨rfl, _, rfl⟩

theorem fits_weight (weight : Int64) :
    weighed.Fits ("weight", .int weight) ("weight", .float (.ofInt weight.toInt)) :=
  ⟨rfl, { name := "weight", type := .float }, by decide, rfl, .float weight⟩

theorem fits_id (id : Int64) : weighed.Fits ("Id", .int id) ("Id", .int id) :=
  ⟨rfl, { name := "Id", type := .int }, by decide, rfl, .same (by simp [Value.type?])⟩

theorem acceptable_weight (weight : Int64) :
    Acceptable "t" weighed (· ∈ ["Id"]) ("weight", .int weight) := by
  obtain ⟨x, hx⟩ := Double.exists_ofInt weight
  refine ⟨_, fittedChange_eq_ok.mpr (fits_weight weight), { name := "weight", type := .float },
    by decide, rfl, ?_, fun hindexed ↦ by simp at hindexed⟩
  rw [hx]
  exact ⟨_, rfl⟩

theorem acceptable_id (id : Int64) : Acceptable "t" weighed (· ∈ ["Id"]) ("Id", .int id) :=
  ⟨_, fittedChange_eq_ok.mpr (fits_id id), { name := "Id", type := .int }, by decide, rfl,
    ⟨_, rfl⟩, fun _ ↦ ⟨id, rfl⟩⟩

theorem exists_weighed : ∃ store, Stocked "t" weighed
    [weighedRow 7 1, weighedRow 8 2, weighedRow 7 3] ["Id"] store := by
  have hempty := @Stocked.createTable "t" weighed (by decide) (by decide) (by decide +kernel)
  have hindexed := hempty.createIndex (show { name := "Id", type := .int } ∈ _ by decide) rfl
    (by decide +kernel)
  refine hindexed.insertAll fun row hrow ↦ ?_
  obtain ⟨entry, -, rfl⟩ : ∃ entry ∈ [((7 : Int64), (1 : Int64)), (8, 2), (7, 3)],
      weighedRow entry.1 entry.2 = row := List.mem_map.mp hrow
  refine ⟨keeps_weighedRow _ _, fun column hcolumn ↦ ⟨entry.1, ?_⟩⟩
  rw [List.mem_singleton.mp hcolumn]
  rfl

theorem execute_effect_weighed : ∃ store, Reachable store ∧ store.hasIndex "t" "Id" = true ∧
    store.rows "t" = .ok (weighed, [weighedRow 7 1, weighedRow 8 2, weighedRow 7 3]) ∧
    (∃ outcome store', (execute "UPDATE t SET weight = 0, weight = 4 WHERE Id = 7").run store =
        (.ok outcome, store') ∧
      store'.rows "t" = .ok (weighed, [weighedRow 7 4, weighedRow 8 2, weighedRow 7 4])) ∧
    (∃ outcome store', (execute "DELETE FROM t WHERE Id = 7").run store = (.ok outcome, store') ∧
      store'.rows "t" = .ok (weighed, [weighedRow 8 2])) ∧
    ∃ outcome store', (execute "INSERT INTO t (weight, Id) VALUES (5, 9)").run store =
        (.ok outcome, store') ∧
      store'.rows "t" =
        .ok (weighed, [weighedRow 7 1, weighedRow 8 2, weighedRow 7 3, weighedRow 9 5]) := by
  obtain ⟨store, hstore⟩ := exists_weighed
  have hjudged : ∀ row ∈ [weighedRow 7 1, weighedRow 8 2, weighedRow 7 3],
      ∃ b, idSeven.evaluate row = .ok b := by
    intro row hrow
    obtain ⟨entry, -, rfl⟩ : ∃ entry ∈ [((7 : Int64), (1 : Int64)), (8, 2), (7, 3)],
      weighedRow entry.1 entry.2 = row := List.mem_map.mp hrow
    exact ⟨_, rfl⟩
  refine ⟨store, hstore.1, hstore.hasIndex (List.mem_singleton_self _), hstore.rows_eq, ?_, ?_, ?_⟩
  · have hparse : Statement.ofText "UPDATE t SET weight = 0, weight = 4 WHERE Id = 7" =
        .ok (.update "t" [("weight", .int 0), ("weight", .int 4)] (some idSeven)) :=
      toOption_eq_some.mp (by decide +kernel)
    obtain ⟨outcome, store', hrun⟩ := hstore.exists_update
      (List.forall_mem_cons.mpr ⟨acceptable_weight 0,
        List.forall_mem_singleton.mpr (acceptable_weight 4)⟩) (by decide) hjudged
    rw [← execute_run hparse] at hrun
    obtain ⟨schema, rows, rows', hrows, hrows', ⟨_, fitted, ⟨⟩, hfitted, -, rfl⟩, -⟩ :=
      execute_effect hstore.1 hparse rfl hrun
    obtain ⟨rfl, rfl⟩ := Prod.mk.inj (Except.ok.inj (hstore.rows_eq.symm.trans hrows))
    obtain rfl := Schema.Fits.unique_all hfitted
      (.cons (fits_weight 0) (.cons (fits_weight 4) .nil))
    exact ⟨outcome, store', hrun, hrows'⟩
  · have hparse : Statement.ofText "DELETE FROM t WHERE Id = 7" = .ok (.delete "t" (some idSeven)) :=
      toOption_eq_some.mp (by decide +kernel)
    obtain ⟨outcome, store', hrun⟩ := hstore.exists_delete (by decide) hjudged
    rw [← execute_run hparse] at hrun
    obtain ⟨schema, rows, rows', hrows, hrows', ⟨_, ⟨⟩, -, rfl⟩, -⟩ :=
      execute_effect hstore.1 hparse rfl hrun
    obtain ⟨rfl, rfl⟩ := Prod.mk.inj (Except.ok.inj (hstore.rows_eq.symm.trans hrows))
    exact ⟨outcome, store', hrun, hrows'⟩
  · have hparse : Statement.ofText "INSERT INTO t (weight, Id) VALUES (5, 9)" =
        .ok (.insert "t" (some ["weight", "Id"]) [.int 5, .int 9]) :=
      toOption_eq_some.mp (by decide +kernel)
    obtain ⟨outcome, store', hrun⟩ := @Stocked.exists_insert _ _ _ _ _ hstore
      (some ["weight", "Id"]) [.int 5, .int 9] (by decide) rfl
      (List.forall_mem_cons.mpr ⟨acceptable_weight 5,
        List.forall_mem_singleton.mpr (acceptable_id 9)⟩)
    rw [← execute_run hparse] at hrun
    obtain ⟨schema, rows, rows', hrows, hrows', ⟨cells, row, -, hfitted, hperm, hnames, rfl⟩, -⟩ :=
      execute_effect hstore.1 hparse rfl hrun
    obtain ⟨rfl, rfl⟩ := Prod.mk.inj (Except.ok.inj (hstore.rows_eq.symm.trans hrows))
    obtain rfl := Schema.Fits.unique_all hfitted (.cons (fits_weight 5) (.cons (fits_id 9) .nil))
    obtain rfl : row = weighedRow 9 5 := Row.eq_of_perm hnames (hperm.trans (.swap _ _ _))
    exact ⟨outcome, store', hrun, hrows'⟩

end Database

end

end TableStore
