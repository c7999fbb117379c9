import TableStore.Proofs.Database.Loop
import TableStore.Proofs.Store.Clean

namespace TableStore

open FileSystem (Location)
open Store (isName)

namespace Row

theorem get?_merge (row : Row) (changes : List (String × Value)) (name : String) :
    (row.merge changes).get? name =
      (row.get? name).map fun value ↦ (changes.reverse.lookup name).getD value :=
  lookup_map_value (fun name value ↦ (changes.reverse.lookup name).getD value) row.entries name

end Row

namespace Schema

variable {schema : Schema} {row : Row}

theorem Covers.merge (h : schema.Covers row) (changes : List (String × Value)) :
    schema.Covers (row.merge changes) := by
  refine ⟨fun entry hentry ↦ ?_, fun name hname ↦ ?_⟩
  · have hmem : entry.1 ∈ row.entries.map Prod.fst := by
      rw [← Row.names_merge row changes]
      exact List.mem_map_of_mem hentry
    exact mem_names_iff.mp (h.contains (Row.contains_of_mem hmem))
  · rw [Row.contains, Row.get?_merge, Option.isSome_map]
    exact h.2 name hname

end Schema

variable {config : Config} {home : Location} {contents : Contents} {name : String} {table : Table}

/-- If a table takes one of its rows with some changes, it takes each of them with these changes. -/
theorem Contents.Consistent.takes_merge (hc : contents.Consistent)
    (htable : contents name = some table) {changes : List (String × Value)} {row other : Row}
    (hrow : row ∈ table.rows) (hother : other ∈ table.rows)
    (htakes : table.Takes (row.merge changes)) : table.Takes (other.merge changes) := by
  have hkeeps := (hc.tables htable).rows
  obtain ⟨hcovers, hcells⟩ := Schema.exists_encodeRow_iff.mp (hkeeps row hrow).encoded
  obtain ⟨hcovers', hcells'⟩ := Schema.exists_encodeRow_iff.mp (hkeeps other hother).encoded
  obtain ⟨-, hmerged⟩ := Schema.exists_encodeRow_iff.mp htakes.encoded
  refine ⟨Schema.exists_encodeRow_iff.mpr ⟨hcovers'.merge changes, fun column hcolumn ↦ ?_⟩,
    fun column hcolumn ↦ ?_⟩
  · have hname : column.name ∈ table.schema.names := List.mem_map_of_mem hcolumn
    obtain ⟨value, hvalue⟩ := Option.isSome_iff_exists.mp (hcovers.2 _ hname)
    obtain ⟨value', hvalue'⟩ := Option.isSome_iff_exists.mp (hcovers'.2 _ hname)
    have hcell := hmerged column hcolumn
    have hcell' := hcells' column hcolumn
    rw [Row.get?_merge, hvalue] at hcell
    rw [hvalue'] at hcell'
    rw [Row.get?_merge, hvalue']
    cases hchange : changes.reverse.lookup column.name with
    | none => exact hcell'
    | some new => rwa [hchange] at hcell
  · obtain ⟨key, hkey⟩ := htakes.keys column hcolumn
    obtain ⟨own, hown⟩ := hc.keys_of_mem htable hother hcolumn
    rw [Row.get?_merge] at hkey ⊢
    rw [hown, Option.map_some]
    cases hchange : changes.reverse.lookup column with
    | none => exact ⟨own, rfl⟩
    | some new =>
      obtain ⟨value, -, hnew⟩ := Option.map_eq_some_iff.mp hkey
      rw [hchange] at hnew
      exact ⟨key, congrArg some hnew⟩

namespace Clean

/-- Many rows are updated, or none: the loop fails at its first row or not at all. -/
theorem updateFound {changes : List (String × Value)} {found : List (Nat × Row)}
    (hc : contents.Consistent) (htable : contents name = some table)
    (hfound : ∀ entry ∈ found, entry.1 < table.rows.length ∧ entry.2 ∈ table.rows)
    (hchanges : ∀ change ∈ changes, change.1 ∈ table.schema.names) :
    Clean config home contents (found.forM fun entry ↦
      Operation.update name entry.1 (Database.changedRow changes entry.2)) := by
  have hmerge : ∀ row ∈ table.rows, Database.changedRow changes row = row.merge changes := by
    intro row hrow
    apply Database.changedRow_eq_merge
    rw [((hc.tables htable).rows row hrow).names]
    exact hchanges
  cases found with
  | nil => exact of_runs (Answers.pure ())
  | cons entry rest =>
    obtain ⟨-, hmem⟩ := hfound entry (by simp)
    have hfirst := @Carries.update config home _ hc name entry.1 (Database.changedRow changes entry.2)
    cases hnext : contents.update name entry.1 (Database.changedRow changes entry.2) with
    | error e =>
      rw [hnext] at hfirst
      exact bind_of_error hfirst
    | ok contents' =>
      have htakes := hc.takes_of_update htable hnext
      rw [hmerge _ hmem] at htakes
      obtain ⟨contents'', hall⟩ := @Runs.updateAll config home _ _ _
        (Database.changedRow changes) _ hc htable fun other hother ↦
          ⟨(hfound other hother).1, by
            rw [hmerge _ (hfound other hother).2]
            exact hc.takes_merge htable hmem (hfound other hother).2 htakes⟩
      exact of_runs hall

theorem select (hc : contents.Consistent) (distinct : Bool) (selection : Selection)
    (condition : Option Expr) :
    Clean config home contents (Database.select distinct selection name condition) := by
  apply ask_bind
  intro schema _ _ _
  apply bind (Quiet.ofResult _) (Answers.ofResult _)
  rintro ⟨⟩ -
  apply bind (Quiet.ofResult _) (Answers.ofResult _)
  rintro ⟨⟩ -
  apply bind (Quiet.query _ _) (Answers.query hc name _)
  intro rows _
  exact map (ofResult _) _

theorem insert (hc : contents.Consistent) (columns : Option (List String)) (values : List Value) :
    Clean config home contents (Database.insert name columns values) := by
  apply ask_bind
  intro schema _ _ _
  apply bind (Quiet.ofResult _) (Answers.ofResult _)
  intro row _
  exact map (of_carries (Carries.insert hc name row)) _

theorem update (hc : contents.Consistent) (changes : List (String × Value))
    (condition : Option Expr) :
    Clean config home contents (Database.update name changes condition) := by
  apply ask_bind
  intro schema store hstore hschema
  obtain ⟨table, htable, rfl⟩ := hstore.schema_eq_ok hc hschema
  apply bind (Quiet.ofResult _) (Answers.ofResult _)
  intro fitted hfitted
  apply bind (Quiet.ofResult _) (Answers.ofResult _)
  intro e _
  apply bind (Quiet.ofResult _) (Answers.ofResult _)
  rintro ⟨⟩ -
  apply bind (Quiet.scan _ _) (Answers.scan hc name _)
  intro found hfound
  rw [Contents.scan, hc.table_eq_ok.mpr htable] at hfound
  obtain ⟨-, hin⟩ := filterRows_positions hfound
  apply map
  apply updateFound hc htable
  · intro entry hentry
    obtain ⟨-, hlt, hmem⟩ := hin entry hentry
    exact ⟨by omega, hmem⟩
  · intro change hchange
    obtain ⟨before, -, hbefore⟩ := exists_of_mem_mapM hfitted hchange
    exact (Database.fittedChange_eq_ok.mp hbefore).mem_names

theorem delete (hc : contents.Consistent) (condition : Option Expr) :
    Clean config home contents (Database.delete name condition) := by
  apply ask_bind
  intro schema store hstore hschema
  obtain ⟨table, htable, rfl⟩ := hstore.schema_eq_ok hc hschema
  apply bind (Quiet.ofResult _) (Answers.ofResult _)
  intro e _
  apply bind (Quiet.ofResult _) (Answers.ofResult _)
  rintro ⟨⟩ -
  apply bind (Quiet.scan _ _) (Answers.scan hc name _)
  intro found hfound
  rw [Contents.scan, hc.table_eq_ok.mpr htable] at hfound
  obtain ⟨hordered, hin⟩ := filterRows_positions hfound
  have hlt : ∀ entry ∈ found, entry.1 < table.rows.length := by
    intro entry hentry
    obtain ⟨-, hlt, -⟩ := hin entry hentry
    omega
  obtain ⟨contents', hall⟩ := @Runs.deleteFound config home _ _ _ _ hc htable hordered hlt
  exact map (of_runs hall) _

theorem run (hc : contents.Consistent) {statement : Statement}
    (hcreate : ∀ table columns, statement ≠ .createTable table columns) :
    Clean config home contents (Database.run statement) := by
  cases statement with
  | select distinct selection table condition => exact select hc distinct selection condition
  | insert table columns values => exact insert hc columns values
  | createTable table columns => exact absurd rfl (hcreate table columns)
  | update table changes condition => exact update hc changes condition
  | delete table condition => exact delete hc condition
  | dropTable table => exact map (of_carries (Carries.dropTable hc table)) _

theorem execute (hc : contents.Consistent) {text : String}
    (hcreate : ∀ table columns, Statement.ofText text ≠ .ok (.createTable table columns)) :
    Clean config home contents (Database.execute text) := by
  apply bind (Quiet.ofResult _) (Answers.ofResult _)
  intro statement hstatement
  apply run hc
  rintro table columns rfl
  exact hcreate table columns (mapError_eq_ok.mp hstatement)

end Clean

theorem Answers.tableIndex (hc : contents.Consistent) (name column : String) :
    Answers config home contents (Operation.tableIndex name column) (do
      ensure (contents name).isSome (.tableNotFound name)
      contents.indexOf name column) := by
  apply Answers.bind_id (Answers.ask fun store hstore ↦ hstore.checkTable hc name)
  rintro ⟨⟩ hsome
  obtain ⟨table, htable⟩ := Option.isSome_iff_exists.mp (ensure_eq_ok.mp hsome)
  exact Answers.index (hc.named htable) column

/-- The files are the same, and so are all answers about tables and indexes. -/
structure Store.Unchanged (before after : Store) : Prop where
  files : after.files = before.files
  listIndexes : ∀ table, after.listIndexes table = before.listIndexes table
  rows : ∀ table, ((Operation.query table .all).run after).1 =
    ((Operation.query table .all).run before).1
  index : ∀ table column, ((Operation.tableIndex table column).run after).1 =
    ((Operation.tableIndex table column).run before).1

theorem Holds.unchanged {store store' : Store} (h : Holds config home contents store)
    (hc : contents.Consistent) (hfiles : store'.files = store.files)
    (h' : Holds config home contents store') : store.Unchanged store' where
  files := hfiles
  listIndexes table := by rw [Store.listIndexes, Store.listIndexes, h'.settings, h.settings, hfiles]
  rows table := by
    rw [(Answers.query hc table .all store' h').1, (Answers.query hc table .all store h).1]
  index table column := by
    rw [(Answers.tableIndex hc table column store' h').1,
      (Answers.tableIndex hc table column store h).1]

namespace Database

theorem execute_run {text : String} {statement : Statement}
    (hparse : Statement.ofText text = .ok statement) (store : Store) :
    (execute text).run store = (run statement).run store := by
  rw [execute_eq_run hparse]

/-- A statement that fails, the making of a table apart, changes nothing. -/
theorem execute_failure {store store' : Store} (h : Reachable store) {text : String}
    (hcreate : ∀ table columns, Statement.ofText text ≠ .ok (.createTable table columns))
    {e : Error} (hrun : (execute text).run store = (.error e, store')) :
    store.Unchanged store' := by
  obtain ⟨config, home, contents, -, hc, hstore⟩ := h.sane
  have hclean := Clean.execute hc hcreate store hstore e
  rw [hrun] at hclean
  obtain ⟨hfiles, hstore'⟩ := hclean rfl
  exact hstore.unchanged hc hfiles hstore'

theorem execute_failure_null : ∃ e store', Reachable Reachable.sample ∧
    (∀ table columns,
      Statement.ofText "UPDATE t SET n = NULL WHERE n = 2" ≠ .ok (.createTable table columns)) ∧
    (execute "UPDATE t SET n = NULL WHERE n = 2").run Reachable.sample = (.error e, store') ∧
    Reachable.sample.Unchanged store' := by
  have hparse : Statement.ofText "UPDATE t SET n = NULL WHERE n = 2" =
      .ok (.update "t" [("n", .null)] (some (.binary (.column "n") .eq (.literal (.int 2))))) :=
    toOption_eq_some.mp (by decide +kernel)
  have hcreate : ∀ table columns,
      Statement.ofText "UPDATE t SET n = NULL WHERE n = 2" ≠ .ok (.createTable table columns) := by
    intro table columns hcreate
    cases hparse.symm.trans hcreate
  have hnone : ((run (.update "t" [("n", .null)]
      (some (.binary (.column "n") .eq (.literal (.int 2)))))).run
        Reachable.sample).1.toOption.isSome = false := by
    decide +kernel
  rw [← execute_run hparse] at hnone
  rcases hrun : (execute "UPDATE t SET n = NULL WHERE n = 2").run Reachable.sample with ⟨r, store'⟩
  cases r with
  | ok outcome =>
    rw [hrun] at hnone
    cases hnone
  | error e =>
    exact ⟨e, store', Reachable.sample_reachable, hcreate, rfl,
      execute_failure Reachable.sample_reachable hcreate hrun⟩

end Database

end TableStore
