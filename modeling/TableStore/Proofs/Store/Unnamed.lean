import TableStore.Proofs.Store.Requests

namespace TableStore

open Store (isName)

/-- In this store the operation fails, and it changes nothing. -/
def Operation.IsRefused {α : Type} (op : Operation α) (store : Store) : Prop :=
  ∃ e, op.run store = (.error e, store)

section

variable {α β : Type} {store : Store} {table : String}

namespace Operation.IsRefused

theorem ask {question : Store → Except Error α} (h : ∃ e, question store = .error e) :
    (Operation.ask question).IsRefused store := by
  obtain ⟨e, he⟩ := h
  exact ⟨e, by rw [run_ask, he]⟩

theorem bind {op : Operation α} {f : α → Operation β} (h : op.IsRefused store) :
    (op >>= f).IsRefused store := by
  obtain ⟨e, he⟩ := h
  exact ⟨e, by rw [run_bind, he]⟩

theorem ask_bind {question : Store → Except Error α} {f : α → Operation β}
    (h : ∀ a, (f a).IsRefused store) : (Operation.ask question >>= f).IsRefused store := by
  cases hasked : question store with
  | error e => exact .bind (ask ⟨e, hasked⟩)
  | ok a =>
    obtain ⟨e, he⟩ := h a
    refine ⟨e, ?_⟩
    rw [run_bind, run_ask, hasked]
    exact he

end Operation.IsRefused

theorem Store.isName_eq_false
    (h : table = "" ∨ ∃ c ∈ table.toList, c ∈ ['.', '/', '\\', '\x00']) :
    isName table = false := by
  rw [← Bool.not_eq_true]
  intro hname
  simp only [isName, Bool.and_eq_true, decide_eq_true_eq, List.all_eq_true] at hname
  rcases h with hempty | ⟨c, hc, hbad⟩
  · exact hname.1 hempty
  · obtain ⟨⟨⟨hdot, hslash⟩, hback⟩, hnul⟩ := hname.2 c hc
    simp [hdot, hslash, hback, hnul] at hbad

variable (h : isName table = false)

include h

namespace Store

theorem exists_checkName_eq_error : ∃ e, checkName table = .error e :=
  ⟨.invalidName table, by rw [checkName, h]; rfl⟩

theorem exists_checkTable_eq_error (store : Store) : ∃ e, store.checkTable table = .error e :=
  ⟨.tableNotFound table, by rw [checkTable, tableExists, h]; rfl⟩

theorem exists_document_eq_error (store : Store) : ∃ e, store.document table = .error e := by
  obtain ⟨e, he⟩ := exists_checkName_eq_error h
  exact ⟨e, by rw [document, he, error_bind]⟩

theorem exists_schema_eq_error (store : Store) : ∃ e, store.schema table = .error e := by
  obtain ⟨e, he⟩ := exists_document_eq_error h store
  exact ⟨e, by rw [schema, he, error_bind]⟩

theorem exists_rowCount_eq_error (store : Store) : ∃ e, store.rowCount table = .error e := by
  obtain ⟨e, he⟩ := exists_document_eq_error h store
  exact ⟨e, by rw [rowCount, he, error_bind]⟩

end Store

namespace Operation

theorem isRefused_checkName : (ofResult (Store.checkName table)).IsRefused store :=
  .ask (Store.exists_checkName_eq_error h)

theorem isRefused_checkTable : (Operation.ask fun store ↦ store.checkTable table).IsRefused store :=
  .ask (Store.exists_checkTable_eq_error h store)

theorem isRefused_document : (Operation.ask fun store ↦ store.document table).IsRefused store :=
  .ask (Store.exists_document_eq_error h store)

theorem isRefused_schema : (Operation.ask fun store ↦ store.schema table).IsRefused store :=
  .ask (Store.exists_schema_eq_error h store)

theorem isRefused_scan (predicate : Predicate) : (scan table predicate).IsRefused store :=
  .bind (isRefused_document h)

theorem isRefused_createTable (schema : Schema) : (createTable table schema).IsRefused store :=
  .bind (isRefused_checkName h)

theorem isRefused_dropTable : (dropTable table).IsRefused store := .bind (isRefused_checkTable h)

end Operation

omit h in
/-- A statement may fail before it comes to its table, but not after. -/
theorem Database.isRefused_run {statement : Statement} (h : isName statement.table = false) :
    (Database.run statement).IsRefused store := by
  cases statement with
  | select distinct selection table condition => exact .bind (Operation.isRefused_schema h)
  | insert table columns values => exact .bind (Operation.isRefused_schema h)
  | createTable table columns =>
    exact .ask_bind fun schema ↦ .bind (Operation.isRefused_createTable h schema)
  | update table changes condition => exact .bind (Operation.isRefused_schema h)
  | delete table condition => exact .bind (Operation.isRefused_schema h)
  | dropTable table => exact .bind (Operation.isRefused_dropTable h)

theorem Call.isRefused {call : Call} (hcall : call.table? = some table)
    (hindex : ∀ column, call ≠ .index table column) : call.operation.IsRefused store := by
  cases call with
  | execute text =>
    rw [Call.table?, Option.map_eq_some_iff] at hcall
    obtain ⟨statement, hparse, rfl⟩ := hcall
    rw [Call.operation, Database.execute_eq_run (toOption_eq_some.mp hparse)]
    exact Database.isRefused_run h
  | run statement =>
    obtain rfl := Option.some.inj hcall
    exact Database.isRefused_run h
  | createTable other schema =>
    obtain rfl := Option.some.inj hcall
    exact Operation.isRefused_createTable h schema
  | dropTable other =>
    obtain rfl := Option.some.inj hcall
    exact Operation.isRefused_dropTable h
  | scan other predicate =>
    obtain rfl := Option.some.inj hcall
    exact Operation.isRefused_scan h predicate
  | query other predicate =>
    obtain rfl := Option.some.inj hcall
    exact .bind (Operation.isRefused_scan h predicate)
  | queryColumns other columns predicate =>
    obtain rfl := Option.some.inj hcall
    exact .bind (Operation.isRefused_schema h)
  | dropIndex other column =>
    obtain rfl := Option.some.inj hcall
    exact .bind (Operation.isRefused_checkName h)
  | tableIndex other column =>
    obtain rfl := Option.some.inj hcall
    exact .bind (Operation.isRefused_checkTable h)
  | index other column =>
    obtain rfl := Option.some.inj hcall
    exact absurd rfl (hindex column)
  | _ =>
    -- Every other call reads the document of its table first.
    obtain rfl := Option.some.inj hcall
    exact .bind (Operation.isRefused_document h)

end

theorem Operation.index_cases (table column : String) (store : Store) :
    (index table column).IsRefused store ∨
      isName column = true ∧ ∃ tree,
        (store.cache.lookup (table, column) = some tree ∧
          (index table column).run store = (.ok tree, store)) ∨
        (store.readIndex table column = .ok tree ∧
          (index table column).run store = (.ok tree, store.remembering table column tree)) := by
  cases hcolumn : Store.checkName column with
  | error e => exact .inl ⟨e, by rw [run_index, hcolumn]⟩
  | ok _ =>
    have hname := Contents.checkName_eq_ok.mp hcolumn
    cases hcached : store.cache.lookup (table, column) with
    | some tree =>
      exact .inr ⟨hname, tree, .inl ⟨rfl, by rw [run_index, hcolumn, hcached]⟩⟩
    | none =>
      cases hread : store.readIndex table column with
      | error e => exact .inl ⟨e, by rw [run_index, hcolumn, hcached, hread]⟩
      | ok tree =>
        exact .inr ⟨hname, tree, .inr ⟨rfl, by rw [run_index, hcolumn, hcached, hread]⟩⟩

/-- A call about a table whose name is not a valid one fails and changes nothing, whatever the files
are. Only the bare call for an index looks for a file, and may keep what it finds in memory. -/
theorem Call.refused_of_invalid_name {table : String}
    (h : table = "" ∨ ∃ c ∈ table.toList, c ∈ ['.', '/', '\\', '\x00']) (store : Store) :
    (∀ call : Call, call.table? = some table → (∀ column, call ≠ .index table column) →
      ∃ e, call.operation.run store = (.error e, store)) ∧
    (∃ e, store.schema table = .error e) ∧ (∃ e, store.rowCount table = .error e) ∧
    ∀ column, ((Operation.index table column).run store).2.files = store.files ∧
      ((∃ e, (Operation.index table column).run store = (.error e, store)) ∨
        isName column = true ∧ ∃ tree,
          (store.cache.lookup (table, column) = some tree ∧
            (Operation.index table column).run store = (.ok tree, store)) ∨
          (store.readIndex table column = .ok tree ∧
            (Operation.index table column).run store =
              (.ok tree, store.remembering table column tree))) := by
  have hname := Store.isName_eq_false h
  refine ⟨fun call hcall hindex ↦ Call.isRefused hname hcall hindex,
    Store.exists_schema_eq_error hname store, Store.exists_rowCount_eq_error hname store,
    fun column ↦ ⟨(Quiet.index table column store).1, Operation.index_cases table column store⟩⟩

def Store.abutting : Store :=
  ⟨{}, ⟨[(["data"], .directory), (["x.c.idx.json"], .text (BTree.text ⟨3, .leaf []⟩))]⟩, []⟩

theorem Call.refused_of_invalid_name_abutting : '.' ∈ "../x".toList ∧
    (∀ row, ∃ e, (Operation.insert "../x" row).run Store.abutting = (.error e, Store.abutting)) ∧
    ∃ e, Store.abutting.rowCount "../x" = .error e := by
  have hdot : '.' ∈ "../x".toList := by decide
  obtain ⟨hcalls, -, hcount, -⟩ :=
    refused_of_invalid_name (.inr ⟨'.', hdot, by decide⟩) Store.abutting
  refine ⟨hdot, fun row ↦ hcalls (.insert "../x" row) rfl ?_, hcount⟩
  intro column hcolumn
  cases hcolumn

/-- The bare call for an index succeeds on a name that leads out of the directory of the store, and
keeps the index. -/
theorem Call.exists_index_of_invalid_name : '.' ∈ "../x".toList ∧
    Store.abutting.cache.lookup ("../x", "c") = none ∧
    ∃ tree, (Operation.index "../x" "c").run Store.abutting =
      (.ok tree, Store.abutting.remembering "../x" "c" tree) := by
  have hread : ((Store.abutting.readIndex "../x" "c").toOption).isSome = true := by decide +kernel
  obtain ⟨tree, htree⟩ := Option.isSome_iff_exists.mp hread
  refine ⟨by decide, rfl, tree, ?_⟩
  have hfound := toOption_eq_some.mp htree
  rw [Operation.run_index, Contents.checkName_eq_ok.mpr (by decide)]
  simp only [show Store.abutting.cache.lookup ("../x", "c") = none from rfl, hfound]

end TableStore
