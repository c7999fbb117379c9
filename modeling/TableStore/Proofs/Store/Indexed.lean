import TableStore.Proofs.Store.Stocked

namespace TableStore

open Store (isName)

/-- The index over a column has the type, the rows and the form that it should have. -/
structure Store.IndexAgrees (store : Store) (table column : String) (schema : Schema)
    (rows : List Row) : Prop where
  typed : ∃ definition ∈ schema.columns, definition.name = column ∧ definition.type = .int
  total : ∀ row ∈ rows, ∃ key, row.get? column = some (.int key)
  tree : ∃ tree, ((Operation.tableIndex table column).run store).1 = .ok tree ∧
    tree.check = .ok () ∧ tree.keys = BTree.sorted (columnKeys column rows)

namespace Reachable

variable {store : Store}

/-- The columns with an index hold integers, and an index holds the integers of its column in order. -/
theorem index_agrees (h : Reachable store) {table : String}
    (hexists : store.tableExists table = true) :
    ∃ schema rows columns, store.rows table = .ok (schema, rows) ∧
      store.listIndexes table = .ok columns ∧
      ∀ column ∈ columns, store.IndexAgrees table column schema rows := by
  obtain ⟨config, home, contents, -, hc, hstore⟩ := h.sane
  have hname : isName table = true := (Bool.and_eq_true_iff.mp hexists).1
  have hfile := (Bool.and_eq_true_iff.mp hexists).2
  rw [hstore.isFile_table hname] at hfile
  obtain ⟨found, hfound⟩ := Option.isSome_iff_exists.mp hfile
  refine ⟨found.schema, found.rows, found.columns, ?_, hstore.listIndexes hc hfound, ?_⟩
  · rw [hstore.rows hc, hc.table_eq_ok.mpr hfound, map_ok]
  · intro column hcolumn
    obtain ⟨tree, htree⟩ := Option.isSome_iff_exists.mp
      (isSome_lookup_iff.mpr (Table.mem_columns.mp hcolumn))
    have hindexes := (hc.tables hfound).indexes _ (mem_of_lookup htree)
    have hindexed : contents.index? table column = some tree := by
      rw [Contents.index?_of_some hfound, htree]
    have hindex := @Answers.index config home contents table hname column
    rw [Contents.indexOf_of_some (hc.isName_column hindexed).2 hindexed] at hindex
    have hcheck : store.checkTable table = .ok () := if_pos hexists
    refine ⟨hindexes.typed, hindexes.total, tree, ?_, hindexes.proper.toSound.check_eq_ok,
      hindexes.proper.toSound.ascending.eq_sorted hindexes.keys⟩
    rw [Operation.tableIndex, Operation.run_bind, Operation.run_ask, hcheck]
    exact (hindex store hstore).1

theorem index_agrees_numbered : ∃ store, Reachable store ∧ store.tableExists "t" = true ∧
    store.rows "t" = .ok (numbered, [numberedRow 7 1, numberedRow 8 2, numberedRow 7 3]) ∧
    store.listIndexes "t" = .ok ["Id"] ∧
    ∃ tree, ((Operation.tableIndex "t" "Id").run store).1 = .ok tree ∧ tree.check = .ok () ∧
      tree.keys = [7, 7, 8] := by
  obtain ⟨store, hstore⟩ := Stocked.numbered [(7, 1), (8, 2), (7, 3)]
  obtain ⟨schema, rows, columns, hrows, hcolumns, hagrees⟩ :=
    index_agrees hstore.1 hstore.tableExists
  obtain ⟨-, rfl⟩ := Prod.mk.inj (Except.ok.inj (hstore.rows_eq.symm.trans hrows))
  obtain ⟨names, hnames, hperm⟩ := hstore.listIndexes (by decide)
  obtain rfl := List.perm_singleton.mp hperm
  obtain rfl := Except.ok.inj (hnames.symm.trans hcolumns)
  obtain ⟨-, -, tree, htree, hcheck, hkeys⟩ := hagrees "Id" (List.mem_singleton.mpr rfl)
  refine ⟨store, hstore.1, hstore.tableExists, hstore.rows_eq, hnames, tree, htree, hcheck, ?_⟩
  exact hkeys.trans (BTree.Ascending.eq_sorted (by decide) (by decide)).symm

/-- A scan finds what its filter accepts of all rows, with the positions, whether it goes through an
index or not. -/
theorem scan_eq_full (h : Reachable store) (table : String) :
    (∀ e : Expr, ((Operation.scan table (.ofExpr e)).run store).1 =
      ((Operation.scan table { Predicate.ofExpr e with hint := none }).run store).1) ∧
    (∀ hint : IndexHint, ((Operation.scan table (.compare hint)).run store).1 =
      ((Operation.scan table { Predicate.compare hint with hint := none }).run store).1) ∧
    ∀ (predicate : Predicate) (schema : Schema) (rows : List Row), predicate.hint = none →
      store.rows table = .ok (schema, rows) →
        ((Operation.scan table predicate).run store).1 =
          (rows.mapM predicate.accepts).map fun _ ↦ (rows.zipIdx.filter fun entry ↦
            (predicate.accepts entry.1).toOption = some true).map Prod.swap := by
  obtain ⟨config, home, contents, -, hc, hstore⟩ := h.sane
  have hscan : ∀ predicate : Predicate, predicate.HintHolds →
      ((Operation.scan table predicate).run store).1 =
        ((Operation.scan table { predicate with hint := none }).run store).1 := by
    intro predicate hpredicate
    rw [(Answers.scan hc table predicate store hstore).1, hc.scan_eq table hpredicate,
      (Answers.scan hc table { predicate with hint := none } store hstore).1]
  refine ⟨fun e ↦ hscan _ (Predicate.ofExpr_hintHolds e),
    fun hint ↦ hscan _ (Predicate.compare_hintHolds hint), fun predicate schema rows hhint hrows ↦ ?_⟩
  obtain ⟨found, hfound, rfl, rfl⟩ := hstore.rows_eq_ok hc hrows
  have hholds : predicate.HintHolds := by
    intro hint hsome
    cases hhint.symm.trans hsome
  rw [(Answers.scan hc table predicate store hstore).1, hc.scan_eq_filterRows hfound hholds,
    filterRows_eq]

theorem scan_eq_full_numbered : ∃ store, Reachable store ∧
    store.plan "t" idSeven.hint? = .index "Id" 7 7 ∧
    store.rows "t" = .ok (numbered, [numberedRow 7 1, numberedRow 8 2, numberedRow 7 3]) ∧
    ((Operation.scan "t" (.ofExpr idSeven)).run store).1 =
      .ok [(0, numberedRow 7 1), (2, numberedRow 7 3)] := by
  obtain ⟨store, hstore⟩ := Stocked.numbered [(7, 1), (8, 2), (7, 3)]
  obtain ⟨hexpr, -, hfull⟩ := scan_eq_full hstore.1 "t"
  refine ⟨store, hstore.1, ?_, hstore.rows_eq, ?_⟩
  · have hhint : idSeven.hint? = some ⟨"Id", .eq, 7⟩ := rfl
    rw [hhint, Store.plan, hstore.hasIndex (List.mem_singleton.mpr rfl)]
    rfl
  · rw [hexpr, hfull _ _ _ rfl hstore.rows_eq]
    rfl

end Reachable

end TableStore
