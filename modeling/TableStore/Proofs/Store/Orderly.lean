import TableStore.Proofs.Store.Moves
import TableStore.Proofs.Store.Reopened
import TableStore.Proofs.Store.Unbroken

namespace TableStore

open FileSystem (reach Rooted Location IsFileName)
open Store (tableFile indexFile isName isName_of_eq_true isFileName_tableFile isFileName_indexFile)

/-- Each file of the directory is that of a table, or of an index over a table that is there. Each
index in memory has its file. -/
structure Store.Orderly (home : Location) (store : Store) : Prop where
  rooted : Rooted store.files store.config.rootPath home
  reach : ∀ {file}, (store.files.entryAt? home file).isSome = true →
    reach store.config.rootPath file = .ok ()
  only : ∀ {file}, (store.files.entryAt? home file).isSome = true →
    (∃ table, isName table = true ∧ file = tableFile table) ∨
      ∃ table column, isName table = true ∧ isName column = true ∧ file = indexFile table column
  owned : ∀ {table column}, isName table = true → isName column = true →
    (store.files.entryAt? home (indexFile table column)).isSome = true →
      (store.files.entryAt? home (tableFile table)).isSome = true
  cached : ∀ {table column}, (store.cache.lookup (table, column)).isSome = true →
    isName table = true ∧ isName column = true ∧
      (store.files.entryAt? home (indexFile table column)).isSome = true

/-- An orderly store over a directory in which only stores have written. -/
structure Store.Neat (home : Location) (store : Store) : Prop extends Store.Orderly home store where
  sturdy : store.Sturdy [home]

def Store.StaysOrderly (home : Location) (before after : Store) : Prop :=
  before.Orderly home → after.Orderly home

instance (home : Location) : IsPreorder Store (Store.StaysOrderly home) where
  refl _ h := h
  trans _ _ _ h h' hstore := h' (h hstore)

theorem Moves.orderly {α : Type} {op : Operation α} {home : Location} {store : Store}
    (hop : Moves (Store.StaysOrderly home) op) (h : store.Orderly home) :
    (op.run store).2.Orderly home :=
  hop store h

section

variable {home : Location} {store : Store} {table column file : String}

namespace Store.Orderly

theorem isFile_join (h : store.Orderly home) (hfile : IsFileName file) :
    store.files.isFile (store.config.rootPath.join file) =
      (store.files.entryAt? home file).isSome :=
  h.rooted.isFile_join hfile h.reach

theorem isFile_table (h : store.Orderly home) (htable : isName table = true) :
    store.files.isFile (store.tablePath table) =
      (store.files.entryAt? home (tableFile table)).isSome :=
  h.isFile_join (isFileName_tableFile (isName_of_eq_true htable))

theorem isFile_index (h : store.Orderly home) (htable : isName table = true)
    (hcolumn : isName column = true) : store.files.isFile (store.indexPath table column) =
      (store.files.entryAt? home (indexFile table column)).isSome :=
  h.isFile_join (isFileName_indexFile (isName_of_eq_true htable) (isName_of_eq_true hcolumn))

theorem tableExists_eq (h : store.Orderly home) (htable : isName table = true) :
    store.tableExists table = (store.files.entryAt? home (tableFile table)).isSome := by
  rw [Store.tableExists, htable, h.isFile_table htable, Bool.true_and]

theorem names_of_indexFile (h : store.Orderly home)
    (hfile : (store.files.entryAt? home (indexFile table column)).isSome = true) :
    isName table = true ∧ isName column = true := by
  rcases h.only hfile with ⟨other, hother, heq⟩ | ⟨other, column', hother, hcolumn', heq⟩
  · exact absurd heq.symm (Store.tableFile_ne_indexFile (isName_of_eq_true hother).noDot)
  · obtain ⟨rfl, rfl⟩ := Store.indexFile_inj_of_names (isName_of_eq_true hother).noDot
      (isName_of_eq_true hcolumn').noDot heq
    exact ⟨hother, hcolumn'⟩

theorem mem_listIndexes_iff (h : store.Orderly home) {columns : List String}
    (hcolumns : store.listIndexes table = .ok columns) :
    column ∈ columns ↔ (store.files.entryAt? home (indexFile table column)).isSome = true := by
  rw [Store.listIndexes, h.rooted.list_root] at hcolumns
  obtain rfl := Except.ok.inj hcolumns
  rw [List.mem_mergeSort, Store.mem_filterMap_indexColumn?]
  refine and_iff_left_of_imp fun hfile ↦ ?_
  have hcolumn := isName_of_eq_true (h.names_of_indexFile hfile).2
  exact ⟨hcolumn.ne_empty, hcolumn.noDot⟩

theorem exists_listIndexes (h : store.Orderly home) (table : String) :
    ∃ columns, store.listIndexes table = .ok columns := by
  rw [Store.listIndexes, h.rooted.list_root]
  exact ⟨_, rfl⟩

theorem put (h : store.Orderly home) (hfile : IsFileName file)
    (hreach : FileSystem.reach store.config.rootPath file = .ok ())
    (hown : (∃ table, isName table = true ∧ file = tableFile table) ∨
      ∃ table column, isName table = true ∧ isName column = true ∧ file = indexFile table column ∧
        (store.files.entryAt? home (tableFile table)).isSome = true) (text : String) :
    ({ store with files := store.files.put (home ++ [file]) (.text text) } : Store).Orderly home := by
  have hcases : ∀ other,
      ((store.files.put (home ++ [file]) (.text text)).entryAt? home other).isSome = true ↔
        other = file ∨ (store.files.entryAt? home other).isSome = true := by
    intro other
    rw [FileSystem.entryAt?_put]
    by_cases hother : other = file <;> simp [hother]
  refine ⟨h.rooted.put hfile rfl, fun hother ↦ ?_, fun hother ↦ ?_,
    fun {other column'} hother hcolumn' hindex ↦ ?_, fun hcached ↦ ?_⟩
  · rcases (hcases _).mp hother with rfl | hother
    · exact hreach
    · exact h.reach hother
  · rcases (hcases _).mp hother with rfl | hother
    · rcases hown with htable | ⟨other, column', hname, hcolumn', rfl, -⟩
      · exact .inl htable
      · exact .inr ⟨other, column', hname, hcolumn', rfl⟩
    · exact h.only hother
  · refine (hcases _).mpr (.inr ?_)
    rcases (hcases _).mp hindex with rfl | hindex
    · rcases hown with ⟨table, hname, heq⟩ | ⟨table, column, hname, -, heq, hpresent⟩
      · exact absurd heq.symm (Store.tableFile_ne_indexFile (isName_of_eq_true hname).noDot)
      · obtain ⟨rfl, -⟩ := Store.indexFile_inj (isName_of_eq_true hother).noDot
          (isName_of_eq_true hname).noDot heq
        exact hpresent
    · exact h.owned hother hcolumn' hindex
  · obtain ⟨hname, hcolumn', hindex⟩ := h.cached hcached
    exact ⟨hname, hcolumn', (hcases _).mpr (.inr hindex)⟩

/-- The file of an index goes after the index has gone from memory. -/
theorem removeIndex (h : store.Orderly home) (htable : isName table = true)
    (hcolumn : isName column = true) (hcached : store.cache.lookup (table, column) = none) :
    ({ store with files := store.files.remove (home ++ [indexFile table column]) } : Store).Orderly
      home := by
  have hfile := isFileName_indexFile (isName_of_eq_true htable) (isName_of_eq_true hcolumn)
  have hcases : ∀ other,
      ((store.files.remove (home ++ [indexFile table column])).entryAt? home other).isSome = true ↔
        other ≠ indexFile table column ∧ (store.files.entryAt? home other).isSome = true := by
    intro other
    rw [FileSystem.entryAt?_remove]
    by_cases hother : other = indexFile table column <;> simp [hother]
  refine ⟨h.rooted.remove hfile, fun hother ↦ h.reach ((hcases _).mp hother).2,
    fun hother ↦ h.only ((hcases _).mp hother).2, fun {other column'} hother hcolumn' hindex ↦ ?_,
    fun {other column'} hcached' ↦ ?_⟩
  · refine (hcases _).mpr ⟨Store.tableFile_ne_indexFile (isName_of_eq_true hother).noDot, ?_⟩
    exact h.owned hother hcolumn' ((hcases _).mp hindex).2
  · obtain ⟨hother, hcolumn', hindex⟩ := h.cached hcached'
    refine ⟨hother, hcolumn', (hcases _).mpr ⟨fun heq ↦ ?_, hindex⟩⟩
    obtain ⟨rfl, rfl⟩ := Store.indexFile_inj (isName_of_eq_true hother).noDot
      (isName_of_eq_true htable).noDot heq
    exact Option.not_isSome_iff_eq_none.mpr hcached hcached'

theorem remembering (h : store.Orderly home) (htable : isName table = true)
    (hcolumn : isName column = true)
    (hfile : (store.files.entryAt? home (indexFile table column)).isSome = true) (tree : BTree) :
    (store.remembering table column tree).Orderly home := by
  refine ⟨h.rooted, h.reach, h.only, h.owned, fun {other column'} hcached ↦ ?_⟩
  rw [Store.lookup_remembering] at hcached
  split at hcached
  · rename_i hkey
    obtain ⟨rfl, rfl⟩ := Prod.mk.inj hkey
    exact ⟨htable, hcolumn, hfile⟩
  · exact h.cached hcached

theorem forget (h : store.Orderly home) (dropped : String × String → Bool) :
    ({ store with cache := store.cache.filter fun entry ↦ !dropped entry.1 } : Store).Orderly home := by
  refine ⟨h.rooted, h.reach, h.only, h.owned, fun {other column'} hcached ↦ h.cached ?_⟩
  rw [Store.lookup_forget] at hcached
  split at hcached
  · cases hcached
  · exact hcached

theorem ask_bind {α β : Type} (h : store.Orderly home) {question : Store → Except Error α}
    {f : α → Operation β}
    (hf : ∀ a, question store = .ok a → ((f a).run store).2.Orderly home) :
    ((Operation.ask question >>= f).run store).2.Orderly home := by
  rw [Operation.run_bind, Operation.run_ask]
  cases hasked : question store with
  | error e => exact h
  | ok a => exact hf a hasked

theorem write (h : store.Orderly home) (hfile : IsFileName file)
    (hown : (∃ table, isName table = true ∧ file = tableFile table) ∨
      ∃ table column, isName table = true ∧ isName column = true ∧ file = indexFile table column ∧
        (store.files.entryAt? home (tableFile table)).isSome = true) (text : String) :
    ((Operation.write (store.config.rootPath.join file) text).run store).2.Orderly home := by
  rw [Operation.run_write h.rooted hfile]
  cases hreach : FileSystem.reach store.config.rootPath file with
  | error fault => exact h
  | ok _ => exact h.put hfile hreach hown text

theorem writeIndex (h : store.Orderly home) (htable : isName table = true)
    (hcolumn : isName column = true)
    (hpresent : (store.files.entryAt? home (tableFile table)).isSome = true) (tree : BTree) :
    ((Operation.writeIndex table column tree).run store).2.Orderly home := by
  rw [Operation.run_writeIndex]
  exact h.write (isFileName_indexFile (isName_of_eq_true htable) (isName_of_eq_true hcolumn))
    (.inr ⟨table, column, htable, hcolumn, rfl, hpresent⟩) tree.text

theorem writeTable (h : store.Orderly home) {document : TableDocument} (htable : isName table = true)
    (hname : document.name = table) :
    ((Operation.writeTable document).run store).2.Orderly home := by
  subst hname
  rw [Operation.run_writeTable]
  exact h.write (isFileName_tableFile (isName_of_eq_true htable)) (.inl ⟨_, htable, rfl⟩) document.text

theorem index (h : store.Orderly home) (htable : isName table = true) (column : String) :
    ((Operation.index table column).run store).2.Orderly home := by
  rw [Operation.run_index]
  cases hcolumn : Store.checkName column with
  | error e => exact h
  | ok _ =>
    cases store.cache.lookup (table, column) with
    | some tree => exact h
    | none =>
      cases hread : store.readIndex table column with
      | error e => exact h
      | ok tree =>
        have hcolumn' := Contents.checkName_eq_ok.mp hcolumn
        obtain ⟨⟨⟩, hfile, -⟩ := bind_eq_ok.mp hread
        rw [ensure_eq_ok, h.isFile_index htable hcolumn'] at hfile
        exact h.remembering htable hcolumn' hfile tree

theorem changeIndex (h : store.Orderly home) (htable : isName table = true) (column : String)
    (change : BTree → Except BTree.Fault BTree) :
    ((Operation.changeIndex table column change).run store).2.Orderly home := by
  have hafter := h.index htable column
  rw [Operation.changeIndex, Operation.run_bind]
  rcases hindex : (Operation.index table column).run store with ⟨result, store'⟩
  rw [hindex] at hafter
  cases result with
  | error e => exact hafter
  | ok tree =>
    have hcached : (store'.cache.lookup (table, column)).isSome = true := by
      rw [(Operation.index_eq_ok hindex).2]
      rfl
    obtain ⟨-, hcolumn, hfile⟩ := hafter.cached hcached
    cases hchange : change tree with
    | error fault =>
      simp only [Operation.onTree, hchange]
      exact hafter
    | ok tree' =>
      simp only [Operation.onTree, hchange, mapError_ok, Operation.run_bind, Operation.ofResult,
        Operation.run_ask, Operation.run_remember]
      exact (hafter.remembering htable hcolumn hfile tree').writeIndex htable hcolumn
        (hafter.owned htable hcolumn hfile) tree'

def ownFiles (table : String) (columns : List String) : List String :=
  columns.map (indexFile table) ++ [tableFile table]

theorem run_dropTable (h : store.Orderly home) (hexists : store.tableExists table = true) :
    ∃ columns, store.listIndexes table = .ok columns ∧
      (Operation.dropTable table).run store = (.ok (), { store with
        files := store.files.removeAll home (ownFiles table columns)
        cache := store.cache.filter fun entry ↦ !decide (entry.1.1 = table) }) := by
  have htable : isName table = true := (Bool.and_eq_true_iff.mp hexists).1
  have hentry : (store.files.entryAt? home (tableFile table)).isSome = true :=
    h.tableExists_eq htable ▸ hexists
  obtain ⟨columns, hcolumns⟩ := h.exists_listIndexes table
  have hnodup : columns.Nodup := by
    rw [Store.listIndexes, h.rooted.list_root] at hcolumns
    obtain rfl := Except.ok.inj hcolumns
    exact (List.mergeSort_perm _ _).nodup_iff.mpr
      (Store.nodup_filterMap_indexColumn? h.rooted.nodup)
  have hindexes : ∀ column ∈ columns, isName column = true ∧
      FileSystem.reach store.config.rootPath (indexFile table column) = .ok () ∧
        (store.files.entryAt? home (indexFile table column)).isSome = true := by
    intro column hcolumn
    have hfile := (h.mem_listIndexes_iff hcolumns).mp hcolumn
    exact ⟨(h.names_of_indexFile hfile).2, h.reach hfile, hfile⟩
  have hfiles : ∀ file ∈ columns.map (indexFile table), IsFileName file ∧ file ≠ tableFile table := by
    intro file hfile
    obtain ⟨column, hcolumn, rfl⟩ := List.mem_map.mp hfile
    exact ⟨isFileName_indexFile (isName_of_eq_true htable)
      (isName_of_eq_true (hindexes column hcolumn).1),
      (Store.tableFile_ne_indexFile (isName_of_eq_true htable).noDot).symm⟩
  have hrooted := h.rooted.removeAll fun file hfile ↦ (hfiles file hfile).1
  have hpresent : ((store.files.removeAll home (columns.map (indexFile table))).entryAt? home
      (tableFile table)).isSome = true := by
    rw [FileSystem.entryAt?_removeAll, if_neg fun hmem ↦ (hfiles _ hmem).2 rfl]
    exact hentry
  have hcheck : store.checkTable table = .ok () := if_pos hexists
  refine ⟨columns, hcolumns, ?_⟩
  rw [Operation.dropTable]
  simp only [Operation.run_bind, Operation.run_ask, hcheck, hcolumns,
    Operation.run_removeIndexFiles h.rooted htable hnodup hindexes, Operation.run_forget, Operation.run_get]
  refine (Operation.run_removeFile hrooted (isFileName_tableFile (isName_of_eq_true htable))
    (h.reach hentry) hpresent).trans ?_
  rw [ownFiles, FileSystem.removeAll_append]

theorem tableFile_mem_ownFiles {columns : List String} {other : String} (hother : isName other = true) :
    tableFile other ∈ ownFiles table columns ↔ other = table := by
  simp only [ownFiles, List.mem_append, List.mem_map, List.mem_singleton]
  constructor
  · rintro (⟨column', -, heq⟩ | heq)
    · exact absurd heq.symm (Store.tableFile_ne_indexFile (isName_of_eq_true hother).noDot)
    · exact Store.tableFile_inj heq
  · rintro rfl
    exact .inr rfl

theorem indexFile_mem_ownFiles {columns : List String} {other : String} (htable : isName table = true)
    (hother : isName other = true) :
    indexFile other column ∈ ownFiles table columns ↔ other = table ∧ column ∈ columns := by
  have hnoDot := (isName_of_eq_true htable).noDot
  simp only [ownFiles, List.mem_append, List.mem_map, List.mem_singleton]
  constructor
  · rintro (⟨column', hcolumn', heq⟩ | heq)
    · obtain ⟨rfl, rfl⟩ := Store.indexFile_inj hnoDot (isName_of_eq_true hother).noDot heq
      exact ⟨rfl, hcolumn'⟩
    · exact absurd heq.symm (Store.tableFile_ne_indexFile hnoDot)
  · rintro ⟨rfl, hcolumn⟩
    exact .inl ⟨column, hcolumn, rfl⟩

theorem dropTable (h : store.Orderly home) (table : String) :
    ((Operation.dropTable table).run store).2.Orderly home := by
  cases hexists : store.tableExists table with
  | false =>
    refine h.ask_bind fun _ hcheck ↦ ?_
    rw [Store.checkTable, hexists] at hcheck
    cases hcheck
  | true =>
    have htable : isName table = true := (Bool.and_eq_true_iff.mp hexists).1
    obtain ⟨columns, hcolumns, hrun⟩ := h.run_dropTable hexists
    rw [hrun]
    have hcases : ∀ file, ((store.files.removeAll home (ownFiles table columns)).entryAt? home
        file).isSome = true ↔
          file ∉ ownFiles table columns ∧ (store.files.entryAt? home file).isSome = true := by
      intro file
      rw [FileSystem.entryAt?_removeAll]
      by_cases hfile : file ∈ ownFiles table columns <;> simp [hfile]
    have hnames : ∀ file ∈ ownFiles table columns, IsFileName file := by
      intro file hfile
      rcases List.mem_append.mp hfile with hfile | hfile
      · obtain ⟨column, hcolumn, rfl⟩ := List.mem_map.mp hfile
        have hentry := (h.mem_listIndexes_iff hcolumns).mp hcolumn
        exact isFileName_indexFile (isName_of_eq_true htable)
          (isName_of_eq_true (h.names_of_indexFile hentry).2)
      · obtain rfl := List.mem_singleton.mp hfile
        exact isFileName_tableFile (isName_of_eq_true htable)
    refine ⟨h.rooted.removeAll hnames, fun hfile ↦ h.reach ((hcases _).mp hfile).2,
      fun hfile ↦ h.only ((hcases _).mp hfile).2, fun {other column} hother hcolumn hindex ↦ ?_,
      fun {other column} hcached ↦ ?_⟩
    · obtain ⟨hkept, hpresent⟩ := (hcases _).mp hindex
      refine (hcases _).mpr ⟨fun hmem ↦ hkept ?_, h.owned hother hcolumn hpresent⟩
      obtain rfl := (tableFile_mem_ownFiles hother).mp hmem
      exact (indexFile_mem_ownFiles htable hother).mpr
        ⟨rfl, (h.mem_listIndexes_iff hcolumns).mpr hpresent⟩
    · change ((store.cache.filter fun entry ↦ !decide (entry.1.1 = table)).lookup _).isSome = true
        at hcached
      rw [Store.lookup_forget store fun key ↦ decide (key.1 = table)] at hcached
      split at hcached
      · cases hcached
      · rename_i hne
        obtain ⟨hother, hcolumn, hindex⟩ := h.cached hcached
        refine ⟨hother, hcolumn, (hcases _).mpr ⟨fun hmem ↦ hne ?_, hindex⟩⟩
        exact decide_eq_true ((indexFile_mem_ownFiles htable hother).mp hmem).1

theorem dropIndex (h : store.Orderly home) (table column : String) :
    ((Operation.dropIndex table column).run store).2.Orderly home := by
  refine h.ask_bind fun _ htable ↦ h.ask_bind fun _ hcolumn ↦ ?_
  have htable' := Contents.checkName_eq_ok.mp htable
  have hcolumn' := Contents.checkName_eq_ok.mp hcolumn
  have hforget := h.forget fun key ↦ decide (key = (table, column))
  simp only [Operation.run_bind, Operation.run_get, Operation.run_forget]
  split
  · rename_i hfile
    rw [h.isFile_index htable' hcolumn'] at hfile
    have hrun := (Operation.run_removeIndexFile table column _).trans
      (Operation.run_removeFile hforget.rooted (isFileName_indexFile (isName_of_eq_true htable')
        (isName_of_eq_true hcolumn')) (h.reach hfile) hfile)
    rw [hrun]
    refine hforget.removeIndex htable' hcolumn' ?_
    rw [Store.lookup_forget store fun key ↦ decide (key = (table, column))]
    exact if_pos (decide_eq_true rfl)
  · exact hforget

theorem createTable (h : store.Orderly home) (table : String) (schema : Schema) :
    ((Operation.createTable table schema).run store).2.Orderly home := by
  refine h.ask_bind fun _ htable ↦ h.ask_bind fun _ _ ↦ h.ask_bind fun _ _ ↦ ?_
  exact h.writeTable (Contents.checkName_eq_ok.mp htable) rfl

theorem tableIndex (h : store.Orderly home) (table column : String) :
    ((Operation.tableIndex table column).run store).2.Orderly home :=
  h.ask_bind fun _ hcheck ↦ h.index (Store.isName_of_checkTable hcheck) column

end Store.Orderly

namespace Store.Neat

variable {home : Location} {store : Store} {table column : String}

theorem document_bind {α : Type} (h : store.Neat home) {f : TableDocument × Schema → Operation α}
    (hf : ∀ document schema, isName table = true →
      (store.files.entryAt? home (tableFile table)).isSome = true → document.Belongs table →
        schema.columns = document.columns → ((f (document, schema)).run store).2.Orderly home) :
    ((Operation.ask (fun store ↦ store.document table) >>= f).run store).2.Orderly home := by
  refine h.ask_bind fun found hdocument ↦ ?_
  obtain ⟨htable, hbelongs, hcolumns⟩ := h.sturdy.document hdocument
  obtain ⟨⟨⟩, -, hfound⟩ := bind_eq_ok.mp hdocument
  obtain ⟨⟨⟩, hfile, -⟩ := bind_eq_ok.mp hfound
  rw [ensure_eq_ok, h.isFile_table htable] at hfile
  exact hf found.1 found.2 htable hfile hbelongs hcolumns

theorem rowChange (h : store.Neat home) (change : RowChange) (table : String) :
    ((change.operation table).run store).2.Orderly home := by
  have hindex : ∀ column, isName table = true →
      Moves (Store.StaysOrderly home) (Operation.index table column) :=
    fun column htable _ hstore ↦ hstore.index htable column
  have hchange : ∀ column change, isName table = true →
      Moves (Store.StaysOrderly home) (Operation.changeIndex table column change) :=
    fun column change htable _ hstore ↦ hstore.changeIndex htable column change
  have hwrite : ∀ document : TableDocument, isName table = true → document.name = table →
      Moves (Store.StaysOrderly home) (Operation.writeTable document) :=
    fun document htable hname _ hstore ↦ hstore.writeTable htable hname
  cases change with
  | insert row =>
    refine h.document_bind fun document schema htable _ hdocument _ ↦ ?_
    refine Moves.orderly ?_ h.toOrderly
    refine .bind (.ofResult _) fun record ↦ .bind (.ask _) fun columns ↦ .bind (.mapM fun column ↦ ?_) fun keys ↦ ?_
    · exact .indexEntry (hindex column htable) row
    · exact .bind (hwrite _ htable hdocument.name) fun _ ↦ .forM fun entry ↦ hchange _ _ htable
  | update position row =>
    refine h.document_bind fun document schema htable _ hdocument _ ↦ ?_
    refine Moves.orderly ?_ h.toOrderly
    refine .bind (.ofResult _) fun _ ↦ .bind (.ofResult _) fun record ↦ .bind (.ask _) fun old ↦ ?_
    refine .bind (.ask _) fun columns ↦ .bind (.mapM fun column ↦ ?_) fun moves ↦ ?_
    · exact .indexMove (hindex column htable) old row
    · refine .bind_run (.ofResult _) fun {_ changed _} hrun ↦ ?_
      have hname := (Store.name_of_replaceRecord (Prod.mk.inj hrun).1).trans hdocument.name
      exact Moves.bind (hwrite changed htable hname) (fun _ ↦ .forM fun entry ↦ hchange _ _ htable) _
  | delete position =>
    refine h.document_bind fun document schema htable _ hdocument _ ↦ ?_
    refine Moves.orderly ?_ h.toOrderly
    refine .bind (.ofResult _) fun _ ↦ .bind (.ask _) fun old ↦ ?_
    refine .bind (.ask _) fun columns ↦ .bind (.mapM fun column ↦ ?_) fun keys ↦ ?_
    · exact .indexEntry (hindex column htable) old
    · refine .bind_run (.ofResult _) fun {_ changed _} hrun ↦ ?_
      have hname := (Store.name_of_removeRecord (Prod.mk.inj hrun).1).trans hdocument.name
      exact Moves.bind (hwrite changed htable hname) (fun _ ↦ .forM fun entry ↦ hchange _ _ htable) _

theorem createIndex (h : store.Neat home) (table column : String) :
    ((Operation.createIndex table column).run store).2.Orderly home := by
  refine h.document_bind fun document schema htable hpresent hdocument hcolumns ↦ ?_
  refine h.ask_bind fun _ hindexable ↦ ?_
  obtain ⟨definition, hdefinition, rfl, -⟩ := Contents.checkIndexable_eq_ok hindexable
  have hcolumn := hdocument.columns definition (hcolumns ▸ hdefinition)
  refine h.ask_bind fun rows _ ↦ h.ask_bind fun tree _ ↦ ?_
  have hafter := h.writeIndex htable hcolumn hpresent tree
  have hrun := (Operation.run_writeIndex table definition.name tree store).trans
    (Operation.run_write h.rooted
      (isFileName_indexFile (isName_of_eq_true htable) (isName_of_eq_true hcolumn)) tree.text)
  rw [Operation.run_bind]
  cases hreach : FileSystem.reach store.config.rootPath (indexFile table definition.name) with
  | error fault =>
    simp only [hrun, hreach]
    exact h.toOrderly
  | ok _ =>
    simp only [hrun, hreach] at hafter ⊢
    refine hafter.remembering htable hcolumn ?_ tree
    rw [FileSystem.entryAt?_put, if_pos rfl]
    rfl

theorem scan (h : store.Neat home) (table : String) (predicate : Predicate) :
    ((Operation.scan table predicate).run store).2.Orderly home := by
  refine h.document_bind fun document schema htable _ _ _ ↦ Moves.orderly ?_ h.toOrderly
  refine .bind (.ask _) fun rows ↦ .bind .get fun store ↦ .bind ?_ fun _ ↦ .ofResult _
  cases store.plan table predicate.hint with
  | full => exact .pure _
  | index column low high => exact .bind (fun _ hother ↦ hother.index htable column) fun _ ↦ .pure _

theorem read (h : store.Neat home) (table : String) (id : Int64) :
    ((Operation.read table id).run store).2.Orderly home := by
  refine h.document_bind fun document schema htable _ _ _ ↦ Moves.orderly ?_ h.toOrderly
  refine .bind (fun _ hother ↦ hother.index htable _) fun tree ↦ .bind (.ofResult _) fun found ↦ ?_
  split
  · exact .bind (.ask _) fun _ ↦ .pure _
  · exact .pure _

end Store.Neat

/-- An operation that leaves neat stores neat. -/
abbrev Neatly (home : Location) {α : Type} (op : Operation α) : Prop :=
  Guarded (Store.Neat home) Error.isPanic op

namespace Neatly

variable {home : Location} {α : Type}

theorem of_safe {op : Operation α} (hsafe : Safe [home] op)
    (h : ∀ store : Store, store.Neat home → (op.run store).2.Orderly home) : Neatly home op := by
  intro store hstore
  obtain ⟨hsturdy, havoids⟩ := hsafe store hstore.sturdy
  exact ⟨⟨h store hstore, hsturdy⟩, havoids⟩

theorem rowChange (change : RowChange) (table : String) : Neatly home (change.operation table) :=
  of_safe (Safe.rowChange change table) fun _ h ↦ h.rowChange change table

theorem scan (table : String) (predicate : Predicate) :
    Neatly home (Operation.scan table predicate) :=
  of_safe (Safe.scan table predicate) fun _ h ↦ h.scan table predicate

theorem closed : Closed (Neatly home) where
  pure := .pure
  ofResult h := .ofResult h.panic
  schema table := .ask fun store _ ↦ Avoids.schema store table
  bind := .bind
  scan table condition := scan table (.ofCondition condition)
  insert table row := rowChange (.insert row) table
  update table position row := rowChange (.update position row) table
  delete table position := rowChange (.delete position) table
  createTable table schema :=
    of_safe (Safe.createTable table schema) fun _ h ↦ h.toOrderly.createTable table schema
  dropTable table := of_safe (Safe.dropTable table) fun _ h ↦ h.dropTable table
  createIndex table column :=
    of_safe (Safe.createIndex table column) fun _ h ↦ h.createIndex table column

theorem call {call : Call} (hnamed : call.IsNamed) : Neatly home call.operation := by
  refine closed.call (fun table id ↦ ?_) (fun table column ↦ ?_) (fun table column ↦ ?_)
    (fun table predicate _ ↦ scan table predicate) ?_
  · exact of_safe (Safe.read table id) fun _ h ↦ h.read table id
  · exact of_safe (Safe.dropIndex table column) fun _ h ↦ h.toOrderly.dropIndex table column
  · exact of_safe (Safe.tableIndex table column) fun _ h ↦ h.toOrderly.tableIndex table column
  · rintro table column rfl
    exact of_safe (Safe.index table column) fun _ h ↦ h.index hnamed column

end Neatly

end

end TableStore
