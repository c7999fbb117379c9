import TableStore.Proofs.Store.RowChange
import TableStore.Proofs.Store.Steady

namespace TableStore

open Store (isName indexFile)

/-- The stores that calls lead to from any files. The directory may hold tables and indexes that are
broken, foreign or at odds. -/
inductive Store.Opened : Store → Prop
  | start {config : Config} {files files' : FileSystem} {store : Store}
      (hstart : Store.start config files = (.ok store, files')) : Opened store
  | call {store : Store} (h : Opened store) (call : Call) : Opened (call.after store)

theorem Store.Opened.ready {store : Store} (h : store.Opened) : store.Ready := by
  induction h with
  | start hstart =>
    obtain ⟨-, -, rfl⟩ := Store.start_eq_ok hstart
    intro table column _ _ hcached
    cases hcached
  | @call store h call ih =>
    exact (Steady.call call store).ready ih

def Store.Retains (before after : Store) : Prop :=
  ∀ key, (before.cache.lookup key).isSome = true → (after.cache.lookup key).isSome = true

instance : IsPreorder Store Store.Retains where
  refl _ _ h := h
  trans _ _ _ h h' key hcached := h' key (h key hcached)

abbrev Recalls {α : Type} (op : Operation α) : Prop := Moves Store.Retains op

namespace Recalls

theorem write (path : Path) (text : String) : Recalls (Operation.write path text) := by
  intro store key hcached
  rw [Operation.write, Operation.run_changeFiles]
  split <;> exact hcached

theorem writeTable (document : TableDocument) : Recalls (Operation.writeTable document) :=
  .bind .get fun _ ↦ write _ _

theorem remember (table column : String) (tree : BTree) :
    Recalls (Operation.remember table column tree) := by
  intro store key hcached
  rw [Operation.run_remember, Store.lookup_remembering]
  split
  · rfl
  · exact hcached

theorem index (table column : String) : Recalls (Operation.index table column) := by
  refine .bind (.ofResult _) fun _ ↦ .bind .get fun store ↦ ?_
  cases store.cache.lookup (table, column) with
  | some tree => exact .pure tree
  | none => exact .bind (.ask _) fun tree ↦ .bind (remember table column tree) fun _ ↦ .pure tree

theorem changeIndex (table column : String) (change : BTree → Except BTree.Fault BTree) :
    Recalls (Operation.changeIndex table column change) := by
  refine .bind (index table column) fun tree ↦ .bind (.ofResult _) fun tree' ↦ ?_
  exact .bind (remember table column tree') fun _ ↦ .bind .get fun _ ↦ write _ _

end Recalls

section

variable {store store' : Store} {table column : String}

/-- An index over a column that can have one is in memory. -/
def Store.Caches (store : Store) (table column : String) : Prop :=
  isName column = true ∧ (store.cache.lookup (table, column)).isSome = true

theorem Store.Caches.run {α : Type} {op : Operation α} {r : Except Error α} (hop : Recalls op)
    (h : store.Caches table column) (hrun : op.run store = (r, store')) :
    store'.Caches table column := by
  have hcached := hop store _ h.2
  rw [hrun] at hcached
  exact ⟨h.1, hcached⟩

namespace Operation

theorem files_of_write_error {path : Path} {text : String} {e : Error}
    (h : (write path text).run store = (.error e, store')) : store'.files = store.files := by
  rw [write, run_changeFiles] at h
  split at h
  · cases (Prod.mk.inj h).1
  · rw [(Prod.mk.inj h).2]

theorem indexEntry_eq_ok {row : Row} {entry : String × Int64}
    (h : (indexEntry table row column).run store = (.ok entry, store')) :
    store'.Caches table entry.1 := by
  obtain ⟨key, -, h⟩ := run_ask_bind_eq_ok.mp h
  obtain ⟨tree, middle, hindex, h⟩ := run_bind_eq_ok.mp h
  obtain ⟨hentry, rfl⟩ := Prod.mk.inj h
  obtain ⟨hname, hcached⟩ := index_eq_ok hindex
  obtain rfl := Except.ok.inj hentry
  exact ⟨hname, by rw [hcached]; rfl⟩

theorem indexMove_eq_ok {old new : Row} {entry : String × Int64 × Int64}
    (h : (indexMove table old new column).run store = (.ok entry, store')) :
    store'.Caches table entry.1 := by
  obtain ⟨oldKey, -, h⟩ := run_ask_bind_eq_ok.mp h
  obtain ⟨newKey, -, h⟩ := run_ask_bind_eq_ok.mp h
  obtain ⟨tree, middle, hindex, h⟩ := run_bind_eq_ok.mp h
  obtain ⟨hentry, rfl⟩ := Prod.mk.inj h
  obtain ⟨hname, hcached⟩ := index_eq_ok hindex
  obtain rfl := Except.ok.inj hentry
  exact ⟨hname, by rw [hcached]; rfl⟩

/-- When entries were made one after the other, the indexes of all of them are in memory. -/
theorem mapM_caches {α : Type} {f : String → Operation (String × α)} {columns : List String}
    {entries : List (String × α)} (hf : ∀ {column store entry store'},
      (f column).run store = (.ok entry, store') → store'.Caches table entry.1)
    (hrecalls : ∀ column, Recalls (f column))
    (hrun : (columns.mapM f).run store = (.ok entries, store')) :
    ∀ entry ∈ entries, store'.Caches table entry.1 := by
  induction columns generalizing store entries with
  | nil =>
    obtain ⟨hentries, -⟩ := Prod.mk.inj hrun
    obtain rfl := Except.ok.inj hentries
    exact nofun
  | cons column columns ih =>
    rw [List.mapM_cons] at hrun
    obtain ⟨entry, middle, hentry, hrun⟩ := run_bind_eq_ok.mp hrun
    obtain ⟨rest, last, hrest, hrun⟩ := run_bind_eq_ok.mp hrun
    obtain ⟨hentries, rfl⟩ := Prod.mk.inj hrun
    obtain rfl := Except.ok.inj hentries
    exact List.forall_mem_cons.mpr ⟨(hf hentry).run (.mapM hrecalls) hrest, ih hrest⟩

theorem changeIndex_error (htable : isName table = true) (hready : store.Ready)
    (hcaches : store.Caches table column) {change : BTree → Except BTree.Fault BTree} {e : Error}
    (h : ((changeIndex table column change).run store).1 = .error e) :
    ∃ fault, e = .brokenTree fault := by
  obtain ⟨hcolumn, hcached⟩ := hcaches
  obtain ⟨location, htarget⟩ := hready htable hcolumn hcached
  obtain ⟨tree, htree⟩ := Option.isSome_iff_exists.mp hcached
  have hindex : (index table column).run store = (.ok tree, store) := by
    rw [run_index, Contents.checkName_eq_ok.mpr hcolumn, htree]
  rw [changeIndex, run_bind, hindex] at h
  cases hchange : change tree with
  | error fault =>
    simp only [run_bind, onTree, ofResult, run_ask, hchange, mapError_error] at h
    exact ⟨fault, (Except.error.inj h).symm⟩
  | ok tree' =>
    have htarget' : (store.remembering table column tree').files.target
        ((store.remembering table column tree').indexPath table column) = .ok location := htarget
    simp only [run_bind, onTree, ofResult, run_ask, hchange, mapError_ok, run_remember,
      run_writeIndex, write, run_changeFiles, FileSystem.write, htarget', ok_bind, pure_eq_ok] at h
    cases h

theorem changeIndexes_error {α : Type} {column : α → String}
    {change : α → BTree → Except BTree.Fault BTree} {xs : List α} (htable : isName table = true)
    (hready : store.Ready) (hcaches : ∀ x ∈ xs, store.Caches table (column x)) {e : Error}
    (h : ((xs.forM fun x ↦ changeIndex table (column x) (change x)).run store).1 = .error e) :
    ∃ fault, e = .brokenTree fault := by
  induction xs generalizing store with
  | nil => cases h
  | cons x xs ih =>
    obtain ⟨hx, hxs⟩ := List.forall_mem_cons.mp hcaches
    rw [List.forM_eq_forM, List.forM_cons, run_bind] at h
    rcases hrun : (changeIndex table (column x) (change x)).run store with ⟨r, middle⟩
    rw [hrun] at h
    cases r with
    | error e' =>
      obtain rfl := Except.error.inj h
      exact changeIndex_error htable hready hx (by rw [hrun])
    | ok _ =>
      have honward := Steady.changeIndex table (column x) (change x) store
      rw [hrun] at honward
      exact ih (honward.ready hready)
        (fun y hy ↦ (hxs y hy).run (.changeIndex table (column x) (change x)) hrun) h

end Operation

/-- An operation that leaves all files as they are when it fails, if no tree breaks. -/
def Spares {α : Type} (op : Operation α) : Prop :=
  ∀ store : Store, store.Ready → ∀ e, (op.run store).1 = .error e →
    (∀ fault, e ≠ .brokenTree fault) → (op.run store).2.files = store.files

namespace Spares

variable {α β : Type}

theorem ask_bind {question : Store → Except Error α} {f : α → Operation β}
    (hf : ∀ a store, question store = .ok a → Spares (f a)) :
    Spares (Operation.ask question >>= f) := by
  intro store hready e
  rw [Operation.run_bind, Operation.run_ask]
  cases hanswer : question store with
  | error e' => exact fun _ _ ↦ rfl
  | ok a => exact hf a store hanswer store hready e

/-- A table is written when the indexes to be changed are in memory. Nothing is read after that, so that
only a broken tree or the write itself could stop the change. -/
theorem write_indexes {f : String → Operation (String × α)} {columns : List String}
    {changed : Except Error TableDocument} {chosen : List (String × α) → List (String × α)}
    {change : String × α → BTree → Except BTree.Fault BTree} (htable : isName table = true)
    (hchosen : ∀ entries, chosen entries ⊆ entries)
    (hquiet : ∀ column, Quiet (f column)) (hsteady : ∀ column, Steady (f column))
    (hrecalls : ∀ column, Recalls (f column))
    (hf : ∀ {column store entry store'},
      (f column).run store = (.ok entry, store') → store'.Caches table entry.1) :
    Spares (columns.mapM f >>= fun entries ↦ do
      Operation.writeTable (← Operation.ofResult changed)
      (chosen entries).forM fun entry ↦
        Operation.changeIndex table entry.1 (change entry)) := by
  intro store hready e
  have hfiles : ((columns.mapM f).run store).2.files = store.files := (Quiet.mapM hquiet store).1
  have honward : store.Onward ((columns.mapM f).run store).2 := Moves.mapM hsteady store
  rw [Operation.run_bind]
  rcases hrun : (columns.mapM f).run store with ⟨r, middle⟩
  rw [hrun] at hfiles honward
  cases r with
  | error e' => exact fun _ _ ↦ hfiles
  | ok entries =>
    cases changed with
    | error e' => exact fun _ _ ↦ hfiles
    | ok document =>
      have hcaches := Operation.mapM_caches hf hrecalls hrun
      have hafter := Steady.writeTable document middle
      simp only [Operation.ofResult_ok_bind, Operation.run_bind]
      rcases hwrite : (Operation.writeTable document).run middle with ⟨r, after⟩
      rw [hwrite] at hafter
      cases r with
      | error e' =>
        have hwrite' :=
          Operation.files_of_write_error ((Operation.run_writeTable _ _).symm.trans hwrite)
        exact fun _ _ ↦ hwrite'.trans hfiles
      | ok _ =>
        intro herror hanswer
        have hrecalled : ∀ entry ∈ chosen entries, after.Caches table entry.1 :=
          fun entry hentry ↦ (hcaches entry (hchosen entries hentry)).run
            (.writeTable document) hwrite
        obtain ⟨fault, rfl⟩ := Operation.changeIndexes_error htable
          (hafter.ready (honward.ready hready)) hrecalled herror
        exact absurd rfl (hanswer fault)

theorem insert_indexes {row : Row} {columns : List String} {changed : Except Error TableDocument}
    {change : String × Int64 → BTree → Except BTree.Fault BTree} (htable : isName table = true) :
    Spares (columns.mapM (Operation.indexEntry table row) >>= fun entries ↦ do
      Operation.writeTable (← Operation.ofResult changed)
      entries.forM fun entry ↦ Operation.changeIndex table entry.1 (change entry)) :=
  write_indexes htable (fun entries ↦ List.Subset.refl entries) (Quiet.indexEntry table row)
    (fun column ↦ .indexEntry (Steady.index table column) row)
    (fun column ↦ .indexEntry (Recalls.index table column) row) Operation.indexEntry_eq_ok

theorem rowChange (change : RowChange) (table : String) : Spares (change.operation table) := by
  cases change with
  | insert row =>
    refine ask_bind fun ⟨document, schema⟩ store hdocument ↦ ?_
    have htable := (Store.document_eq_ok hdocument).1
    refine ask_bind fun record _ _ ↦ ask_bind fun columns _ _ ↦ ?_
    exact @insert_indexes _ row columns
      (.ok { document with records := document.records ++ [record] }) _ htable
  | update position row =>
    refine ask_bind fun ⟨document, schema⟩ store hdocument ↦ ?_
    have htable := (Store.document_eq_ok hdocument).1
    refine ask_bind fun _ _ _ ↦ ask_bind fun record _ _ ↦ ask_bind fun old _ _ ↦ ?_
    refine ask_bind fun columns _ _ ↦ ?_
    exact write_indexes htable (fun _ ↦ List.filter_sublist.subset)
      (Quiet.indexMove table old row) (fun column ↦ .indexMove (Steady.index table column) old row)
      (fun column ↦ .indexMove (Recalls.index table column) old row) Operation.indexMove_eq_ok
  | delete position =>
    refine ask_bind fun ⟨document, schema⟩ store hdocument ↦ ?_
    have htable := (Store.document_eq_ok hdocument).1
    refine ask_bind fun _ _ _ ↦ ask_bind fun old _ _ ↦ ask_bind fun columns _ _ ↦ ?_
    exact insert_indexes htable

/-- The one file that is written for a new index is written last. -/
theorem createIndex (table column : String) : Spares (Operation.createIndex table column) := by
  refine ask_bind fun ⟨document, schema⟩ _ _ ↦ ask_bind fun _ _ _ ↦ ask_bind fun rows _ _ ↦ ?_
  refine ask_bind fun tree _ _ ↦ ?_
  intro store _ e
  rw [Operation.run_bind]
  rcases hwrite : (Operation.writeIndex table column tree).run store with ⟨r, store'⟩
  cases r with
  | error e' =>
    have hfiles :=
      Operation.files_of_write_error ((Operation.run_writeIndex _ _ _ _).symm.trans hwrite)
    exact fun _ _ ↦ hfiles
  | ok _ => exact fun herror ↦ nomatch herror

end Spares

end

/-- Over any files, and whatever indexes are in memory, a change of a row or the making of an index that
answers with an error has changed no file. A tree that breaks gives no answer. -/
theorem Store.Opened.refused_unchanged {store : Store} (h : store.Opened) (table : String) {e : Error}
    (hanswer : ∀ fault, e ≠ .brokenTree fault) :
    (∀ change : RowChange, ((change.operation table).run store).1 = .error e →
      ((change.operation table).run store).2.files = store.files) ∧
    ∀ column, ((Operation.createIndex table column).run store).1 = .error e →
      ((Operation.createIndex table column).run store).2.files = store.files :=
  ⟨fun change herror ↦ Spares.rowChange change table store h.ready e herror hanswer,
    fun column herror ↦ Spares.createIndex table column store h.ready e herror hanswer⟩

/-- A table whose index file holds no tree. -/
def Store.brokenIndex : Store :=
  { titled "t" with
    files := (titled "t").files.put ["data", indexFile "t" "n"] (.text "\x7b\x7d") }

theorem Store.Opened.refused_unchanged_broken : ∃ e, Store.brokenIndex.Opened ∧
    (∀ fault, e ≠ .brokenTree fault) ∧
    (((RowChange.insert RowChange.one).operation "t").run Store.brokenIndex).1 = .error e ∧
    (((RowChange.insert RowChange.one).operation "t").run Store.brokenIndex).2.files =
      Store.brokenIndex.files := by
  have hopened : Store.brokenIndex.Opened :=
    .start (show Store.start {} Store.brokenIndex.files = (.ok _, _) from rfl)
  have hcorrupt : ¬Avoids Error.isCorrupt
      (((RowChange.insert RowChange.one).operation "t").run Store.brokenIndex).1 := by
    decide +kernel
  obtain ⟨e, he, hkind⟩ := Avoids.exists_error hcorrupt
  have hanswer : ∀ fault, e ≠ .brokenTree fault := by
    rintro fault rfl
    cases hkind
  exact ⟨e, hopened, hanswer, he, (hopened.refused_unchanged "t" hanswer).1 _ he⟩

end TableStore
