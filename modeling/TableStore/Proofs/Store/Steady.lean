import TableStore.Proofs.Directories
import TableStore.Proofs.Store.Moves
import TableStore.Proofs.Store.Reachable

namespace TableStore

open FileSystem (SameDirectories)
open Store (isName isName_of_eq_true isFileName_indexFile)

def Store.Writable (store : Store) (table column : String) : Prop :=
  ∃ location, store.files.target (store.indexPath table column) = .ok location

/-- A store whose indexes in memory can be written. -/
def Store.Ready (store : Store) : Prop :=
  ∀ {table column}, isName table = true → isName column = true →
    (store.cache.lookup (table, column)).isSome = true → store.Writable table column

/-- What no operation goes beyond: the directories stay, and an index that comes into memory can be
written. -/
structure Store.Onward (before after : Store) : Prop where
  config : after.config = before.config
  directories : SameDirectories before.files after.files
  cache : ∀ {table column}, isName table = true → isName column = true →
    (after.cache.lookup (table, column)).isSome = true →
      (before.cache.lookup (table, column)).isSome = true ∨ before.Writable table column

abbrev Steady {α : Type} (op : Operation α) : Prop := Moves Store.Onward op

section

variable {before middle after store : Store} {table column : String}

namespace Store.Onward

theorem refl (store : Store) : store.Onward store :=
  ⟨rfl, .refl _, fun _ _ hcached ↦ .inl hcached⟩

theorem writable (hconfig : after.config = before.config)
    (hdirectories : SameDirectories before.files after.files) (h : before.Writable table column) :
    after.Writable table column := by
  obtain ⟨location, hlocation⟩ := h
  refine ⟨location, ?_⟩
  rw [Store.indexPath, hconfig]
  exact hdirectories.target hlocation

theorem ready (h : before.Onward after) (hready : before.Ready) : after.Ready := by
  intro table column htable hcolumn hcached
  apply writable h.config h.directories
  rcases h.cache htable hcolumn hcached with hcached | hwritable
  · exact hready htable hcolumn hcached
  · exact hwritable

theorem trans (h : before.Onward middle) (h' : middle.Onward after) : before.Onward after where
  config := h'.config.trans h.config
  directories := h.directories.trans h'.directories
  cache htable hcolumn hcached := by
    rcases h'.cache htable hcolumn hcached with hcached | hwritable
    · exact h.cache htable hcolumn hcached
    · exact .inr (writable h.config.symm h.directories.symm hwritable)

theorem files {files' : FileSystem} (h : SameDirectories store.files files') :
    store.Onward { store with files := files' } :=
  ⟨rfl, h, fun _ _ hcached ↦ .inl hcached⟩

theorem remembering (tree : BTree)
    (h : isName table = true → isName column = true →
      (store.cache.lookup (table, column)).isSome = true ∨ store.Writable table column) :
    store.Onward (store.remembering table column tree) := by
  refine ⟨rfl, .refl _, fun {other column'} hother hcolumn' hcached ↦ ?_⟩
  rw [Store.lookup_remembering] at hcached
  by_cases hkey : (other, column') = (table, column)
  · obtain ⟨rfl, rfl⟩ := Prod.mk.inj hkey
    exact h hother hcolumn'
  · rw [if_neg hkey] at hcached
    exact .inl hcached

end Store.Onward

instance : IsPreorder Store Store.Onward where
  refl := .refl
  trans _ _ _ := .trans

theorem Store.writable_of_readIndex {tree : BTree} (htable : isName table = true)
    (hcolumn : isName column = true) (h : store.readIndex table column = .ok tree) :
    store.Writable table column := by
  obtain ⟨⟨⟩, hfile, -⟩ := bind_eq_ok.mp h
  exact FileSystem.exists_target_of_isFile
    (isFileName_indexFile (isName_of_eq_true htable) (isName_of_eq_true hcolumn))
    (ensure_eq_ok.mp hfile)

namespace Operation

theorem writable_of_writeIndex {tree : BTree}
    (h : (writeIndex table column tree).run before = (.ok (), after)) :
    after.Writable table column := by
  rw [run_writeIndex, write, run_changeFiles] at h
  cases hwrite : before.files.write (before.indexPath table column) (.text tree.text) with
  | error fault =>
    rw [hwrite] at h
    cases (Prod.mk.inj h).1
  | ok files =>
    rw [hwrite] at h
    obtain rfl := (Prod.mk.inj h).2
    obtain ⟨location, htarget, -⟩ := bind_eq_ok.mp hwrite
    exact ⟨location, (FileSystem.sameDirectories_write hwrite).target htarget⟩

end Operation

namespace Steady

theorem changeFiles {path : Path} {change : FileSystem → Except FileSystem.Fault FileSystem}
    (h : ∀ files files', change files = .ok files' → SameDirectories files files') :
    Steady (Operation.changeFiles path change) := by
  intro store
  rw [Operation.run_changeFiles]
  cases hchange : change store.files with
  | error fault => exact .refl store
  | ok files => exact .files (h _ _ hchange)

theorem write (path : Path) (text : String) : Steady (Operation.write path text) :=
  changeFiles fun _ _ ↦ FileSystem.sameDirectories_write

theorem removeFile (path : Path) : Steady (Operation.removeFile path) :=
  changeFiles fun _ _ ↦ FileSystem.sameDirectories_removeFile

theorem writeTable (document : TableDocument) : Steady (Operation.writeTable document) :=
  .bind .get fun _ ↦ write _ _

theorem writeIndex (table column : String) (tree : BTree) :
    Steady (Operation.writeIndex table column tree) :=
  .bind .get fun _ ↦ write _ _

theorem removeIndexFile (table column : String) : Steady (Operation.removeIndexFile table column) :=
  .bind .get fun _ ↦ removeFile _

theorem forget (dropped : String × String → Bool) : Steady (Operation.forget dropped) := by
  intro store
  refine ⟨rfl, .refl _, fun {table column} _ _ hcached ↦ .inl ?_⟩
  change (List.lookup _ (store.cache.filter _)).isSome = true at hcached
  rw [Store.lookup_forget] at hcached
  split at hcached
  · cases hcached
  · exact hcached

theorem index (table column : String) : Steady (Operation.index table column) := by
  intro store
  rw [Operation.run_index]
  cases hname : Store.checkName column with
  | error e => exact .refl store
  | ok _ =>
    cases hcached : store.cache.lookup (table, column) with
    | some tree => exact .refl store
    | none =>
      cases hread : store.readIndex table column with
      | error e => exact .refl store
      | ok tree =>
        exact .remembering tree fun htable hcolumn ↦
          .inr (Store.writable_of_readIndex htable hcolumn hread)

theorem changeIndex (table column : String) (change : BTree → Except BTree.Fault BTree) :
    Steady (Operation.changeIndex table column change) := by
  refine .bind_run (index table column) fun {store tree store'} hindex ↦ ?_
  have hcached := (Operation.index_eq_ok hindex).2
  cases hchange : change tree with
  | error fault => exact .refl store'
  | ok tree' =>
    have hremember : store'.Onward (store'.remembering table column tree') :=
      .remembering tree' fun _ _ ↦ .inl (by rw [hcached]; rfl)
    exact hremember.trans (writeIndex table column tree' _)

theorem insert (table : String) (row : Row) : Steady (Operation.insert table row) := by
  refine .bind (.ask _) fun _ ↦ .bind (.ofResult _) fun record ↦ .bind (.ask _) fun columns ↦ ?_
  refine .bind (.mapM fun column ↦ .indexEntry (index table column) row) fun keys ↦ ?_
  refine .bind (writeTable _) fun _ ↦ ?_
  exact .forM fun _ ↦ changeIndex _ _ _

theorem update (table : String) (position : Nat) (row : Row) :
    Steady (Operation.update table position row) := by
  refine .bind (.ask _) fun _ ↦ .bind (.ofResult _) fun _ ↦ .bind (.ofResult _) fun record ↦ ?_
  refine .bind (.ask _) fun old ↦ .bind (.ask _) fun columns ↦ ?_
  refine .bind (.mapM fun column ↦ .indexMove (index table column) old row) fun moves ↦ ?_
  refine .bind (.ofResult _) fun _ ↦ .bind (writeTable _) fun _ ↦ ?_
  exact .forM fun _ ↦ changeIndex _ _ _

theorem delete (table : String) (position : Nat) : Steady (Operation.delete table position) := by
  refine .bind (.ask _) fun _ ↦ .bind (.ofResult _) fun _ ↦ .bind (.ask _) fun old ↦ ?_
  refine .bind (.ask _) fun columns ↦ ?_
  refine .bind (.mapM fun column ↦ .indexEntry (index table column) old) fun keys ↦ ?_
  refine .bind (.ofResult _) fun _ ↦ .bind (writeTable _) fun _ ↦ ?_
  exact .forM fun _ ↦ changeIndex _ _ _

theorem read (table : String) (id : Int64) : Steady (Operation.read table id) := by
  refine .bind (.ask _) fun _ ↦ .bind (index table _) fun tree ↦ .bind (.ofResult _) fun found ↦ ?_
  split
  · exact .bind (.ask _) fun _ ↦ .pure _
  · exact .pure _

theorem scan (table : String) (predicate : Predicate) :
    Steady (Operation.scan table predicate) := by
  refine .bind (.ask _) fun _ ↦ .bind (.ask _) fun rows ↦ .bind .get fun store ↦ ?_
  refine .bind ?_ fun _ ↦ .ofResult _
  cases store.plan table predicate.hint with
  | full => exact .pure _
  | index column low high => exact .bind (index table column) fun _ ↦ .pure _

theorem createTable (table : String) (schema : Schema) :
    Steady (Operation.createTable table schema) :=
  .bind (.ofResult _) fun _ ↦ .bind (.ofResult _) fun _ ↦ .bind (.ask _) fun _ ↦ writeTable _

theorem dropTable (table : String) : Steady (Operation.dropTable table) := by
  refine .bind (.ask _) fun _ ↦ .bind (.ask _) fun columns ↦ ?_
  refine .bind (.forM (removeIndexFile table)) fun _ ↦ .bind (forget _) fun _ ↦ ?_
  exact .bind .get fun _ ↦ removeFile _

theorem createIndex (table column : String) : Steady (Operation.createIndex table column) := by
  refine .bind (.ask _) fun _ ↦ .bind (.ofResult _) fun _ ↦ .bind (.ask _) fun rows ↦ ?_
  refine .bind (.ask _) fun tree ↦ .bind_run (writeIndex table column tree) fun hwrite ↦ ?_
  exact .remembering tree fun _ _ ↦ .inr (Operation.writable_of_writeIndex hwrite)

theorem dropIndex (table column : String) : Steady (Operation.dropIndex table column) := by
  refine .bind (.ofResult _) fun _ ↦ .bind (.ofResult _) fun _ ↦ .bind .get fun store ↦ ?_
  refine .bind (forget _) fun _ ↦ ?_
  split
  · exact removeIndexFile table column
  · exact .ofResult _

theorem tableIndex (table column : String) : Steady (Operation.tableIndex table column) :=
  .bind (.ask _) fun _ ↦ index table column

theorem closed : Closed @Steady where
  pure := .pure
  ofResult _ := .ofResult _
  schema _ := .ask _
  bind := .bind
  scan table condition := scan table (.ofCondition condition)
  insert := insert
  update := update
  delete := delete
  createTable := createTable
  dropTable := dropTable
  createIndex := createIndex

theorem call (call : Call) : Steady call.operation :=
  closed.call read dropIndex tableIndex (fun table predicate _ ↦ scan table predicate)
    fun table column _ ↦ index table column

end Steady

end

end TableStore
