import TableStore.Proofs.Store.Orderly

namespace TableStore

open FileSystem (reach Rooted Location IsFileName)
open Store (tableFile indexFile isName isName_of_eq_true isFileName_tableFile isFileName_indexFile)

/-- A place where the directory has or can have a file of a table or of one of its indexes. -/
def Store.IsOwnPlace (home : Location) (table : String) (location : Location) : Prop :=
  isName table = true ∧ ∃ file, Store.IsOwnFile table file ∧ location = home ++ [file]

/-- Stores over one directory with the same files and the same indexes in memory, except for those of
tables that they do not share. -/
structure Agree (home : Location) (shared : String → Prop) (store twin : Store) : Prop where
  config : twin.config = store.config
  rooted : Rooted store.files store.config.rootPath home
  rooted' : Rooted twin.files store.config.rootPath home
  files : ∀ location, (∀ table, Store.IsOwnPlace home table location → shared table) →
    twin.files.entries.lookup location = store.files.entries.lookup location
  cache : ∀ key, shared key.1 → twin.cache.lookup key = store.cache.lookup key

section

variable {home : Location} {shared shared' : String → Prop} {store twin other : Store}
  {table table' column file : String} {location : Location}

theorem Store.IsOwnFile.table_eq (h : Store.IsOwnFile table file) (h' : Store.IsOwnFile table' file)
    (htable : isName table = true) (htable' : isName table' = true) : table = table' := by
  have hnoDot := (isName_of_eq_true htable).noDot
  have hnoDot' := (isName_of_eq_true htable').noDot
  rcases h with rfl | ⟨column, rfl⟩
  · rcases h' with heq | ⟨column', heq⟩
    · exact Store.tableFile_inj heq
    · exact absurd heq (Store.tableFile_ne_indexFile hnoDot)
  · rcases h' with heq | ⟨column', heq⟩
    · exact absurd heq.symm (Store.tableFile_ne_indexFile hnoDot')
    · exact (Store.indexFile_inj hnoDot hnoDot' heq).1

theorem Store.IsOwnPlace.table_eq (h : Store.IsOwnPlace home table location)
    (h' : Store.IsOwnPlace home table' location) : table = table' := by
  obtain ⟨htable, file, hfile, rfl⟩ := h
  obtain ⟨htable', file', hfile', heq⟩ := h'
  obtain rfl := List.singleton_inj.mp (List.append_cancel_left heq)
  exact hfile.table_eq hfile' htable htable'

namespace Agree

theorem refl (h : Rooted store.files store.config.rootPath home) : Agree home shared store store :=
  ⟨rfl, h, h, fun _ _ ↦ rfl, fun _ _ ↦ rfl⟩

theorem symm (h : Agree home shared store twin) : Agree home shared twin store where
  config := h.config.symm
  rooted := h.config ▸ h.rooted'
  rooted' := h.config ▸ h.rooted
  files location hown := (h.files location hown).symm
  cache key hkey := (h.cache key hkey).symm

theorem trans (h : Agree home shared store twin) (h' : Agree home shared twin other) :
    Agree home shared store other where
  config := h'.config.trans h.config
  rooted := h.rooted
  rooted' := h.config ▸ h'.rooted'
  files location hown := (h'.files location hown).trans (h.files location hown)
  cache key hkey := (h'.cache key hkey).trans (h.cache key hkey)

theorem mono (h : Agree home shared store twin) (hshared : ∀ table, shared' table → shared table) :
    Agree home shared' store twin where
  config := h.config
  rooted := h.rooted
  rooted' := h.rooted'
  files location hown := h.files location fun table htable ↦ hshared table (hown table htable)
  cache key hkey := h.cache key (hshared key.1 hkey)

/-- No place is that of two tables, so stores that agree twice agree on all that is shared once. -/
theorem union (h : Agree home shared store twin) (h' : Agree home shared' store twin) :
    Agree home (fun table ↦ shared table ∨ shared' table) store twin where
  config := h.config
  rooted := h.rooted
  rooted' := h.rooted'
  files location hown := by
    by_cases hplace : ∀ table, Store.IsOwnPlace home table location → shared table
    · exact h.files location hplace
    · obtain ⟨table, hplace⟩ := Classical.not_forall.mp hplace
      obtain ⟨htable, hnot⟩ := Classical.not_imp.mp hplace
      refine h'.files location fun table' htable' ↦ ?_
      obtain rfl := htable.table_eq htable'
      exact (hown table htable).resolve_left hnot
  cache key hkey := hkey.elim (h.cache key) (h'.cache key)

theorem entryAt?_eq (h : Agree home shared store twin) (hshared : shared table)
    (hown : Store.IsOwnFile table file) (htable : isName table = true) :
    twin.files.entryAt? home file = store.files.entryAt? home file := by
  refine h.files _ fun table' htable' ↦ ?_
  have hplace : Store.IsOwnPlace home table (home ++ [file]) := ⟨htable, file, hown, rfl⟩
  exact hplace.table_eq htable' ▸ hshared

theorem find_join (h : Agree home shared store twin) (hshared : shared table)
    (hown : Store.IsOwnFile table file) (htable : isName table = true) (hfile : IsFileName file) :
    twin.files.find (store.config.rootPath.join file) =
      store.files.find (store.config.rootPath.join file) := by
  rw [h.rooted'.leads.find_join hfile, h.rooted.leads.find_join hfile,
    h.entryAt?_eq hshared hown htable]

theorem find_table (h : Agree home shared store twin) (hshared : shared table)
    (htable : isName table = true) :
    twin.files.find (store.tablePath table) = store.files.find (store.tablePath table) :=
  h.find_join hshared (.inl rfl) htable (isFileName_tableFile (isName_of_eq_true htable))

theorem find_index (h : Agree home shared store twin) (hshared : shared table)
    (htable : isName table = true) (hcolumn : isName column = true) :
    twin.files.find (store.indexPath table column) =
      store.files.find (store.indexPath table column) :=
  h.find_join hshared (.inr ⟨column, rfl⟩) htable
    (isFileName_indexFile (isName_of_eq_true htable) (isName_of_eq_true hcolumn))

theorem tablePath (h : Agree home shared store twin) (table : String) :
    twin.tablePath table = store.tablePath table := by
  rw [Store.tablePath, h.config, Store.tablePath]

theorem indexPath (h : Agree home shared store twin) (table column : String) :
    twin.indexPath table column = store.indexPath table column := by
  rw [Store.indexPath, h.config, Store.indexPath]

theorem isFile_index (h : Agree home shared store twin) (hshared : shared table)
    (htable : isName table = true) (hcolumn : isName column = true) :
    twin.files.isFile (twin.indexPath table column) =
      store.files.isFile (store.indexPath table column) := by
  rw [h.indexPath, FileSystem.isFile, h.find_index hshared htable hcolumn, FileSystem.isFile]

theorem tableExists (h : Agree home shared store twin) (hshared : shared table) :
    twin.tableExists table = store.tableExists table := by
  rw [Store.tableExists, Store.tableExists, h.tablePath]
  cases htable : isName table with
  | false => rfl
  | true => rw [FileSystem.isFile, h.find_table hshared htable, FileSystem.isFile]

theorem checkTable (h : Agree home shared store twin) (hshared : shared table) :
    twin.checkTable table = store.checkTable table := by
  rw [Store.checkTable, h.tableExists hshared, Store.checkTable]

theorem document (h : Agree home shared store twin) (hshared : shared table) :
    twin.document table = store.document table := by
  rw [Store.document, Store.document, h.tablePath]
  cases hname : Store.checkName table with
  | error e => rfl
  | ok _ =>
    have hfind := h.find_table hshared (Contents.checkName_eq_ok.mp hname)
    simp only [Store.readText, FileSystem.isFile, FileSystem.read, hfind]

theorem schema (h : Agree home shared store twin) (hshared : shared table) :
    twin.schema table = store.schema table := by
  rw [Store.schema, h.document hshared, Store.schema]

theorem rowCount (h : Agree home shared store twin) (hshared : shared table) :
    twin.rowCount table = store.rowCount table := by
  rw [Store.rowCount, h.document hshared, Store.rowCount]

theorem decodeRows (h : Agree home shared store twin) (document : TableDocument) (schema : Schema) :
    twin.decodeRows document schema = store.decodeRows document schema := by
  rw [Store.decodeRows, h.tablePath, Store.decodeRows]

theorem decodeAt (h : Agree home shared store twin) (document : TableDocument) (schema : Schema)
    (position : Nat) :
    twin.decodeAt table document schema position = store.decodeAt table document schema position := by
  rw [Store.decodeAt, h.tablePath, Store.decodeAt]

theorem readIndex (h : Agree home shared store twin) (hshared : shared table)
    (htable : isName table = true) (hcolumn : isName column = true) :
    twin.readIndex table column = store.readIndex table column := by
  have hfind := h.find_index hshared htable hcolumn
  simp only [Store.readIndex, Store.readText, FileSystem.isFile, FileSystem.read, h.indexPath, hfind]

theorem hasIndex (h : Agree home shared store twin) (hshared : shared table) (column : String) :
    twin.hasIndex table column = store.hasIndex table column := by
  rw [Store.hasIndex, Store.hasIndex, h.cache (table, column) hshared]
  cases htable : isName table with
  | false => simp only [Bool.false_and]
  | true =>
    cases hcolumn : isName column with
    | false => simp only [Bool.false_and, Bool.and_false]
    | true => rw [h.isFile_index hshared htable hcolumn]

theorem plan (h : Agree home shared store twin) (hshared : shared table) (hint : Option IndexHint) :
    twin.plan table hint = store.plan table hint := by
  cases hint with
  | none => rfl
  | some hint => rw [Store.plan, h.hasIndex hshared, Store.plan]

theorem listIndexes (h : Agree home shared store twin) (hshared : shared table)
    (htable : isName table = true) : twin.listIndexes table = store.listIndexes table :=
  Store.listIndexes_of_entryAt? h.config h.rooted h.rooted' fun column ↦
    h.entryAt?_eq hshared (.inr ⟨column, rfl⟩) htable

end Agree

end

end TableStore
