import TableStore.Proofs.Store.Agree

namespace TableStore

open FileSystem (reach Rooted Location IsFileName)
open Store (tableFile indexFile isName isName_of_eq_true isFileName_tableFile isFileName_indexFile)

section

variable {home : Location} {shared : String → Prop} {origin store twin : Store}
  {table column file : String}

namespace Agree

theorem put (h : Agree home shared store twin) (hfile : IsFileName file) (text : String) :
    Agree home shared { store with files := store.files.put (home ++ [file]) (.text text) }
      { twin with files := twin.files.put (home ++ [file]) (.text text) } where
  config := h.config
  rooted := h.rooted.put hfile rfl
  rooted' := h.rooted'.put hfile rfl
  files location hown := by
    rw [FileSystem.lookup_entries_put, FileSystem.lookup_entries_put, h.files location hown]
  cache := h.cache

theorem remove (h : Agree home shared store twin) (hfile : IsFileName file) :
    Agree home shared { store with files := store.files.remove (home ++ [file]) }
      { twin with files := twin.files.remove (home ++ [file]) } where
  config := h.config
  rooted := h.rooted.remove hfile
  rooted' := h.rooted'.remove hfile
  files location hown := by
    rw [FileSystem.lookup_entries_remove, FileSystem.lookup_entries_remove, h.files location hown]
  cache := h.cache

theorem remembering (h : Agree home shared store twin) (table column : String) (tree : BTree) :
    Agree home shared (store.remembering table column tree)
      (twin.remembering table column tree) where
  config := h.config
  rooted := h.rooted
  rooted' := h.rooted'
  files := h.files
  cache key hkey := by rw [Store.lookup_remembering, Store.lookup_remembering, h.cache key hkey]

theorem forget (h : Agree home shared store twin) (dropped : String × String → Bool) :
    Agree home shared { store with cache := store.cache.filter fun entry ↦ !dropped entry.1 }
      { twin with cache := twin.cache.filter fun entry ↦ !dropped entry.1 } where
  config := h.config
  rooted := h.rooted
  rooted' := h.rooted'
  files := h.files
  cache key hkey := by rw [Store.lookup_forget, Store.lookup_forget, h.cache key hkey]

theorem put_own (h : Rooted store.files store.config.rootPath home) (hfile : IsFileName file)
    (hown : Store.IsOwnPlace home table (home ++ [file])) (text : String) :
    Agree home (· ≠ table) store
      { store with files := store.files.put (home ++ [file]) (.text text) } where
  config := rfl
  rooted := h
  rooted' := h.put hfile rfl
  files location hother := by
    rw [FileSystem.lookup_entries_put, if_neg]
    rintro rfl
    exact hother table hown rfl
  cache _ _ := rfl

theorem remove_own (h : Rooted store.files store.config.rootPath home) (hfile : IsFileName file)
    (hown : Store.IsOwnPlace home table (home ++ [file])) :
    Agree home (· ≠ table) store
      { store with files := store.files.remove (home ++ [file]) } where
  config := rfl
  rooted := h
  rooted' := h.remove hfile
  files location hother := by
    rw [FileSystem.lookup_entries_remove, if_neg]
    rintro rfl
    exact hother table hown rfl
  cache _ _ := rfl

theorem remembering_own (h : Rooted store.files store.config.rootPath home) (table column : String)
    (tree : BTree) : Agree home (· ≠ table) store (store.remembering table column tree) where
  config := rfl
  rooted := h
  rooted' := h
  files _ _ := rfl
  cache key hkey := by
    rw [Store.lookup_remembering, if_neg]
    rintro rfl
    exact hkey rfl

theorem forget_own (h : Rooted store.files store.config.rootPath home)
    {dropped : String × String → Bool} (hdropped : ∀ key, dropped key = true → key.1 = table) :
    Agree home (· ≠ table) store
      { store with cache := store.cache.filter fun entry ↦ !dropped entry.1 } where
  config := rfl
  rooted := h
  rooted' := h
  files _ _ := rfl
  cache key hkey := by
    rw [Store.lookup_forget, if_neg fun hforgotten ↦ hkey (hdropped key hforgotten)]

end Agree

/-- Two stores that agree, of which the first has come from a store by steps on one table. -/
structure Abreast (home : Location) (shared : String → Prop) (table : String)
    (origin store twin : Store) : Prop where
  agree : Agree home shared store twin
  own : Agree home (· ≠ table) origin store

/-- Two stores abreast before an operation, when the first is neat. -/
structure InStep (home : Location) (shared : String → Prop) (table : String)
    (origin store twin : Store) : Prop extends Abreast home shared table origin store twin where
  neat : store.Neat home

end

namespace Abreast

section

variable {home : Location} {shared : String → Prop} {origin : Store} {table column file : String}

theorem write (htable : isName table = true) (hown : Store.IsOwnFile table file)
    (hfile : IsFileName file) {store twin : Store} (h : Abreast home shared table origin store twin)
    (text : String) :
    ((Operation.write (store.config.rootPath.join file) text).run twin).1 =
        ((Operation.write (store.config.rootPath.join file) text).run store).1 ∧
      Abreast home shared table origin
        ((Operation.write (store.config.rootPath.join file) text).run store).2
        ((Operation.write (store.config.rootPath.join file) text).run twin).2 := by
  rw [Operation.run_write h.agree.rooted hfile, Operation.run_write h.agree.rooted' hfile]
  cases reach store.config.rootPath file with
  | error fault => exact ⟨rfl, h⟩
  | ok _ =>
    have hplace : Store.IsOwnPlace home table (home ++ [file]) := ⟨htable, file, hown, rfl⟩
    exact ⟨rfl, h.agree.put hfile text, h.own.trans (.put_own h.agree.rooted hfile hplace text)⟩

theorem removeFile (hshared : shared table) (htable : isName table = true)
    (hown : Store.IsOwnFile table file) (hfile : IsFileName file) {store twin : Store}
    (h : Abreast home shared table origin store twin) :
    ((Operation.removeFile (store.config.rootPath.join file)).run twin).1 =
        ((Operation.removeFile (store.config.rootPath.join file)).run store).1 ∧
      Abreast home shared table origin
        ((Operation.removeFile (store.config.rootPath.join file)).run store).2
        ((Operation.removeFile (store.config.rootPath.join file)).run twin).2 := by
  simp only [Operation.removeFile, Operation.run_changeFiles, FileSystem.removeFile,
    h.agree.find_join hshared hown htable hfile]
  rw [h.agree.rooted.leads.find_join hfile]
  cases reach store.config.rootPath file with
  | error fault => exact ⟨rfl, h⟩
  | ok _ =>
    cases store.files.entryAt? home file with
    | none => exact ⟨rfl, h⟩
    | some entry =>
      cases hentry : entry.isFile with
      | false =>
        simp only [ok_bind, hentry]
        exact ⟨rfl, h⟩
      | true =>
        have hplace : Store.IsOwnPlace home table (home ++ [file]) := ⟨htable, file, hown, rfl⟩
        simp only [ok_bind, hentry]
        exact ⟨rfl, h.agree.remove hfile, h.own.trans (.remove_own h.agree.rooted hfile hplace)⟩

theorem writeTable (htable : isName table = true) {document : TableDocument}
    (hname : document.name = table) : Follows (Abreast home shared table origin)
      (Abreast home shared table origin) (Operation.writeTable document) := by
  intro store twin h
  rw [Operation.run_writeTable, Operation.run_writeTable, h.agree.tablePath, hname]
  exact write htable (.inl rfl) (isFileName_tableFile (isName_of_eq_true htable)) h document.text

theorem writeIndex (htable : isName table = true) (hcolumn : isName column = true) (tree : BTree) :
    Follows (Abreast home shared table origin) (Abreast home shared table origin)
      (Operation.writeIndex table column tree) := by
  intro store twin h
  rw [Operation.run_writeIndex, Operation.run_writeIndex, h.agree.indexPath]
  exact write htable (.inr ⟨column, rfl⟩)
    (isFileName_indexFile (isName_of_eq_true htable) (isName_of_eq_true hcolumn)) h tree.text

theorem removeIndexFile (hshared : shared table) (htable : isName table = true)
    (hcolumn : isName column = true) : Follows (Abreast home shared table origin)
      (Abreast home shared table origin) (Operation.removeIndexFile table column) := by
  intro store twin h
  rw [Operation.run_removeIndexFile, Operation.run_removeIndexFile, h.agree.indexPath]
  exact removeFile hshared htable (.inr ⟨column, rfl⟩)
    (isFileName_indexFile (isName_of_eq_true htable) (isName_of_eq_true hcolumn)) h

theorem remember (column : String) (tree : BTree) :
    Follows (Abreast home shared table origin) (Abreast home shared table origin)
      (Operation.remember table column tree) :=
  fun _ _ h ↦ ⟨rfl, h.agree.remembering table column tree,
    h.own.trans (.remembering_own h.agree.rooted table column tree)⟩

theorem forget {dropped : String × String → Bool}
    (hdropped : ∀ key, dropped key = true → key.1 = table) :
    Follows (Abreast home shared table origin) (Abreast home shared table origin)
      (Operation.forget dropped) :=
  fun _ _ h ↦ ⟨rfl, h.agree.forget dropped, h.own.trans (.forget_own h.agree.rooted hdropped)⟩

theorem index (hshared : shared table) (htable : isName table = true) (column : String) :
    Follows (Abreast home shared table origin) (Abreast home shared table origin)
      (Operation.index table column) := by
  intro store twin h
  rw [Operation.run_index, Operation.run_index, h.agree.cache (table, column) hshared]
  cases hcolumn : Store.checkName column with
  | error e => exact ⟨rfl, h⟩
  | ok _ =>
    rw [h.agree.readIndex hshared htable (Contents.checkName_eq_ok.mp hcolumn)]
    cases store.cache.lookup (table, column) with
    | some tree => exact ⟨rfl, h⟩
    | none =>
      cases store.readIndex table column with
      | error e => exact ⟨rfl, h⟩
      | ok tree => exact ⟨rfl, (remember column tree store twin h).2⟩

theorem changeIndex (hshared : shared table) (htable : isName table = true) (column : String)
    (change : BTree → Except BTree.Fault BTree) : Follows (Abreast home shared table origin)
      (Abreast home shared table origin) (Operation.changeIndex table column change) := by
  refine .bind (index hshared htable column) id ?_
  rintro tree ⟨store, -, -, hrun⟩
  obtain ⟨store', hrun⟩ := Operation.exists_run_eq_ok hrun
  have hcolumn := (Operation.index_eq_ok hrun).1
  refine .bind (.ofResult _) id fun tree' _ ↦ .bind (remember column tree') id fun _ _ ↦ ?_
  exact writeIndex htable hcolumn tree'

theorem indexEntry (hshared : shared table) (htable : isName table = true) (row : Row)
    (column : String) : Follows (Abreast home shared table origin)
      (Abreast home shared table origin) (Operation.indexEntry table row column) :=
  .bind (.ofResult _) id fun _ _ ↦ .bind (index hshared htable column) id fun _ _ ↦ .pure _

theorem indexMove (hshared : shared table) (htable : isName table = true) (old new : Row)
    (column : String) : Follows (Abreast home shared table origin)
      (Abreast home shared table origin) (Operation.indexMove table old new column) :=
  .bind (.ofResult _) id fun _ _ ↦ .bind (.ofResult _) id fun _ _ ↦
    .bind (index hshared htable column) id fun _ _ ↦ .pure _

end

end Abreast

namespace InStep

variable {home : Location} {shared : String → Prop} {origin : Store} {table column : String}
  {α β : Type}

theorem follows {op : Operation α}
    (h : Follows (InStep home shared table origin) (Abreast home shared table origin) op)
    (hneat : Neatly home op) :
    Follows (InStep home shared table origin) (InStep home shared table origin) op := by
  intro store twin hstores
  obtain ⟨hresult, hafter⟩ := h store twin hstores
  exact ⟨hresult, hafter, (hneat store hstores.neat).1⟩

/-- What comes after the document of a table may rely on the document being its own. -/
theorem document_bind (hshared : shared table) {f : TableDocument × Schema → Operation α}
    (hf : ∀ document schema, isName table = true → document.Belongs table →
      schema.columns = document.columns →
        Follows (Abreast home shared table origin) (Abreast home shared table origin)
          (f (document, schema))) :
    Follows (InStep home shared table origin) (Abreast home shared table origin)
      (Operation.ask (fun store ↦ store.document table) >>= f) := by
  refine .bind (.ask fun h ↦ h.agree.document hshared) InStep.toAbreast ?_
  rintro ⟨document, schema⟩ ⟨store, twin, h, hdocument⟩
  obtain ⟨htable, hbelongs, hcolumns⟩ := h.neat.sturdy.document hdocument
  exact .mono InStep.toAbreast (hf document schema htable hbelongs hcolumns) id

theorem rowChange (hshared : shared table) (change : RowChange) :
    Follows (InStep home shared table origin) (Abreast home shared table origin)
      (change.operation table) := by
  cases change with
  | insert row =>
    refine document_bind hshared fun document schema htable hdocument _ ↦ ?_
    refine .bind (.ofResult _) id fun record _ ↦ ?_
    refine .bind (.ask fun h ↦ h.agree.listIndexes hshared htable) id fun columns _ ↦ ?_
    refine .bind (.mapM (Abreast.indexEntry hshared htable row)) id fun keys _ ↦ ?_
    refine .bind (Abreast.writeTable htable hdocument.name) id fun _ _ ↦ .forM fun entry _ ↦ ?_
    exact Abreast.changeIndex hshared htable _ _
  | update position row =>
    refine document_bind hshared fun document schema htable hdocument _ ↦ ?_
    refine .bind (.ofResult _) id fun _ _ ↦ .bind (.ofResult _) id fun record _ ↦ ?_
    refine .bind (.ask fun h ↦ h.agree.decodeAt document schema position) id fun old _ ↦ ?_
    refine .bind (.ask fun h ↦ h.agree.listIndexes hshared htable) id fun columns _ ↦ ?_
    refine .bind (.mapM (Abreast.indexMove hshared htable old row)) id fun moves _ ↦ ?_
    refine .bind (.ofResult _) id fun changed hchanged ↦ ?_
    obtain ⟨_, _, _, hchanged⟩ := hchanged
    have hname := (Store.name_of_replaceRecord hchanged).trans hdocument.name
    refine .bind (Abreast.writeTable htable hname) id fun _ _ ↦ .forM fun entry _ ↦ ?_
    exact Abreast.changeIndex hshared htable _ _
  | delete position =>
    refine document_bind hshared fun document schema htable hdocument _ ↦ ?_
    refine .bind (.ofResult _) id fun _ _ ↦ ?_
    refine .bind (.ask fun h ↦ h.agree.decodeAt document schema position) id fun old _ ↦ ?_
    refine .bind (.ask fun h ↦ h.agree.listIndexes hshared htable) id fun columns _ ↦ ?_
    refine .bind (.mapM (Abreast.indexEntry hshared htable old)) id fun keys _ ↦ ?_
    refine .bind (.ofResult _) id fun changed hchanged ↦ ?_
    obtain ⟨_, _, _, hchanged⟩ := hchanged
    have hname := (Store.name_of_removeRecord hchanged).trans hdocument.name
    refine .bind (Abreast.writeTable htable hname) id fun _ _ ↦ .forM fun entry _ ↦ ?_
    exact Abreast.changeIndex hshared htable _ _

theorem read (hshared : shared table) (rowId : Int64) :
    Follows (InStep home shared table origin) (Abreast home shared table origin)
      (Operation.read table rowId) := by
  refine document_bind hshared fun document schema htable _ _ ↦ ?_
  refine .bind (Abreast.index hshared htable _) id fun tree _ ↦ ?_
  refine .bind (.ofResult _) id fun found _ ↦ ?_
  split
  · exact .bind (.ask fun h ↦ h.agree.decodeRows document schema) id fun _ _ ↦ .pure _
  · exact .pure _

theorem scan (hshared : shared table) (predicate : Predicate) :
    Follows (InStep home shared table origin) (Abreast home shared table origin)
      (Operation.scan table predicate) := by
  refine document_bind hshared fun document schema htable _ _ ↦ ?_
  refine .bind (.ask fun h ↦ h.agree.decodeRows document schema) id fun rows _ ↦ ?_
  refine .get_bind (fun h ↦ by rw [h.agree.plan hshared]) fun store ↦ ?_
  refine .bind ?_ id fun _ _ ↦ .ofResult _
  cases store.plan table predicate.hint with
  | full => exact .pure _
  | index column low high =>
    exact .bind (Abreast.index hshared htable column) id fun _ _ ↦ .pure _

theorem createTable (hshared : shared table) (schema : Schema) :
    Follows (InStep home shared table origin) (Abreast home shared table origin)
      (Operation.createTable table schema) := by
  refine .mono InStep.toAbreast (.bind (.ofResult _) id ?_) id
  rintro ⟨⟩ ⟨_, _, -, htable⟩
  have htable' := Contents.checkName_eq_ok.mp htable
  refine .bind (.ofResult _) id fun _ _ ↦ .bind (.ask fun h ↦ ?_) id fun _ _ ↦ ?_
  · rw [h.agree.tablePath, FileSystem.entryExists, h.agree.find_table hshared htable',
      FileSystem.entryExists]
  · exact Abreast.writeTable htable' rfl

theorem dropTable (hshared : shared table) :
    Follows (InStep home shared table origin) (Abreast home shared table origin)
      (Operation.dropTable table) := by
  refine .bind (.ask fun h ↦ h.agree.checkTable hshared) InStep.toAbreast ?_
  rintro ⟨⟩ ⟨_, _, -, hcheck⟩
  have htable := Store.isName_of_checkTable hcheck
  refine .bind (.ask fun h ↦ h.agree.listIndexes hshared htable) InStep.toAbreast ?_
  rintro columns ⟨store, _, h, hcolumns⟩
  have hnames : ∀ column ∈ columns, isName column = true := fun column hcolumn ↦
    (h.neat.names_of_indexFile ((h.neat.mem_listIndexes_iff hcolumns).mp hcolumn)).2
  refine .mono InStep.toAbreast (.bind (.forM fun column hcolumn ↦ ?_) id fun _ _ ↦ ?_) id
  · exact Abreast.removeIndexFile hshared htable (hnames column hcolumn)
  · refine .bind (Abreast.forget fun key hkey ↦ of_decide_eq_true hkey) id fun _ _ ↦ ?_
    intro store twin h
    rw [Operation.run_bind, Operation.run_bind, Operation.run_get, Operation.run_get]
    simp only [h.agree.tablePath]
    exact Abreast.removeFile hshared htable (.inl rfl)
      (isFileName_tableFile (isName_of_eq_true htable)) h

theorem createIndex (hshared : shared table) (column : String) :
    Follows (InStep home shared table origin) (Abreast home shared table origin)
      (Operation.createIndex table column) := by
  refine document_bind hshared fun document schema htable hdocument hcolumns ↦ ?_
  refine .bind (.ofResult _) id ?_
  rintro ⟨⟩ ⟨_, _, -, hindexable⟩
  obtain ⟨definition, hdefinition, rfl, -⟩ := Contents.checkIndexable_eq_ok hindexable
  have hcolumn := hdocument.columns definition (hcolumns ▸ hdefinition)
  refine .bind (.ask fun h ↦ h.agree.decodeRows document schema) id fun rows _ ↦ ?_
  refine .bind (.ask fun h ↦ by rw [h.agree.config]) id fun tree _ ↦ ?_
  exact .bind (Abreast.writeIndex htable hcolumn tree) id fun _ _ ↦ Abreast.remember _ tree

theorem dropIndex (hshared : shared table) (column : String) :
    Follows (InStep home shared table origin) (Abreast home shared table origin)
      (Operation.dropIndex table column) := by
  refine .mono InStep.toAbreast (.bind (.ofResult _) id ?_) id
  rintro ⟨⟩ ⟨_, _, -, htable⟩
  refine .bind (.ofResult _) id ?_
  rintro ⟨⟩ ⟨_, _, -, hcolumn⟩
  have htable' := Contents.checkName_eq_ok.mp htable
  have hcolumn' := Contents.checkName_eq_ok.mp hcolumn
  refine .get_bind (fun h ↦ ?_) fun store ↦ ?_
  · simp only [h.agree.isFile_index hshared htable' hcolumn', h.agree.cache (table, column) hshared]
  · refine .bind (Abreast.forget fun key hkey ↦ ?_) id fun _ _ ↦ ?_
    · rw [of_decide_eq_true hkey]
    split
    · exact Abreast.removeIndexFile hshared htable' hcolumn'
    · exact .ofResult _

theorem tableIndex (hshared : shared table) (column : String) :
    Follows (InStep home shared table origin) (Abreast home shared table origin)
      (Operation.tableIndex table column) := by
  refine .mono InStep.toAbreast (.bind (.ask fun h ↦ h.agree.checkTable hshared) id ?_) id
  rintro ⟨⟩ ⟨_, _, -, hcheck⟩
  exact Abreast.index hshared (Store.isName_of_checkTable hcheck) column

end InStep

end TableStore
