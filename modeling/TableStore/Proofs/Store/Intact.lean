import TableStore.Proofs.Store.Confined
import TableStore.Proofs.Store.Guarded
import TableStore.Proofs.Store.Reachable

namespace TableStore

open FileSystem (Location)
open Store (indexFile isName isName_of_eq_true)

namespace Avoids

variable (contents : Contents) (name : String)

theorem table : Avoids Error.isDamage (contents.table name) := by
  refine bind (checkName name) fun _ ↦ ?_
  split
  · exact ok _
  · exact error rfl

theorem rowAt (table : Table) (position : Nat) :
    Avoids Error.isDamage (table.rowAt name position) := by
  unfold Table.rowAt
  split
  · exact ok _
  · exact error rfl

theorem keysOf (table : Table) (row : Row) : Avoids Error.isDamage (table.keysOf name row) :=
  mapM fun column ↦ map (indexKey name column row) _

theorem movesOf (table : Table) (old new : Row) :
    Avoids Error.isDamage (table.movesOf name old new) :=
  mapM fun column ↦ bind (indexKey name column old) fun _ ↦ bind (indexKey name column new) fun _ ↦ ok _

theorem insertRow (row : Row) : Avoids Error.isDamage (contents.insert name row) :=
  bind (table contents name) fun found ↦ bind (encode name found.schema row) fun _ ↦
    bind (keysOf name found row) fun _ ↦ ok _

theorem updateRow (position : Nat) (row : Row) :
    Avoids Error.isDamage (contents.update name position row) :=
  bind (table contents name) fun found ↦ bind (rowAt name found position) fun old ↦
    bind (encode name found.schema row) fun _ ↦ bind (movesOf name found old row) fun _ ↦ ok _

theorem deleteRow (position : Nat) : Avoids Error.isDamage (contents.delete name position) :=
  bind (table contents name) fun found ↦ bind (rowAt name found position) fun old ↦
    bind (keysOf name found old) fun _ ↦ ok _

theorem createTable (root : Path) (schema : Schema) :
    Avoids Error.isDamage (contents.createTable name root schema) :=
  bind (checkName name) fun _ ↦ bind (forM checkName) fun _ ↦ bind (ensure rfl) fun _ ↦
    bind (mapError fun _ ↦ rfl) fun _ ↦ ok _

theorem dropTable : Avoids Error.isDamage (contents.dropTable name) :=
  bind (ensure rfl) fun _ ↦ ok _

theorem createIndex (root : Path) (degree : Nat) (column : String) :
    Avoids Error.isCorrupt (contents.createIndex name root degree column) := by
  refine bind (table contents name).corrupt fun found ↦ ?_
  refine bind (checkIndexable name column found.schema).corrupt fun _ ↦ ?_
  refine bind ?_ fun tree ↦ bind (mapError fun _ ↦ rfl) fun _ ↦ ok _
  exact bind (mapM fun row ↦ (indexKey name column row).corrupt) fun _ ↦ mapError fun _ ↦ rfl

theorem dropIndex (column : String) : Avoids Error.isDamage (contents.dropIndex name column) :=
  bind (checkName name) fun _ ↦ bind (checkName column) fun _ ↦ bind (ensure rfl) fun _ ↦
    bind (table contents name) fun _ ↦ ok _

/-- A scan finds nothing broken, but its filter may. -/
theorem scan {kind : Error → Bool} (hkind : ∀ e, kind e = true → e.isCorrupt = true)
    {predicate : Predicate} (h : ∀ row, Avoids kind (predicate.accepts row)) :
    Avoids kind (contents.scan name predicate) :=
  bind ((table contents name).corrupt.mono hkind) fun _ ↦ filterRows h 0 _

theorem acceptsCondition (condition : Option Expr) (row : Row) :
    Avoids Error.isDamage ((Predicate.ofCondition condition).accepts row) := by
  cases condition with
  | none => exact ok true
  | some e => exact mapError fun _ ↦ rfl

theorem indexOf (column : String) : Avoids Error.isDamage (contents.indexOf name column) := by
  refine bind (checkName column) fun _ ↦ ?_
  split
  · exact ok _
  · exact error rfl

end Avoids

/-- An operation that finds no broken file among those of consistent tables, and breaks none. -/
abbrev Intact {α : Type} (op : Operation α) : Prop := Guarded Store.Sane Error.isCorrupt op

namespace Intact

variable {α : Type} {table column : String} {kind : Error → Bool}

theorem of_carries {op : Operation Unit} {next : Config → Contents → Except Error Contents}
    (h : ∀ {config home contents}, contents.Consistent →
      Carries config home contents op (next config contents))
    (hkeeps : Keeps op) (hnext : ∀ config contents, Avoids Error.isCorrupt (next config contents)) :
    Intact op := by
  intro store hstore
  refine ⟨hkeeps store hstore, ?_⟩
  obtain ⟨config, home, contents, -, hc, hholds⟩ := hstore
  rw [((h hc).runs store hholds).1]
  exact (hnext config contents).map _

theorem of_answers {op : Operation α} {result : Contents → Except Error α}
    (h : ∀ {config home contents}, contents.Consistent →
      Answers config home contents op (result contents))
    (hresult : ∀ contents, Avoids kind (result contents)) : Guarded Store.Sane kind op := by
  rintro store ⟨config, home, contents, hconfig, hc, hstore⟩
  obtain ⟨hanswer, hafter⟩ := h hc store hstore
  exact ⟨⟨config, home, contents, hconfig, hc, hafter⟩, hanswer ▸ hresult contents⟩

theorem document (table : String) : Intact (Operation.ask fun store ↦ store.document table) :=
  of_answers (fun hc ↦ Answers.ask fun _ hstore ↦ hstore.document hc table)
    fun contents ↦ (Avoids.table contents table).corrupt.map _

theorem insert (table : String) (row : Row) : Intact (Operation.insert table row) :=
  of_carries (fun hc ↦ Carries.insert hc table row) (Keeps.insert table row)
    fun _ contents ↦ (Avoids.insertRow contents table row).corrupt

theorem update (table : String) (position : Nat) (row : Row) :
    Intact (Operation.update table position row) :=
  of_carries (fun hc ↦ Carries.update hc table position row) (Keeps.update table position row)
    fun _ contents ↦ (Avoids.updateRow contents table position row).corrupt

theorem delete (table : String) (position : Nat) : Intact (Operation.delete table position) :=
  of_carries (fun hc ↦ Carries.delete hc table position) (Keeps.delete table position)
    fun _ contents ↦ (Avoids.deleteRow contents table position).corrupt

theorem createTable (table : String) (schema : Schema) :
    Intact (Operation.createTable table schema) :=
  of_carries (fun _ ↦ Carries.createTable table schema) (Keeps.createTable table schema)
    fun config contents ↦ (Avoids.createTable contents table config.rootPath schema).corrupt

theorem dropTable (table : String) : Intact (Operation.dropTable table) :=
  of_carries (fun hc ↦ Carries.dropTable hc table) (Keeps.dropTable table)
    fun _ contents ↦ (Avoids.dropTable contents table).corrupt

theorem createIndex (table column : String) : Intact (Operation.createIndex table column) :=
  of_carries (fun hc ↦ Carries.createIndex hc table column) (Keeps.createIndex table column)
    fun config contents ↦
      Avoids.createIndex contents table config.rootPath config.indexDegree column

theorem dropIndex (table column : String) : Intact (Operation.dropIndex table column) :=
  of_carries (fun _ ↦ Carries.dropIndex table column) (Keeps.dropIndex table column)
    fun _ contents ↦ (Avoids.dropIndex contents table column).corrupt

theorem scan (hkind : ∀ e, kind e = true → e.isCorrupt = true) (table : String)
    {predicate : Predicate} (h : ∀ row, Avoids kind (predicate.accepts row)) :
    Guarded Store.Sane kind (Operation.scan table predicate) :=
  of_answers (fun hc ↦ Answers.scan hc table predicate)
    fun contents ↦ Avoids.scan contents table hkind h

theorem index (htable : isName table = true) (column : String) :
    Intact (Operation.index table column) :=
  of_answers (fun _ ↦ Answers.index htable column)
    fun contents ↦ (Avoids.indexOf contents table column).corrupt

theorem tableIndex (table column : String) : Intact (Operation.tableIndex table column) := by
  refine .bind_run (.ask fun store _ ↦ (Avoids.checkTable store table).corrupt)
    fun {store _ _} _ hrun ↦ ?_
  have hcheck : store.checkTable table = .ok () := (Prod.mk.inj hrun).1
  rw [Store.checkTable] at hcheck
  split at hcheck
  · rename_i hexists
    exact index (Bool.and_eq_true_iff.mp hexists).1 column
  · cases hcheck

/-- The rows that are decoded are those of the document that was read before, in the same store. -/
theorem read (table : String) (id : Int64) : Intact (Operation.read table id) := by
  refine .bind_run (document table) fun {store found store'} hstore hrun ↦ ?_
  obtain ⟨config, home, contents, -, hc, hholds⟩ := hstore
  have hdocument : store.document table = .ok found := (Prod.mk.inj hrun).1
  rw [hholds.document hc] at hdocument
  obtain ⟨held, htable, rfl⟩ := map_eq_ok.mp hdocument
  obtain ⟨hname, hheld⟩ := Contents.table_eq_ok.mp htable
  refine .bind (index hname _) fun tree ↦ .bind (.ofResult (.mapError fun _ ↦ rfl)) fun contained ↦ ?_
  have hrows : ∀ store, Store.Sane store →
      Avoids Error.isCorrupt (store.decodeRows (held.document table) held.schema) := by
    intro store _
    rw [Holds.decodeRows held (hc.tables hheld) store table]
    exact .ok _
  split
  · exact .bind (.ask hrows) fun _ ↦ .pure _
  · exact .pure _

theorem schema (table : String) : Intact (Operation.ask fun store ↦ store.schema table) := by
  intro store hstore
  exact ⟨hstore, (document table store hstore).2.bind fun _ ↦ .ok _⟩

theorem closed (hkind : ∀ e, kind e = true → e.isCorrupt = true) :
    Closed (Guarded Store.Sane kind) where
  pure := .pure
  ofResult h := .ofResult (h.corrupt.mono hkind)
  schema table := (schema table).mono hkind
  bind := .bind
  scan table condition := scan hkind table fun row ↦
    (Avoids.acceptsCondition condition row).corrupt.mono hkind
  insert table row := (insert table row).mono hkind
  update table position row := (update table position row).mono hkind
  delete table position := (delete table position).mono hkind
  createTable table schema := (createTable table schema).mono hkind
  dropTable table := (dropTable table).mono hkind
  createIndex table column := (createIndex table column).mono hkind

theorem call (hkind : ∀ e, kind e = true → e.isCorrupt = true) {call : Call}
    (hindex : ∀ table column, call = .index table column → isName table = true)
    (hfilter : ∀ predicate, call.predicate? = some predicate →
      ∀ row, Avoids kind (predicate.accepts row)) : Guarded Store.Sane kind call.operation :=
  (closed hkind).call (fun table id ↦ (read table id).mono hkind)
    (fun table column ↦ (dropIndex table column).mono hkind)
    (fun table column ↦ (tableIndex table column).mono hkind)
    (fun table predicate hcall ↦ scan hkind table (hfilter predicate hcall))
    fun table column hcall ↦ (index (hindex table column hcall) column).mono hkind

end Intact

def Store.Outside (store : Store) (path : Path) : Prop :=
  ∃ location entry, store.files.find path = .ok (location, entry) ∧
    ∀ home, store.Stands home → location.dropLast ≠ home

section

variable {config : Config} {home : Location} {contents : Contents} {store : Store}
  {table column : String}

/-- Along the path of an index, whatever the names, comes last a file with the ending of the column. -/
theorem Store.exists_names_indexPath (table : String) (hcolumn : isName column = true) :
    ∃ names front, (store.indexPath table column).names = names ++ [indexFile front column] ∧
      '/' ∉ front.toList := by
  have hslash : '/' ∉ ("." ++ column ++ indexEnding).toList := by
    simp [String.toList_append, (isName_of_eq_true hcolumn).noSlash, indexEnding]
  have hjoin := Path.exists_names_join store.config.rootPath table hslash (by simp [indexEnding])
  simpa only [Store.indexPath, indexFile, String.append_assoc] using hjoin

theorem Store.treeOfText_eq_corrupt {path path' : Path} {text : String} {reason : Corruption}
    (h : treeOfText path text = .error (.corrupt path' reason)) : path' = path := by
  unfold treeOfText at h
  split at h
  · cases h
    rfl
  · split at h
    · cases h
      rfl
    · cases h

theorem Store.readIndex_eq_corrupt {path : Path} {reason : Corruption}
    (h : store.readIndex table column = .error (.corrupt path reason)) :
    path = store.indexPath table column ∧ ∃ location text,
      store.files.find path = .ok (location, .text text) ∧
      treeOfText path text = .error (.corrupt path reason) := by
  rw [readIndex] at h
  cases hfile : store.files.isFile (store.indexPath table column) with
  | false =>
    rw [hfile] at h
    cases h
  | true =>
    rw [hfile, ensure_true, ok_bind, readText] at h
    cases hread : store.files.read (store.indexPath table column) with
    | error fault =>
      rw [hread] at h
      cases h
    | ok text =>
      rw [hread, mapError_ok, ok_bind] at h
      obtain rfl := treeOfText_eq_corrupt h
      obtain ⟨location, hfind⟩ := FileSystem.exists_find_of_read hread
      exact ⟨rfl, location, text, hfind, h⟩

theorem Operation.index_eq_corrupt {path : Path} {reason : Corruption}
    (h : ((index table column).run store).1 = .error (.corrupt path reason)) :
    isName column = true ∧ store.readIndex table column = .error (.corrupt path reason) := by
  rw [run_index] at h
  split at h
  · rename_i e hname
    obtain rfl := Except.error.inj h
    exact Bool.noConfusion ((Avoids.checkName column).corrupt _ hname)
  · rename_i hname
    refine ⟨Contents.checkName_eq_ok.mp hname, ?_⟩
    split at h
    · cases h
    · split at h
      · rename_i e hread
        rw [hread, Except.error.inj h]
      · cases h

theorem Holds.outside_of_readIndex (h : Holds config home contents store)
    (hloadable : ∀ {name column tree}, contents.index? name column = some tree → tree.Loadable)
    (hcolumn : isName column = true) {path : Path} {reason : Corruption}
    (hread : store.readIndex table column = .error (.corrupt path reason)) :
    path = store.indexPath table column ∧ store.Outside path := by
  obtain ⟨rfl, location, text, hfind, htree⟩ := Store.readIndex_eq_corrupt hread
  refine ⟨rfl, location, .text text, hfind, ?_⟩
  intro home' hhome' hsame
  obtain rfl : home = home' := Except.ok.inj (h.rooted.walk.symm.trans (h.settings ▸ hhome'.walk))
  obtain ⟨names, front, hnames, hfront⟩ := store.exists_names_indexPath table hcolumn
  have hfile := Store.isFileName_indexFile_of_noSlash hfront (isName_of_eq_true hcolumn)
  obtain ⟨home', rfl, hentry⟩ := FileSystem.exists_entryAt?_of_find hnames hfile hfind
  rw [List.dropLast_concat] at hsame
  subst hsame
  -- A file of the directory is that of a table or of an index.
  rcases h.only (by rw [hentry]; rfl) with ⟨name, hname, heq⟩ | ⟨name, column', hname, hcolumn', heq⟩
  · exact Store.tableFile_ne_indexFile (isName_of_eq_true hname).noDot heq.symm
  · rw [heq, h.indexes hname hcolumn'] at hentry
    obtain ⟨tree, hindex, htext⟩ := Option.map_eq_some_iff.mp hentry
    obtain rfl := FileSystem.Entry.text.inj htext
    obtain ⟨hagain, hcheck⟩ := hloadable hindex
    rw [Store.treeOfText, hagain] at htree
    simp [hcheck] at htree

end

end TableStore
