import TableStore.Proofs.Store.Confined
import TableStore.Proofs.Store.Reachable

namespace TableStore

open FileSystem (reach Leads Location)
open Store (tableFile indexFile isName isName_of_eq_true isFileName_tableFile)

inductive RowChange
  | insert (row : Row)
  | update (position : Nat) (row : Row)
  | delete (position : Nat)

namespace RowChange

def operation (table : String) : RowChange → Operation Unit
  | .insert row => Operation.insert table row
  | .update position row => Operation.update table position row
  | .delete position => Operation.delete table position

/-- What a change makes of the records of a table. -/
def Makes (schema : Schema) (records records' : List Record) : RowChange → Prop
  | .insert row => ∃ record, schema.encodeRow row = .ok record ∧ records' = records ++ [record]
  | .update position row => position < records.length ∧
    ∃ record, schema.encodeRow row = .ok record ∧ records' = records.set position record
  | .delete position => position < records.length ∧ records' = records.eraseIdx position

def onRows (schema : Schema) (rows : List Row) : RowChange → List Row
  | .insert row => rows ++ [row.project schema.names]
  | .update position row => rows.set position (row.project schema.names)
  | .delete position => rows.eraseIdx position

variable {change : RowChange} {schema : Schema} {records records' : List Record} {rows : List Row}

theorem Makes.stored (h : change.Makes schema records records')
    (hrecords : ∀ record ∈ records, record.Stored) : ∀ record ∈ records', record.Stored := by
  intro record hrecord
  cases change with
  | insert row =>
    obtain ⟨new, hnew, rfl⟩ := h
    rcases List.mem_append.mp hrecord with hrecord | hrecord
    · exact hrecords record hrecord
    · exact List.mem_singleton.mp hrecord ▸ Schema.stored_of_encodeRow hnew
  | update position row =>
    obtain ⟨-, new, hnew, rfl⟩ := h
    rcases List.mem_or_eq_of_mem_set hrecord with hrecord | rfl
    · exact hrecords record hrecord
    · exact Schema.stored_of_encodeRow hnew
  | delete position =>
    obtain ⟨-, rfl⟩ := h
    exact hrecords record (List.mem_of_mem_eraseIdx hrecord)

theorem Makes.mapM_decodeRecord (h : change.Makes schema records records') {path : Path}
    (hrows : records.mapM (Store.decodeRecord path schema) = .ok rows) :
    records'.mapM (Store.decodeRecord path schema) = .ok (change.onRows schema rows) := by
  have hnew : ∀ {row record}, schema.encodeRow row = .ok record →
      Store.decodeRecord path schema record = .ok (row.project schema.names) := by
    intro row record hrecord
    rw [Store.decodeRecord, Schema.decodeRow_of_encodeRow hrecord, mapError_ok]
  rw [mapM_eq_ok] at hrows ⊢
  cases change with
  | insert row =>
    obtain ⟨record, hrecord, rfl⟩ := h
    rw [onRows, List.map_append, List.map_append, hrows, List.map_singleton, List.map_singleton,
      hnew hrecord]
  | update position row =>
    obtain ⟨-, record, hrecord, rfl⟩ := h
    rw [onRows, List.map_set, List.map_set, hrows, hnew hrecord]
  | delete position =>
    obtain ⟨-, rfl⟩ := h
    rw [onRows, ← eraseIdx_map, hrows, eraseIdx_map]

end RowChange

/-- A store after a table was written, and then perhaps indexes over its columns. -/
structure Store.Writes (home : Location) (document : TableDocument) (before after : Store) :
    Prop where
  reach : reach before.config.rootPath (tableFile document.name) = .ok ()
  entry : after.files.entryAt? home (tableFile document.name) = some (.text document.text)
  differs : Store.Differs home (Store.IsOwnFile document.name) before after

section

variable {change : RowChange} {document : TableDocument} {schema : Schema} {store store' : Store}
  {table : String} {home : Location}

theorem Store.document_eq_ok (h : store.document table = .ok (document, schema)) :
    isName table = true ∧ store.files.isFile (store.tablePath table) = true ∧
      document.schema = .ok schema ∧ ∀ record ∈ document.records, record.Stored := by
  obtain ⟨⟨⟩, hname, h⟩ := bind_eq_ok.mp h
  obtain ⟨⟨⟩, hfile, h⟩ := bind_eq_ok.mp h
  obtain ⟨text, -, h⟩ := bind_eq_ok.mp h
  rw [Store.tableOfText] at h
  split at h
  · cases h
  · rename_i found hfound
    split at h
    · cases h
    · rename_i hschema
      obtain ⟨rfl, rfl⟩ := Prod.mk.inj (Except.ok.inj h)
      exact ⟨Contents.checkName_eq_ok.mp hname, ensure_eq_ok.mp hfile, hschema,
        TableDocument.stored_of_ofText? hfound⟩

theorem Store.Writes.document_eq (h : Store.Writes home document store store')
    (hname : isName document.name = true) (hschema : document.schema = .ok schema)
    (hstored : ∀ record ∈ document.records, record.Stored) :
    store'.document document.name = .ok (document, schema) := by
  have hfile := isFileName_tableFile (isName_of_eq_true hname)
  have hstands := h.differs.stands
  have hreach : FileSystem.reach store'.config.rootPath (tableFile document.name) = .ok () := by
    rw [h.differs.config]
    exact h.reach
  have hisFile : store'.files.isFile (store'.tablePath document.name) = true :=
    hstands.isFile_join hfile hreach h.entry
  have hread : store'.readText (store'.tablePath document.name) = .ok document.text :=
    congrArg _ (hstands.read_join hfile hreach h.entry)
  rw [Store.document, Contents.checkName_eq_ok.mpr hname, hisFile, ensure_true, hread]
  simp only [ok_bind, Store.tableOfText, TableDocument.ofText?_text hstored, hschema]

theorem Store.Writes.of_writeTable (hstands : store.Stands home)
    (hname : isName document.name = true)
    (hrun : (Operation.writeTable document).run store = (.ok (), store')) :
    Store.Writes home document store store' := by
  have hfile := isFileName_tableFile (isName_of_eq_true hname)
  rw [Operation.run_writeTable] at hrun
  rcases Operation.run_write_or hstands hfile document.text with
    ⟨e, hfail⟩ | ⟨hreach, hdirectory, hput⟩
  · cases (Prod.mk.inj (hrun.symm.trans hfail)).1
  · obtain rfl := (Prod.mk.inj (hrun.symm.trans hput)).2
    refine ⟨hreach, ?_, Store.Differs.put hstands (.inl rfl) hdirectory document.text⟩
    rw [FileSystem.entryAt?_put, if_pos rfl]

/-- A table is written after its indexes were read, and before they are written. -/
theorem Store.Writes.of_run {α : Type} {op : Operation α} {rest : α → Operation Unit}
    {changed : Except Error TableDocument} (hchanged : changed = .ok document)
    (hstands : store.Stands home) (hname : isName document.name = true) (hquiet : Quiet op)
    (hrest : ∀ a, Confined (Store.IsIndexFile document.name) (rest a))
    (hrun : (op >>= fun a ↦ do
      Operation.writeTable (← Operation.ofResult changed)
      rest a).run store = (.ok (), store')) : Store.Writes home document store store' := by
  have hfile := isFileName_tableFile (isName_of_eq_true hname)
  subst hchanged
  obtain ⟨a, middle, hop, hrun⟩ := Operation.run_bind_eq_ok.mp hrun
  rw [Operation.ofResult_ok_bind] at hrun
  obtain ⟨hfiles, hconfig⟩ := hquiet.of_run hop
  have hmiddle : Store.Differs home (Store.IsOwnFile document.name) store middle :=
    .of_files_eq hstands hfiles hconfig
  obtain ⟨⟨⟩, after, hwrite, hrun⟩ := Operation.run_bind_eq_ok.mp hrun
  have hafter := Store.Writes.of_writeTable hmiddle.stands hname hwrite
  have hindexes := (hrest a).of_run hafter.differs.stands hrun
  refine ⟨hconfig ▸ hafter.reach, ?_, hmiddle.trans (hafter.differs.trans ?_)⟩
  · rw [← hfile.lookup_eq, hindexes.same, hfile.lookup_eq, hafter.entry]
    rintro _ ⟨column, rfl⟩ hlocation
    exact Store.tableFile_ne_indexFile (isName_of_eq_true hname).noDot (by simpa using hlocation)
  · exact hindexes.mono fun file hown ↦ .inr hown

theorem RowChange.writes (hdocument : store.document table = .ok (document, schema))
    (hname : document.name = table) (hstands : store.Stands home)
    (hrun : (change.operation table).run store = (.ok (), store')) :
    ∃ records', change.Makes schema document.records records' ∧
      Store.Writes home { document with records := records' } store store' := by
  subst hname
  have hname := (Store.document_eq_ok hdocument).1
  cases change with
  | insert row =>
    obtain ⟨⟨_, _⟩, hasked, hrun⟩ := Operation.run_ask_bind_eq_ok.mp hrun
    obtain ⟨rfl, rfl⟩ := Prod.mk.inj (Except.ok.inj (hdocument.symm.trans hasked))
    obtain ⟨record, hrecord, hrun⟩ := Operation.run_ask_bind_eq_ok.mp hrun
    obtain ⟨columns, -, hrun⟩ := Operation.run_ask_bind_eq_ok.mp hrun
    exact ⟨_, ⟨record, Contents.encode_eq_ok.mp hrecord, rfl⟩, .of_run rfl hstands hname
      (Quiet.mapM (Quiet.indexEntry document.name row))
      (fun keys ↦ .forM fun _ ↦ .changeIndex hname _ _) hrun⟩
  | update position row =>
    obtain ⟨⟨_, _⟩, hasked, hrun⟩ := Operation.run_ask_bind_eq_ok.mp hrun
    obtain ⟨rfl, rfl⟩ := Prod.mk.inj (Except.ok.inj (hdocument.symm.trans hasked))
    obtain ⟨⟨⟩, hposition, hrun⟩ := Operation.run_ask_bind_eq_ok.mp hrun
    obtain ⟨record, hrecord, hrun⟩ := Operation.run_ask_bind_eq_ok.mp hrun
    obtain ⟨old, -, hrun⟩ := Operation.run_ask_bind_eq_ok.mp hrun
    obtain ⟨columns, -, hrun⟩ := Operation.run_ask_bind_eq_ok.mp hrun
    have hlt := Store.lt_of_checkPosition hposition
    exact ⟨_, ⟨hlt, record, Contents.encode_eq_ok.mp hrecord, rfl⟩,
      .of_run (Store.replaceRecord_eq hlt record) hstands hname
      (Quiet.mapM (Quiet.indexMove document.name old row))
      (fun moves ↦ .forM fun _ ↦ .changeIndex hname _ _) hrun⟩
  | delete position =>
    obtain ⟨⟨_, _⟩, hasked, hrun⟩ := Operation.run_ask_bind_eq_ok.mp hrun
    obtain ⟨rfl, rfl⟩ := Prod.mk.inj (Except.ok.inj (hdocument.symm.trans hasked))
    obtain ⟨⟨⟩, hposition, hrun⟩ := Operation.run_ask_bind_eq_ok.mp hrun
    obtain ⟨old, -, hrun⟩ := Operation.run_ask_bind_eq_ok.mp hrun
    obtain ⟨columns, -, hrun⟩ := Operation.run_ask_bind_eq_ok.mp hrun
    have hlt := Store.lt_of_checkPosition hposition
    exact ⟨_, ⟨hlt, rfl⟩, .of_run (Store.removeRecord_eq hlt) hstands hname
      (Quiet.mapM (Quiet.indexEntry document.name old))
      (fun keys ↦ .forM fun _ ↦ .changeIndex hname _ _) hrun⟩

/-- A change of a row lands in the table that it was asked of, if the document of that table has its
name. No other file is changed than the file of the table and those of its indexes. -/
theorem RowChange.lands (hdocument : store.document table = .ok (document, schema))
    (hname : document.name = table)
    (hrun : (change.operation table).run store = (.ok (), store')) :
    ∃ home records', store.Stands home ∧ change.Makes schema document.records records' ∧
      store'.document table = .ok ({ document with records := records' }, schema) ∧
      (∀ rows, store.rows table = .ok (schema, rows) →
        store'.rows table = .ok (schema, change.onRows schema rows)) ∧
      ∀ location, location ≠ home ++ [tableFile table] →
        (∀ column, location ≠ home ++ [indexFile table column]) →
          store'.files.lookup location = store.files.lookup location := by
  obtain ⟨hisName, hisFile, hschema, hstored⟩ := Store.document_eq_ok hdocument
  obtain ⟨home, hstands⟩ := FileSystem.exists_leads_of_isFile
    (isFileName_tableFile (isName_of_eq_true hisName)) hisFile
  obtain ⟨records', hmakes, hwrites⟩ := writes hdocument hname hstands hrun
  subst hname
  have hdocument' := hwrites.document_eq hisName hschema (hmakes.stored hstored)
  refine ⟨home, records', hstands, hmakes, hdocument', fun rows hrows ↦ ?_,
    fun location htable hindex ↦ ?_⟩
  · rw [Store.rows, hdocument, ok_bind] at hrows
    obtain ⟨found, hfound, hrows⟩ := bind_eq_ok.mp hrows
    obtain ⟨-, rfl⟩ := Prod.mk.inj (Except.ok.inj hrows)
    have hfound' : store'.decodeRows { document with records := records' } schema =
        .ok (change.onRows schema found) := by
      rw [Store.decodeRows, Store.tablePath, hwrites.differs.config]
      exact hmakes.mapM_decodeRecord hfound
    rw [Store.rows, hdocument', ok_bind]
    simp only [hfound', ok_bind, pure_eq_ok]
  · apply hwrites.differs.same
    rintro _ (rfl | ⟨column, rfl⟩)
    · exact htable
    · exact hindex column

end

def Store.titled (name : String) : Store :=
  ⟨{}, ⟨[(["data"], .directory), (["data", "t.json"], .text ("\x7b\"TableName\":\"" ++ name ++
    "\",\"Columns\":[\x7b\"Name\":\"n\",\"Type\":\"int\"\x7d]\x7d"))]⟩, []⟩

namespace RowChange

def one : Row := Row.empty.set "n" (.int 1)

theorem lands_own_name : ∃ document schema store',
    (Store.titled "t").document "t" = .ok (document, schema) ∧ document.name = "t" ∧
    ((insert one).operation "t").run (Store.titled "t") = (.ok (), store') ∧
    ∃ home records', (Store.titled "t").Stands home ∧
      (insert one).Makes schema document.records records' ∧
      store'.document "t" = .ok ({ document with records := records' }, schema) ∧
      (∀ rows, (Store.titled "t").rows "t" = .ok (schema, rows) →
        store'.rows "t" = .ok (schema, (insert one).onRows schema rows)) ∧
      ∀ location, location ≠ home ++ [tableFile "t"] →
        (∀ column, location ≠ home ++ [indexFile "t" column]) →
          store'.files.lookup location = (Store.titled "t").files.lookup location := by
  have hname : ((Store.titled "t").document "t").toOption.map (fun found ↦ found.1.name) =
      some "t" := by
    decide +kernel
  obtain ⟨⟨document, schema⟩, hsome, hname⟩ := Option.map_eq_some_iff.mp hname
  have hdocument := toOption_eq_some.mp hsome
  obtain ⟨store', hrun⟩ := @Operation.exists_run_eq_ok _ (Store.titled "t")
    ((insert one).operation "t") () (toOption_eq_some.mp (by decide +kernel))
  exact ⟨document, schema, store', hdocument, hname, hrun, lands hdocument hname hrun⟩

/-- A row that is added to a table with a foreign name is lost, and a file appears elsewhere. -/
theorem exists_insert_astray : ∃ store',
    ((insert one).operation "t").run (Store.titled "../u") = (.ok (), store') ∧
    (Store.titled "../u").rows "t" = .ok (Reachable.integers, []) ∧
    store'.rows "t" = .ok (Reachable.integers, []) ∧
    (Store.titled "../u").files.lookup ["u.json"] = none ∧
    (store'.files.lookup ["u.json"]).isSome = true := by
  obtain ⟨store', hrun⟩ := @Operation.exists_run_eq_ok _ (Store.titled "../u")
    ((insert one).operation "t") () (toOption_eq_some.mp (by decide +kernel))
  obtain rfl : (((insert one).operation "t").run (Store.titled "../u")).2 = store' :=
    congrArg Prod.snd hrun
  exact ⟨_, hrun, toOption_eq_some.mp (by decide +kernel), toOption_eq_some.mp (by decide +kernel),
    by decide +kernel, by decide +kernel⟩

end RowChange

end TableStore
