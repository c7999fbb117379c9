import TableStore.Proofs.Store.RowChange
import TableStore.Store.Tables

namespace TableStore

open FileSystem (reach)
open Store (tableFile isName isName_of_eq_true isFileName_tableFile)

def TableDocument.holding (table : String) (schema : Schema) (records : List Record) :
    TableDocument := { new table schema with records }

namespace Operation

variable {table : String} {schema : Schema} {records : List Record} {store created : Store}

theorem run_createTable_eq_ok (h : (createTable table schema).run store = (.ok (), created)) :
    isName table = true ∧
      (writeTable (.new table schema)).run store = (.ok (), created) := by
  obtain ⟨⟨⟩, hname, hrun⟩ := run_ask_bind_eq_ok.mp h
  obtain ⟨⟨⟩, -, hrun⟩ := run_ask_bind_eq_ok.mp hrun
  obtain ⟨⟨⟩, -, hwrite⟩ := run_ask_bind_eq_ok.mp hrun
  exact ⟨Contents.checkName_eq_ok.mp hname, hwrite⟩

theorem exists_stands_of_writeTable {document : TableDocument} {written : Store}
    (hname : isName document.name = true)
    (h : (writeTable document).run store = (.ok (), written)) :
    ∃ home, store.Stands home := by
  rw [run_writeTable, write, run_changeFiles] at h
  split at h
  · rename_i files hwrite
    exact FileSystem.exists_leads_of_write (isFileName_tableFile (isName_of_eq_true hname)) hwrite
  · cases h

theorem exists_run_writeTable_again {document document' : TableDocument} {written : Store}
    (hname : isName document.name = true) (hsame : document'.name = document.name)
    (h : (writeTable document).run store = (.ok (), written)) :
    ∃ again, (writeTable document').run written = (.ok (), again) := by
  have hfile := isFileName_tableFile (isName_of_eq_true hname)
  obtain ⟨home, hstands⟩ := exists_stands_of_writeTable hname h
  have hwrites := Store.Writes.of_writeTable hstands hname h
  have hreach : reach written.config.rootPath (tableFile document.name) = .ok () := by
    rw [hwrites.differs.config]
    exact hwrites.reach
  have hdirectory : written.files.isDirectory (home ++ [tableFile document.name]) = false := by
    rw [FileSystem.isDirectory, hfile.lookup_eq, hwrites.entry]
    rfl
  have htarget := hwrites.differs.stands.target_join hfile
  rw [hreach, hdirectory] at htarget
  have hpath : written.tablePath document'.name =
      written.config.rootPath.join (tableFile document.name) := by
    rw [hsame]
    rfl
  rw [run_writeTable, hpath, write, run_changeFiles, FileSystem.write, htarget]
  exact ⟨_, rfl⟩

end Operation

/-- What a table file holds is read back: the name, the columns, and the records with their members in
order. A table that was made can be written, and whatever store writes it finds it again. -/
theorem Store.table_file_round_trip {table : String} {schema : Schema} {store created : Store}
    (hcreate : (Operation.createTable table schema).run store = (.ok (), created))
    {records : List Record}
    (hrecords : ∀ record ∈ records, ∃ row, schema.encodeRow row = .ok record) :
    (∀ path, tableOfText path (TableDocument.holding table schema records).text =
      .ok (.holding table schema records, schema)) ∧
    (∃ written, (Operation.writeTable (.holding table schema records)).run created =
      (.ok (), written)) ∧
    ∀ before written,
      (Operation.writeTable (.holding table schema records)).run before = (.ok (), written) →
        written.document table = .ok (.holding table schema records, schema) := by
  have hstored : ∀ record ∈ (TableDocument.holding table schema records).records,
      record.Stored := by
    intro record hrecord
    obtain ⟨row, hrow⟩ := hrecords record hrecord
    exact Schema.stored_of_encodeRow hrow
  have hschema : (TableDocument.holding table schema records).schema = .ok schema :=
    schema.ofColumns_columns
  obtain ⟨hname, hcreated⟩ := Operation.run_createTable_eq_ok hcreate
  have hnew : isName (TableDocument.new table schema).name = true := hname
  refine ⟨fun path ↦ ?_, Operation.exists_run_writeTable_again hnew rfl hcreated,
    fun before written hwrite ↦ ?_⟩
  · simp only [tableOfText, TableDocument.ofText?_text hstored, hschema]
  · obtain ⟨home, hstands⟩ := Operation.exists_stands_of_writeTable hname hwrite
    exact (Writes.of_writeTable hstands hname hwrite).document_eq hname hschema hstored

def Schema.notes : Schema := ⟨[{ name := "text", type := .string }], by simp⟩

def Record.quoted : Record := [("text", .scalar (.string "\"\\\x01"))]

theorem Store.table_file_round_trip_quoted : ∃ created,
    (Operation.createTable "t" .notes).run Reachable.opened = (.ok (), created) ∧
    (∀ record ∈ [Record.quoted], ∃ row, Schema.notes.encodeRow row = .ok record) ∧
    (∀ path, tableOfText path (TableDocument.holding "t" .notes [Record.quoted]).text =
      .ok (.holding "t" .notes [Record.quoted], .notes)) ∧
    (∃ written, (Operation.writeTable (.holding "t" .notes [Record.quoted])).run created =
      (.ok (), written)) ∧
    ∀ before written,
      (Operation.writeTable (.holding "t" .notes [Record.quoted])).run before = (.ok (), written) →
        written.document "t" = .ok (.holding "t" .notes [Record.quoted], .notes) := by
  obtain ⟨created, hcreate⟩ := @Operation.exists_run_eq_ok _ Reachable.opened
    (Operation.createTable "t" .notes) () (toOption_eq_some.mp (by decide +kernel))
  have hrecords : ∀ record ∈ [Record.quoted], ∃ row, Schema.notes.encodeRow row = .ok record := by
    rintro record (_ | ⟨_, ⟨⟩⟩)
    exact ⟨Row.empty.set "text" (.text "\"\\\x01"), rfl⟩
  exact ⟨created, hcreate, hrecords, table_file_round_trip hcreate hrecords⟩

end TableStore
