import TableStore.Proofs.Store.Intact
import TableStore.Proofs.Store.Reopened

namespace TableStore

open Store (isName)

/-- A record with a cell for each column of a schema, in its order, and no others. -/
structure Schema.Admits (schema : Schema) (record : Record) : Prop where
  names : record.map Prod.fst = schema.names
  cells : ∀ column ∈ schema.columns, ∃ json value, record.get? column.name = some json ∧
    Value.decode? json column.type = some value ∧ column.accepts value = true
  nulls : ∀ column ∈ schema.columns, record.get? column.name = some (.scalar .null) →
    column.allowNull = true

theorem Schema.admits_of_encodeRow {schema : Schema} {row : Row} {record : Record}
    (h : schema.encodeRow row = .ok record) : schema.Admits record := by
  obtain ⟨hrecord, hcells⟩ := cells_of_encodeRow h
  have hcell : ∀ column ∈ schema.columns, ∃ json value, record.get? column.name = some json ∧
      Value.decode? json column.type = some value ∧ column.accepts value = true := by
    intro column hcolumn
    refine ⟨_, _, ?_, Column.decode?_encode (hcells column hcolumn),
      (Column.encode_eq_ok.mp (hcells column hcolumn)).1⟩
    exact hrecord ▸ lookup_map_of_mem schema.nodup hcolumn
  refine ⟨names_of_encodeRow h, hcell, fun column hcolumn hnull ↦ ?_⟩
  obtain ⟨json, value, hjson, hvalue, haccepts⟩ := hcell column hcolumn
  obtain rfl := Option.some.inj (hjson.symm.trans hnull)
  obtain rfl := Option.some.inj hvalue
  exact haccepts

namespace Reachable

variable {store : Store}

theorem document_admits (h : Reachable store) {table : String}
    (hexists : store.tableExists table = true) : ∃ document schema,
      store.document table = .ok (document, schema) ∧ document.name = table ∧
        ∀ record ∈ document.records, schema.Admits record := by
  obtain ⟨config, home, contents, -, hc, hstore⟩ := h.sane
  obtain ⟨hname, hfile⟩ := Bool.and_eq_true_iff.mp hexists
  rw [hstore.isFile_table hname] at hfile
  obtain ⟨found, hfound⟩ := Option.isSome_iff_exists.mp hfile
  refine ⟨found.document table, found.schema, ?_, rfl, ?_⟩
  · rw [hstore.document hc, hc.table_eq_ok.mpr hfound, map_ok]
  · intro record hrecord
    obtain ⟨row, hrow, rfl⟩ := List.mem_map.mp hrecord
    exact Schema.admits_of_encodeRow ((hc.tables hfound).rows row hrow).encodeRow

theorem index_of_corrupt (h : Reachable store) {call : Call} {path : Path} {reason : Corruption}
    (hanswer : call.answer store = .error (.corrupt path reason)) :
    (∃ table column, call = .index table column ∧ isName table = false) ∨
      ∃ predicate row, call.predicate? = some predicate ∧
        predicate.accepts row = .error (.corrupt path reason) := by
  classical
  by_contra hother
  obtain ⟨hnamed, hown⟩ := not_or.mp hother
  -- The kind of errors is this one error alone.
  have hkind : ∀ e, decide (e = Error.corrupt path reason) = true → e.isCorrupt = true := by
    intro e he
    rw [of_decide_eq_true he]
    rfl
  have hintact := @Intact.call _ hkind call
    (fun table column hcall ↦ by
      by_contra hname
      exact hnamed ⟨table, column, hcall, by simpa using hname⟩)
    (fun predicate hcall row e he ↦ by
      rw [decide_eq_false_iff_not]
      rintro rfl
      exact hown ⟨predicate, row, hcall, he⟩)
  exact of_decide_eq_false ((hintact store h.sane).2 _ hanswer) rfl

theorem outside_of_corrupt (h : Reachable store)
    (hsize : ∀ table count, store.rowCount table = .ok count → count < Nat.pow 2 63)
    {table column : String} {path : Path} {reason : Corruption}
    (hanswer : (Call.index table column).answer store = .error (.corrupt path reason)) :
    path = store.indexPath table column ∧ store.Outside path := by
  obtain ⟨config, home, contents, -, hc, hstore⟩ := h.sane
  obtain ⟨hcolumn, hread⟩ := Operation.index_eq_corrupt hanswer
  exact hstore.outside_of_readIndex (hstore.loadable hc hsize) hcolumn hread

/-- Every record of every table fits the schema of the table. Nothing is found broken but an index
whose table has no proper name, and whose file is in another directory. Only a filter can say so of
its own accord. -/
theorem conforms (h : Reachable store) :
    (∀ table, store.tableExists table = true → ∃ document schema,
      store.document table = .ok (document, schema) ∧ document.name = table ∧
        ∀ record ∈ document.records, schema.Admits record) ∧
    (∀ (call : Call) path reason, call.answer store = .error (.corrupt path reason) →
      (∃ table column, call = .index table column ∧ isName table = false) ∨
        ∃ predicate row, call.predicate? = some predicate ∧
          predicate.accepts row = .error (.corrupt path reason)) ∧
    (∀ table path reason, store.schema table ≠ .error (.corrupt path reason) ∧
      store.rowCount table ≠ .error (.corrupt path reason) ∧
      store.listIndexes table ≠ .error (.corrupt path reason)) ∧
    ((∀ table count, store.rowCount table = .ok count → count < Nat.pow 2 63) →
      ∀ table column path reason,
        (Call.index table column).answer store = .error (.corrupt path reason) →
          path = store.indexPath table column ∧ store.Outside path) := by
  refine ⟨fun table ↦ h.document_admits, fun call path reason ↦ h.index_of_corrupt,
    fun table path reason ↦ ?_, fun hsize table column path reason ↦ h.outside_of_corrupt hsize⟩
  have hdocument := (Intact.document table store h.sane).2
  have hschema : Avoids Error.isCorrupt (store.schema table) := hdocument.bind fun _ ↦ .ok _
  have hcount : Avoids Error.isCorrupt (store.rowCount table) := hdocument.bind fun _ ↦ .ok _
  exact ⟨hschema.ne_corrupt path reason, hcount.ne_corrupt path reason,
    (Avoids.listIndexes store table).corrupt.ne_corrupt path reason⟩

theorem conforms_sample : Reachable sample ∧ sample.tableExists "t" = true ∧
    (∃ document schema, sample.document "t" = .ok (document, schema) ∧ document.name = "t" ∧
      ∀ record ∈ document.records, schema.Admits record) ∧
    ∀ id path reason, (Call.read "t" id).answer sample ≠ .error (.corrupt path reason) := by
  have hexists : sample.tableExists "t" = true := by decide +kernel
  obtain ⟨htables, hcalls, -⟩ := conforms sample_reachable
  refine ⟨sample_reachable, hexists, htables "t" hexists, fun id path reason hanswer ↦ ?_⟩
  rcases hcalls _ path reason hanswer with ⟨table, column, hcall, -⟩ | ⟨predicate, row, hcall, -⟩
  · cases hcall
  · cases hcall

def flanked : Store := ⟨{}, ⟨[(["data"], .directory), (["x.c.idx.json"], .text "\x7b\x7d")]⟩, []⟩

/-- The file is taken for an index, although no table can have the name. -/
theorem exists_corrupt_index : Reachable flanked ∧ isName "../x" = false ∧
    ∃ path reason, (Call.index "../x" "c").answer flanked = .error (.corrupt path reason) := by
  have hstart : Store.start {} ⟨[(["x.c.idx.json"], .text "\x7b\x7d")]⟩ =
      (.ok flanked, flanked.files) := rfl
  have hcorrupt : ¬Avoids Error.isCorrupt ((Call.index "../x" "c").answer flanked) := by
    decide +kernel
  obtain ⟨e, he, hkind⟩ := Avoids.exists_error hcorrupt
  refine ⟨.start hstart rfl, by decide, ?_⟩
  cases e with
  | corrupt path reason => exact ⟨path, reason, he⟩
  | _ => cases hkind

end Reachable

end TableStore
