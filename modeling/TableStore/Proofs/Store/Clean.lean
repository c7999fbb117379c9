import TableStore.Proofs.Store.Catalog
import TableStore.Proofs.Store.Changes
import TableStore.Proofs.Store.Scan

namespace TableStore

open FileSystem (Location)

variable {config : Config} {home : Location} {contents contents' : Contents} {name : String}
  {table : Table}

/-- An operation that leaves the files and the tables as they are if it fails. One that writes more than
once does so if nothing can fail after its first write. -/
def Clean (config : Config) (home : Location) (contents : Contents) {α : Type}
    (op : Operation α) : Prop :=
  ∀ store, Holds config home contents store → ∀ e, (op.run store).1 = .error e →
    (op.run store).2.files = store.files ∧ Holds config home contents (op.run store).2

namespace Clean

variable {α β : Type}

theorem of_answers {op : Operation α} {result : Except Error α} (hquiet : Quiet op)
    (h : Answers config home contents op result) : Clean config home contents op :=
  fun store hstore _ _ ↦ ⟨(hquiet store).1, (h store hstore).2⟩

theorem ofResult (result : Except Error α) :
    Clean config home contents (Operation.ofResult result) :=
  of_answers (Quiet.ofResult _) (Answers.ofResult _)

theorem of_runs {op : Operation α} {a : α} (h : Runs config home contents op (.ok a) contents') :
    Clean config home contents op := by
  intro store hstore e he
  rw [(h store hstore).1] at he
  cases he

theorem of_carries {op : Operation Unit} {next : Except Error Contents}
    (h : Carries config home contents op next) : Clean config home contents op := by
  cases next with
  | ok contents' => exact of_runs h.runs
  | error e => exact fun store hstore _ _ ↦ ⟨h.leaves e rfl store hstore, (h.runs store hstore).2⟩

theorem bind_of_error {op : Operation Unit} {e : Error} {f : Unit → Operation β}
    (h : Carries config home contents op (.error e)) : Clean config home contents (op >>= f) := by
  intro store hstore e'
  have hfiles := h.leaves e rfl store hstore
  obtain ⟨hresult, hstore'⟩ := h.runs store hstore
  rw [Operation.run_bind]
  rcases hrun : op.run store with ⟨r, store'⟩
  rw [hrun] at hresult hstore' hfiles
  obtain rfl : r = .error e := hresult
  exact fun _ ↦ ⟨hfiles, hstore'⟩

theorem bind {op : Operation α} {f : α → Operation β} {result : Except Error α}
    (hquiet : Quiet op) (h : Answers config home contents op result)
    (hf : ∀ a, result = .ok a → Clean config home contents (f a)) :
    Clean config home contents (op >>= f) := by
  intro store hstore e
  obtain ⟨hresult, hstore'⟩ := h store hstore
  have hfiles := (hquiet store).1
  rw [Operation.run_bind]
  rcases hrun : op.run store with ⟨r, store'⟩
  rw [hrun] at hresult hstore' hfiles
  cases r with
  | error e' => exact fun _ ↦ ⟨hfiles, hstore'⟩
  | ok a =>
    intro he
    obtain ⟨hfiles', hafter⟩ := hf a hresult.symm store' hstore' e he
    exact ⟨hfiles'.trans hfiles, hafter⟩

/-- A question is asked whose answer need not be known beforehand. -/
theorem ask_bind {question : Store → Except Error α} {f : α → Operation β}
    (hf : ∀ a store, Holds config home contents store → question store = .ok a →
      Clean config home contents (f a)) :
    Clean config home contents (Operation.ask question >>= f) := by
  intro store hstore e
  rw [Operation.run_bind, Operation.run_ask]
  cases hanswer : question store with
  | error e' => exact fun _ ↦ ⟨rfl, hstore⟩
  | ok a => exact hf a store hstore hanswer store hstore e

theorem map {op : Operation α} (h : Clean config home contents op) (f : α → β) :
    Clean config home contents (op >>= fun a ↦ Pure.pure (f a)) := by
  intro store hstore e
  rw [Operation.run_bind]
  rcases hrun : op.run store with ⟨r, store'⟩
  cases r with
  | ok a => exact fun he ↦ nomatch he
  | error e' =>
    have hafter := h store hstore e' (by rw [hrun])
    rw [hrun] at hafter
    exact fun _ ↦ hafter

end Clean

/-- A row that a table takes: it has a record, and integers in the columns with an index. -/
structure Table.Takes (table : Table) (row : Row) : Prop where
  encoded : ∃ record, table.schema.encodeRow row = .ok record
  keys : ∀ column ∈ table.columns, ∃ key, row.get? column = some (.int key)

@[simp] theorem Table.columns_change (table : Table) (rows : List Row)
    (edits : String → List BTree.Edit) : (table.change rows edits).columns = table.columns := by
  simp [Table.columns, Table.change, Table.edit, Function.comp_def]

namespace Contents.Consistent

variable {row : Row} {position : Nat}

theorem keys_of_mem (hc : contents.Consistent) (htable : contents name = some table)
    (hrow : row ∈ table.rows) {column : String} (hcolumn : column ∈ table.columns) :
    ∃ key, row.get? column = some (.int key) := by
  obtain ⟨entry, hentry, rfl⟩ := List.mem_map.mp (Table.mem_columns.mp hcolumn)
  exact ((hc.tables htable).indexes entry hentry).total row hrow

theorem takes_of_update (hc : contents.Consistent) (htable : contents name = some table)
    (hrun : contents.update name position row = .ok contents') : table.Takes row := by
  obtain ⟨found, hfound, hrun⟩ := bind_eq_ok.mp hrun
  obtain ⟨old, -, hrun⟩ := bind_eq_ok.mp hrun
  obtain ⟨record, hrecord, hrun⟩ := bind_eq_ok.mp hrun
  obtain ⟨moves, hmoves, -⟩ := bind_eq_ok.mp hrun
  obtain rfl := Option.some.inj ((hc.table_eq_ok.mp hfound).symm.trans htable)
  exact ⟨⟨record, encode_eq_ok.mp hrecord⟩, fun column hcolumn ↦ get?_of_movesOf hmoves hcolumn⟩

theorem insert_of_takes (hc : contents.Consistent) (htable : contents name = some table)
    (hrow : table.Takes row) : contents.insert name row =
      .ok (contents.set name (table.insertRow (row.project table.schema.names))) := by
  obtain ⟨record, hrecord⟩ := hrow.encoded
  have hkeys : ∃ keys, table.keysOf name row = .ok keys := by
    apply exists_mapM_eq_ok
    intro column hcolumn
    obtain ⟨key, hkey⟩ := hrow.keys column hcolumn
    exact ⟨(column, key), by rw [indexKey_eq_ok.mpr hkey, map_ok]⟩
  obtain ⟨keys, hkeys⟩ := hkeys
  rw [Contents.insert, hc.table_eq_ok.mpr htable, ok_bind, encode_eq_ok.mpr hrecord, ok_bind, hkeys]
  rfl

theorem update_of_takes (hc : contents.Consistent) (htable : contents name = some table)
    {old : Row} (hold : table.rows[position]? = some old) (hrow : table.Takes row) :
    contents.update name position row =
      .ok (contents.set name (table.updateRow position old (row.project table.schema.names))) := by
  obtain ⟨record, hrecord⟩ := hrow.encoded
  have hmoves : ∃ moves, table.movesOf name old row = .ok moves := by
    apply exists_mapM_eq_ok
    intro column hcolumn
    obtain ⟨oldKey, holdKey⟩ := hc.keys_of_mem htable (List.mem_of_getElem? hold) hcolumn
    obtain ⟨newKey, hnewKey⟩ := hrow.keys column hcolumn
    exact ⟨(column, oldKey, newKey), by
      rw [indexKey_eq_ok.mpr holdKey, ok_bind, indexKey_eq_ok.mpr hnewKey, ok_bind, pure_eq_ok]⟩
  obtain ⟨moves, hmoves⟩ := hmoves
  rw [Contents.update, hc.table_eq_ok.mpr htable, ok_bind, rowAt_eq_ok.mpr hold, ok_bind,
    encode_eq_ok.mpr hrecord, ok_bind, hmoves]
  rfl

theorem delete_of_lt (hc : contents.Consistent) (htable : contents name = some table)
    {old : Row} (hold : table.rows[position]? = some old) :
    contents.delete name position = .ok (contents.set name (table.deleteRow position old)) := by
  have hkeys : ∃ keys, table.keysOf name old = .ok keys := by
    apply exists_mapM_eq_ok
    intro column hcolumn
    obtain ⟨key, hkey⟩ := hc.keys_of_mem htable (List.mem_of_getElem? hold) hcolumn
    exact ⟨(column, key), by rw [indexKey_eq_ok.mpr hkey, map_ok]⟩
  obtain ⟨keys, hkeys⟩ := hkeys
  rw [Contents.delete, hc.table_eq_ok.mpr htable, ok_bind, rowAt_eq_ok.mpr hold, ok_bind, hkeys]
  rfl

end Contents.Consistent

theorem filterRows_positions {ε : Type} {isCandidate : Row → Bool} {accepts : Row → Except ε Bool}
    {position : Nat} {rows : List Row} {found : List (Nat × Row)}
    (h : Operation.filterRows isCandidate accepts position rows = .ok found) :
    (found.map Prod.fst).Pairwise (· < ·) ∧
      ∀ entry ∈ found, position ≤ entry.1 ∧ entry.1 < position + rows.length ∧ entry.2 ∈ rows := by
  induction rows generalizing position found with
  | nil =>
    obtain rfl := Except.ok.inj h
    simp
  | cons row rows ih =>
    have hrest : ∀ {rest}, Operation.filterRows isCandidate accepts (position + 1) rows = .ok rest →
        (rest.map Prod.fst).Pairwise (· < ·) ∧ ∀ entry ∈ rest, position + 1 ≤ entry.1 ∧
          entry.1 < position + (row :: rows).length ∧ entry.2 ∈ row :: rows := by
      intro rest hrest
      obtain ⟨hordered, hin⟩ := ih hrest
      refine ⟨hordered, fun entry hentry ↦ ?_⟩
      obtain ⟨hlow, hhigh, hmem⟩ := hin entry hentry
      rw [List.length_cons]
      exact ⟨hlow, by omega, List.mem_cons_of_mem _ hmem⟩
    rw [Operation.filterRows] at h
    split at h
    · obtain ⟨accepted, -, h⟩ := bind_eq_ok.mp h
      obtain ⟨rest, hfilter, h⟩ := bind_eq_ok.mp h
      obtain ⟨hordered, hin⟩ := hrest hfilter
      obtain rfl := Except.ok.inj h
      cases accepted with
      | false =>
        exact ⟨hordered, fun entry hentry ↦
          ⟨Nat.le_of_succ_le (hin entry hentry).1, (hin entry hentry).2⟩⟩
      | true =>
        refine ⟨List.pairwise_cons.mpr ⟨?_, hordered⟩, ?_⟩
        · intro other hother
          obtain ⟨entry, hentry, rfl⟩ := List.mem_map.mp hother
          exact (hin entry hentry).1
        · intro entry hentry
          rcases List.mem_cons.mp hentry with rfl | hentry
          · simp
          · exact ⟨Nat.le_of_succ_le (hin entry hentry).1, (hin entry hentry).2⟩
    · obtain ⟨hordered, hin⟩ := hrest h
      exact ⟨hordered, fun entry hentry ↦
        ⟨Nat.le_of_succ_le (hin entry hentry).1, (hin entry hentry).2⟩⟩

/-- Once the new rows are rows that the table takes, no update of rows that are there can fail. -/
theorem Runs.updateAll {change : Row → Row} {found : List (Nat × Row)} (hc : contents.Consistent)
    (htable : contents name = some table)
    (hfound : ∀ entry ∈ found, entry.1 < table.rows.length ∧ table.Takes (change entry.2)) :
    ∃ contents', Runs config home contents
      (found.forM fun entry ↦ Operation.update name entry.1 (change entry.2)) (.ok ()) contents' := by
  induction found generalizing contents table with
  | nil => exact ⟨contents, Answers.pure ()⟩
  | cons entry found ih =>
    obtain ⟨hlt, htakes⟩ := hfound entry (by simp)
    have hupdate := hc.update_of_takes htable (List.getElem?_eq_getElem hlt) htakes
    have hstep := (@Carries.update config home _ hc name entry.1 (change entry.2)).runs
    rw [hupdate] at hstep
    obtain ⟨contents', hrest⟩ := ih (hc.update hupdate) (Contents.set_self _ _ _)
        fun other hother ↦ by
      obtain ⟨hlt', htakes'⟩ := hfound other (List.mem_cons_of_mem _ hother)
      refine ⟨?_, htakes'.encoded, fun column hcolumn ↦ htakes'.keys column ?_⟩
      · simpa [Table.updateRow, Table.change] using hlt'
      · simpa [Table.updateRow] using hcolumn
    exact ⟨contents', Runs.bind_ok hstep hrest⟩

/-- No deletion fails when the last of the rows goes first. -/
theorem Runs.deleteAll {found : List (Nat × Row)} (hc : contents.Consistent)
    (htable : contents name = some table) (hordered : (found.map Prod.fst).Pairwise (· > ·))
    (hfound : ∀ entry ∈ found, entry.1 < table.rows.length) :
    ∃ contents', Runs config home contents
      (found.forM fun entry ↦ Operation.delete name entry.1) (.ok ()) contents' := by
  induction found generalizing contents table with
  | nil => exact ⟨contents, Answers.pure ()⟩
  | cons entry found ih =>
    obtain ⟨hbelow, hordered⟩ := List.pairwise_cons.mp hordered
    have hlt := hfound entry (by simp)
    have hdelete := hc.delete_of_lt htable (List.getElem?_eq_getElem hlt)
    have hstep := (@Carries.delete config home _ hc name entry.1).runs
    rw [hdelete] at hstep
    obtain ⟨contents', hrest⟩ := ih (hc.delete hdelete) (Contents.set_self _ _ _) hordered
        fun other hother ↦ by
      have hother' := hbelow other.1 (List.mem_map_of_mem hother)
      have hlength := List.length_eraseIdx_of_lt hlt
      show other.1 < (table.rows.eraseIdx entry.1).length
      omega
    exact ⟨contents', Runs.bind_ok hstep hrest⟩

theorem Runs.deleteFound {found : List (Nat × Row)} (hc : contents.Consistent)
    (htable : contents name = some table) (hordered : (found.map Prod.fst).Pairwise (· < ·))
    (hfound : ∀ entry ∈ found, entry.1 < table.rows.length) :
    ∃ contents', Runs config home contents
      (found.reverse.forM fun entry ↦ Operation.delete name entry.1) (.ok ()) contents' := by
  have hreverse : (found.reverse.map Prod.fst).Pairwise (· > ·) := by
    rw [List.map_reverse, List.pairwise_reverse]
    exact hordered
  exact Runs.deleteAll hc htable hreverse fun entry hentry ↦ hfound entry (List.mem_reverse.mp hentry)

end TableStore
