import TableStore.Proofs.BTree.Edits
import TableStore.Proofs.Record
import TableStore.Store.Basic

namespace TableStore

theorem exists_split {α : Type} {xs : List α} {i : Nat} {x : α} (h : xs[i]? = some x) :
    ∃ front back, xs = front ++ x :: back ∧ front.length = i := by
  obtain ⟨hi, rfl⟩ := List.getElem?_eq_some_iff.mp h
  refine ⟨xs.take i, xs.drop (i + 1), ?_, ?_⟩
  · rw [List.getElem_cons_drop, List.take_append_drop]
  · rw [List.length_take]
    omega

theorem eraseIdx_map {α β : Type} (f : α → β) (xs : List α) (i : Nat) :
    (xs.map f).eraseIdx i = (xs.eraseIdx i).map f := by
  induction xs generalizing i with
  | nil => rfl
  | cons x xs ih => cases i <;> simp [ih]

namespace Row

def key? (column : String) (row : Row) : Option Int64 := (row.get? column).bind Value.int?

theorem key?_eq_some {column : String} {row : Row} {key : Int64} :
    row.key? column = some key ↔ row.get? column = some (.int key) := by
  rw [key?]
  cases row.get? column with
  | none => simp
  | some value => cases value <;> simp [Value.int?]

theorem entries_eq_map (row : Row) :
    row.entries = (row.entries.map Prod.fst).map fun name ↦ (name, (row.get? name).getD .null) := by
  rw [List.map_map]
  refine List.ext_getElem (by simp) fun i hi _ ↦ ?_
  have hlookup : row.get? row.entries[i].1 = some row.entries[i].2 :=
    lookup_of_mem row.nodup (List.getElem_mem hi)
  simp [hlookup]

theorem project_names {row : Row} {names : List String} (h : row.entries.map Prod.fst = names) :
    row.project names = row := by
  subst h
  apply Row.ext
  rw [entries_project row.nodup fun name hname ↦ contains_of_mem hname]
  exact row.entries_eq_map.symm

end Row

namespace Schema

variable {schema : Schema} {row : Row} {record : Record}

/-- A row as it comes out of a table: it is laid out in the order of the schema and has a record. -/
structure Keeps (schema : Schema) (row : Row) : Prop where
  names : row.entries.map Prod.fst = schema.names
  encoded : ∃ record, schema.encodeRow row = .ok record

def recordOf (schema : Schema) (row : Row) : Record := (schema.encodeRow row).toOption.getD []

theorem recordOf_eq (h : schema.encodeRow row = .ok record) : schema.recordOf row = record := by
  rw [recordOf, h]
  rfl

theorem Keeps.encodeRow (h : schema.Keeps row) :
    schema.encodeRow row = .ok (schema.recordOf row) := by
  obtain ⟨record, hrecord⟩ := h.encoded
  rw [hrecord, recordOf_eq hrecord]

theorem Keeps.project (h : schema.Keeps row) : row.project schema.names = row :=
  Row.project_names h.names

theorem Keeps.decodeRow (h : schema.Keeps row) :
    schema.decodeRow (schema.recordOf row) = .ok row := by
  rw [decodeRow_of_encodeRow h.encodeRow, h.project]

theorem keeps_project (h : schema.encodeRow row = .ok record) :
    schema.Keeps (row.project schema.names) ∧
    schema.recordOf (row.project schema.names) = record := by
  have hcovers := (encodeRow_eq_ok.mp h).1
  have hproject := encodeRow_project h
  refine ⟨⟨?_, record, hproject⟩, recordOf_eq hproject⟩
  exact hcovers.names_project

end Schema

open BTree (Edit)

def columnKeys (column : String) (rows : List Row) : List Int64 := rows.filterMap (Row.key? column)

/-- A tree that indexes a column of these rows. -/
structure Indexes (schema : Schema) (rows : List Row) (column : String) (tree : BTree) : Prop where
  typed : ∃ definition ∈ schema.columns, definition.name = column ∧ definition.type = .int
  total : ∀ row ∈ rows, ∃ key, row.get? column = some (.int key)
  proper : tree.Proper
  keys : tree.keys.Perm (columnKeys column rows)

theorem Indexes.mem_keys_iff {schema : Schema} {rows : List Row} {column : String} {tree : BTree}
    (h : Indexes schema rows column tree) {key : Int64} :
    key ∈ tree.keys ↔ ∃ row ∈ rows, row.get? column = some (.int key) := by
  simp only [h.keys.mem_iff, columnKeys, List.mem_filterMap, Row.key?_eq_some]

/-- The tree after changes, if they all succeed. -/
def BTree.edited (edits : List Edit) (tree : BTree) : BTree :=
  (edits.foldlM Edit.apply tree).toOption.getD tree

@[simp] theorem BTree.edited_nil (tree : BTree) : tree.edited [] = tree := rfl

theorem BTree.Proper.edited {tree : BTree} (h : tree.Proper) (edits : List Edit) :
    edits.foldlM Edit.apply tree = .ok (tree.edited edits) ∧ (tree.edited edits).Proper ∧
      (tree.edited edits).keys.Perm (edits.foldl Edit.count tree.keys) := by
  obtain ⟨tree', hfold, -, hproper, hperm⟩ := Edit.foldlM_proper edits h (.refl _)
  have hedited : tree.edited edits = tree' := by
    rw [BTree.edited, hfold]
    rfl
  rw [hedited]
  exact ⟨hfold, hproper, hperm⟩

theorem BTree.Edit.foldl_count_perm (edits : List Edit) {keys keys' : List Int64}
    (h : keys.Perm keys') :
    (edits.foldl count keys).Perm (edits.foldl count keys') := by
  induction edits generalizing keys keys' with
  | nil => exact h
  | cons edit edits ih =>
    apply ih
    cases edit with
    | insert key => exact h.cons key
    | erase key => exact h.erase key

def insertEdits (row : Row) (column : String) : List Edit := (row.key? column).toList.map .insert

def eraseEdits (row : Row) (column : String) : List Edit := (row.key? column).toList.map .erase

def moveEdits (old new : Row) (column : String) : List Edit :=
  if old.key? column = new.key? column then [] else eraseEdits old column ++ insertEdits new column

/-- A table as its rows, with the trees of its indexes. -/
structure Table where
  schema : Schema
  rows : List Row
  indexes : List (String × BTree)

namespace Table

variable {table : Table}

structure Consistent (table : Table) : Prop where
  names : ∀ name ∈ table.schema.names, Store.isName name = true
  rows : ∀ row ∈ table.rows, table.schema.Keeps row
  nodup : (table.indexes.map Prod.fst).Nodup
  indexes : ∀ entry ∈ table.indexes, Indexes table.schema table.rows entry.1 entry.2

def document (table : Table) (name : String) : TableDocument :=
  ⟨name, table.schema.columns, table.rows.map table.schema.recordOf⟩

def columns (table : Table) : List String :=
  (table.indexes.map Prod.fst).mergeSort fun a b ↦ decide (a ≤ b)

def edit (edits : String → List Edit) (table : Table) : Table :=
  { table with indexes := table.indexes.map fun entry ↦ (entry.1, entry.2.edited (edits entry.1)) }

def change (rows : List Row) (edits : String → List Edit) (table : Table) : Table :=
  { table.edit edits with rows }

theorem mem_columns {column : String} :
    column ∈ table.columns ↔ column ∈ table.indexes.map Prod.fst := by
  rw [columns, List.mem_mergeSort]

theorem Consistent.nodup_columns (h : table.Consistent) : table.columns.Nodup :=
  (List.mergeSort_perm _ _).nodup_iff.mpr h.nodup

theorem Consistent.mem_names (h : table.Consistent) {column : String}
    (hcolumn : column ∈ table.columns) :
    column ∈ table.schema.names := by
  obtain ⟨entry, hentry, rfl⟩ := List.mem_map.mp (mem_columns.mp hcolumn)
  obtain ⟨definition, hdefinition, hname, -⟩ := (h.indexes entry hentry).typed
  rw [← hname]
  exact List.mem_map_of_mem hdefinition

theorem Consistent.change {rows : List Row} {edits : String → List Edit} (h : table.Consistent)
    (hrows : ∀ row ∈ rows, table.schema.Keeps row)
    (htotal : ∀ entry ∈ table.indexes, ∀ row ∈ rows, ∃ key, row.get? entry.1 = some (.int key))
    (hkeys : ∀ entry ∈ table.indexes, ((edits entry.1).foldl Edit.count
      (columnKeys entry.1 table.rows)).Perm (columnKeys entry.1 rows)) :
    (table.change rows edits).Consistent := by
  refine ⟨h.names, hrows, ?_, ?_⟩
  · simpa [Table.change, edit, Function.comp_def] using h.nodup
  · intro entry hentry
    obtain ⟨old, hold, rfl⟩ := List.mem_map.mp hentry
    obtain ⟨hcolumn, -, hproper, hperm⟩ := h.indexes old hold
    obtain ⟨-, hproper', hperm'⟩ := hproper.edited (edits old.1)
    refine ⟨hcolumn, htotal old hold, hproper', ?_⟩
    exact hperm'.trans ((Edit.foldl_count_perm _ hperm).trans (hkeys old hold))

def insertRow (table : Table) (row : Row) : Table :=
  table.change (table.rows ++ [row]) (insertEdits row)

def deleteRow (table : Table) (position : Nat) (old : Row) : Table :=
  table.change (table.rows.eraseIdx position) (eraseEdits old)

def updateRow (table : Table) (position : Nat) (old new : Row) : Table :=
  table.change (table.rows.set position new) (moveEdits old new)

theorem columnKeys_append (column : String) (front back : List Row) :
    columnKeys column (front ++ back) = columnKeys column front ++ columnKeys column back :=
  List.filterMap_append ..

theorem columnKeys_cons {column : String} {row : Row} {key : Int64} (h : row.key? column = some key)
    (rows : List Row) : columnKeys column (row :: rows) = key :: columnKeys column rows := by
  rw [columnKeys, List.filterMap_cons, h]
  rfl

variable {row old : Row} {position : Nat}

theorem Consistent.insertRow (h : table.Consistent) (hrow : table.schema.Keeps row)
    (hkeys : ∀ entry ∈ table.indexes, ∃ key, row.get? entry.1 = some (.int key)) :
    (table.insertRow row).Consistent := by
  apply h.change
  · intro other hother
    rcases List.mem_append.mp hother with hother | hother
    · exact h.rows other hother
    · exact List.mem_singleton.mp hother ▸ hrow
  · intro entry hentry other hother
    rcases List.mem_append.mp hother with hother | hother
    · exact (h.indexes entry hentry).total other hother
    · exact List.mem_singleton.mp hother ▸ hkeys entry hentry
  · intro entry hentry
    obtain ⟨key, hkey⟩ := hkeys entry hentry
    have hkey' := Row.key?_eq_some.mpr hkey
    rw [insertEdits, hkey', columnKeys_append, columnKeys_cons hkey']
    exact (List.perm_append_singleton key _).symm

theorem Consistent.deleteRow (h : table.Consistent) (hold : table.rows[position]? = some old) :
    (table.deleteRow position old).Consistent := by
  obtain ⟨front, back, hrows, rfl⟩ := exists_split hold
  have herase : table.rows.eraseIdx front.length = front ++ back := by
    rw [hrows, List.eraseIdx_append_of_length_le (Nat.le_refl _)]
    simp
  have hsub : ∀ other ∈ table.rows.eraseIdx front.length, other ∈ table.rows :=
    fun other hother ↦ List.eraseIdx_subset hother
  apply h.change
  · exact fun other hother ↦ h.rows other (hsub other hother)
  · exact fun entry hentry other hother ↦ (h.indexes entry hentry).total other (hsub other hother)
  · intro entry hentry
    obtain ⟨key, hkey⟩ := (h.indexes entry hentry).total old (List.mem_of_getElem? hold)
    have hkey' := Row.key?_eq_some.mpr hkey
    rw [eraseEdits, hkey', herase, hrows, columnKeys_append, columnKeys_append,
      columnKeys_cons hkey']
    have hperm :=
      (@List.perm_middle _ key (columnKeys entry.1 front) (columnKeys entry.1 back)).erase key
    rwa [List.erase_cons_head] at hperm

theorem Consistent.updateRow (h : table.Consistent) (hold : table.rows[position]? = some old)
    (hrow : table.schema.Keeps row)
    (hkeys : ∀ entry ∈ table.indexes, ∃ key, row.get? entry.1 = some (.int key)) :
    (table.updateRow position old row).Consistent := by
  obtain ⟨front, back, hrows, rfl⟩ := exists_split hold
  have hset : table.rows.set front.length row = front ++ row :: back := by
    rw [hrows, List.set_append_right _ _ (Nat.le_refl _)]
    simp
  have hcases : ∀ other ∈ table.rows.set front.length row, other ∈ table.rows ∨ other = row := by
    intro other hother
    rw [hset, List.mem_append, List.mem_cons] at hother
    rw [hrows, List.mem_append, List.mem_cons]
    rcases hother with hother | rfl | hother
    · exact .inl (.inl hother)
    · exact .inr rfl
    · exact .inl (.inr (.inr hother))
  apply h.change
  · intro other hother
    rcases hcases other hother with hother | rfl
    · exact h.rows other hother
    · exact hrow
  · intro entry hentry other hother
    rcases hcases other hother with hother | rfl
    · exact (h.indexes entry hentry).total other hother
    · exact hkeys entry hentry
  · intro entry hentry
    obtain ⟨oldKey, hold⟩ := (h.indexes entry hentry).total old (List.mem_of_getElem? hold)
    obtain ⟨newKey, hnew⟩ := hkeys entry hentry
    have hold' := Row.key?_eq_some.mpr hold
    have hnew' := Row.key?_eq_some.mpr hnew
    rw [hset, hrows, columnKeys_append, columnKeys_append, columnKeys_cons hold',
      columnKeys_cons hnew',
      moveEdits, hold', hnew']
    by_cases hsame : oldKey = newKey
    · rw [hsame, if_pos rfl]
      rfl
    · rw [if_neg (by simpa using hsame), eraseEdits, insertEdits, hold', hnew']
      have hperm := (@List.perm_middle _ oldKey (columnKeys entry.1 front)
        (columnKeys entry.1 back)).erase oldKey
      rw [List.erase_cons_head] at hperm
      exact (hperm.cons newKey).trans List.perm_middle.symm

end Table

end TableStore
