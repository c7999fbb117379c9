import TableStore.Proofs.Store.Steps

namespace TableStore

open BTree (Edit)
open FileSystem (Location)
open Store (isName)

namespace Table

variable {table : Table}

theorem lookup_edit (edits : String → List Edit) (column : String) :
    (table.edit edits).indexes.lookup column =
      (table.indexes.lookup column).map (BTree.edited (edits column)) :=
  lookup_map_value (fun column tree ↦ BTree.edited (edits column) tree) table.indexes column

theorem edit_congr {edits edits' : String → List Edit}
    (h : ∀ entry ∈ table.indexes, edits entry.1 = edits' entry.1) :
    table.edit edits = table.edit edits' := by
  rw [edit, edit]
  congr 1
  apply List.map_congr_left
  intro entry hentry
  rw [h entry hentry]

theorem edit_nil (table : Table) : table.edit (fun _ ↦ []) = table := by
  rw [edit]
  simp

theorem edit_edit {edits edits' : String → List Edit}
    (h : ∀ column, edits column = [] ∨ edits' column = []) :
    (table.edit edits).edit edits' = table.edit fun column ↦ edits column ++ edits' column := by
  rw [edit, edit, edit]
  simp only [List.map_map, Function.comp_def]
  congr 1
  apply List.map_congr_left
  intro entry _
  rcases h entry.1 with h | h
  · rw [h, BTree.edited_nil, List.nil_append]
  · rw [h, BTree.edited_nil, List.append_nil]

end Table

section

variable {config : Config} {home : Location} {contents : Contents} {name : String} {table : Table}
  {β : Type} {column : β → String} {change : β → BTree → Except BTree.Fault BTree}
  {edits : String → List Edit}

theorem Runs.changeIndexes {items : List β} (hname : isName name = true)
    (htable : contents name = some table)
    (hnodup : (items.map column).Nodup)
    (hitems : ∀ item ∈ items, isName (column item) = true ∧
      ∃ tree, table.indexes.lookup (column item) = some tree ∧ tree.Proper)
    (hchange : ∀ item ∈ items, ∀ tree,
      change item tree = (edits (column item)).foldlM Edit.apply tree) :
    Runs config home contents
      (items.forM fun item ↦ Operation.changeIndex name (column item) (change item)) (.ok ())
      (contents.set name
        (table.edit fun other ↦ if other ∈ items.map column then edits other else [])) := by
  induction items generalizing contents table with
  | nil =>
    have hsame : contents.set name (table.edit fun _ ↦ []) = contents := by
      rw [Table.edit_nil, Contents.set_eq_self htable]
    simp only [List.map_nil, List.not_mem_nil, if_false, hsame]
    exact Answers.pure ()
  | cons item items ih =>
    obtain ⟨hfresh, hnodup⟩ := List.nodup_cons.mp hnodup
    obtain ⟨hcolumn, tree, htree, hproper⟩ := hitems item (by simp)
    let first : String → List Edit := fun other ↦ if other = column item then edits other else []
    have hlookup : ∀ other, (table.edit first).indexes.lookup other =
        if other = column item then some (tree.edited (edits (column item)))
          else table.indexes.lookup other := by
      intro other
      rw [Table.lookup_edit]
      by_cases hother : other = column item
      · simp only [first, hother, if_true, htree, Option.map_some]
      · simp only [first, if_neg hother]
        cases table.indexes.lookup other <;> rfl
    have hstep : Runs config home contents
        (Operation.changeIndex name (column item) (change item)) (.ok ())
        (contents.set name (table.edit first)) := by
      refine Runs.changeIndex hname hcolumn htable htree ?_ rfl hlookup
      rw [hchange item (by simp)]
      exact (hproper.edited (edits (column item))).1
    have hrest :=
      @ih (contents.set name (table.edit first)) (table.edit first) (Contents.set_self _ _ _) hnodup
      (fun other hother ↦ by
        obtain ⟨hname', tree', htree', hproper'⟩ := hitems other (List.mem_cons_of_mem _ hother)
        have hne : column other ≠ column item := fun heq ↦ hfresh (heq ▸ List.mem_map_of_mem hother)
        exact ⟨hname', tree', by rw [hlookup, if_neg hne, htree'], hproper'⟩)
      (fun other hother ↦ hchange other (List.mem_cons_of_mem _ hother))
    have hall : (table.edit first).edit (fun other ↦ if other ∈ items.map column then edits other else []) =
        table.edit fun other ↦ if other ∈ (item :: items).map column then edits other else [] := by
      rw [Table.edit_edit]
      · apply Table.edit_congr
        intro entry _
        by_cases hentry : entry.1 = column item
        · rw [hentry, if_neg hfresh]
          simp [first]
        · simp [first, hentry]
      · intro other
        by_cases hother : other = column item
        · right
          rw [if_neg (hother ▸ hfresh)]
        · left
          exact if_neg hother
    rw [Contents.set_set, hall] at hrest
    exact Runs.bind_ok hstep hrest

/-- The rows of a table are written, and then the indexes that change with them. -/
theorem Runs.changeRows {items : List β} {rows : List Row} (hc : contents.Consistent)
    (htable : contents name = some table) (hnodup : (items.map column).Nodup)
    (hitems : ∀ item ∈ items, column item ∈ table.columns)
    (hchange : ∀ item ∈ items, ∀ tree,
      change item tree = (edits (column item)).foldlM Edit.apply tree)
    (hothers : ∀ other ∈ table.columns, other ∉ items.map column → edits other = []) :
    Runs config home contents (do
        Operation.writeTable (({ table with rows } : Table).document name)
        items.forM fun item ↦ Operation.changeIndex name (column item) (change item))
      (.ok ()) (contents.set name (table.change rows edits)) := by
  have hname := hc.named htable
  have hconsistent := hc.tables htable
  have hwrite : Runs config home contents
      (Operation.writeTable (({ table with rows } : Table).document name)) (.ok ())
      (contents.set name { table with rows }) := by
    intro store hstore
    have hrun := (@Carries.writeTable config home contents name { table with rows } hname
      fun column ↦ (Contents.index?_of_some htable column).symm).runs store hstore
    rwa [hstore.reach_table hname htable] at hrun
  have hloop := @Runs.changeIndexes config home (contents.set name { table with rows }) name
    { table with rows } β column change edits items hname (Contents.set_self _ _ _) hnodup
    (fun item hitem ↦ by
      have hcolumn := hitems item hitem
      obtain ⟨tree, htree⟩ := Option.isSome_iff_exists.mp
        (isSome_lookup_iff.mpr (Table.mem_columns.mp hcolumn))
      refine ⟨hconsistent.names _ (hconsistent.mem_names hcolumn), tree, htree, ?_⟩
      exact (hconsistent.indexes _ (mem_of_lookup htree)).proper) hchange
  have hsame : ({ table with rows } : Table).edit
      (fun other ↦ if other ∈ items.map column then edits other else []) = table.change rows edits := by
    have hedit : table.edit (fun other ↦ if other ∈ items.map column then edits other else []) =
        table.edit edits := by
      apply Table.edit_congr
      intro entry hentry
      by_cases hmem : entry.1 ∈ items.map column
      · rw [if_pos hmem]
      · rw [if_neg hmem, hothers _ (Table.mem_columns.mpr (List.mem_map_of_mem hentry)) hmem]
    rw [Table.change, ← hedit]
    rfl
  rw [Contents.set_set, hsame] at hloop
  exact Runs.bind_ok hwrite hloop

end

section

variable {config : Config} {home : Location} {contents : Contents} {name : String} {table : Table}

theorem Answers.keysOf (hc : contents.Consistent) (htable : contents name = some table)
    (row : Row) :
    Answers config home contents (table.columns.mapM (Operation.indexEntry name row))
      (table.keysOf name row) := by
  apply Answers.mapM
  intro column hcolumn
  obtain ⟨tree, htree⟩ := Option.isSome_iff_exists.mp
    (isSome_lookup_iff.mpr (Table.mem_columns.mp hcolumn))
  rw [← Contents.index?_of_some htable] at htree
  have hindex := @Answers.index config home contents name (hc.named htable) column
  rw [Contents.indexOf_of_some (hc.isName_column htree).2 htree] at hindex
  rw [Operation.indexEntry]
  cases hkey : Store.indexKey name column row with
  | error e => exact Runs.bind_error (Answers.ofResult _)
  | ok key => exact Runs.bind_ok (Answers.ofResult _) (Runs.bind_ok hindex (Answers.pure _))

theorem Answers.movesOf (hc : contents.Consistent) (htable : contents name = some table)
    (old new : Row) :
    Answers config home contents (table.columns.mapM (Operation.indexMove name old new))
      (table.movesOf name old new) := by
  apply Answers.mapM
  intro column hcolumn
  obtain ⟨tree, htree⟩ := Option.isSome_iff_exists.mp
    (isSome_lookup_iff.mpr (Table.mem_columns.mp hcolumn))
  rw [← Contents.index?_of_some htable] at htree
  have hindex := @Answers.index config home contents name (hc.named htable) column
  rw [Contents.indexOf_of_some (hc.isName_column htree).2 htree] at hindex
  rw [Operation.indexMove]
  apply Answers.bind_id (Answers.ofResult _)
  intro oldKey _
  apply Answers.bind_id (Answers.ofResult _)
  intro newKey _
  exact Runs.bind_ok hindex (Answers.pure _)

theorem Table.keysOf_eq_ok {row : Row} {keys : List (String × Int64)}
    (h : table.keysOf name row = .ok keys) :
    keys.map Prod.fst = table.columns ∧ ∀ entry ∈ keys, row.key? entry.1 = some entry.2 := by
  apply map_of_mapM_eq_ok h
  intro column entry hentry
  obtain ⟨key, hkey, rfl⟩ := map_eq_ok.mp hentry
  exact ⟨rfl, Row.key?_eq_some.mpr (Contents.indexKey_eq_ok.mp hkey)⟩

theorem Table.movesOf_eq_ok {old new : Row} {moves : List (String × Int64 × Int64)}
    (h : table.movesOf name old new = .ok moves) :
    moves.map Prod.fst = table.columns ∧
      ∀ entry ∈ moves, old.key? entry.1 = some entry.2.1 ∧ new.key? entry.1 = some entry.2.2 := by
  apply map_of_mapM_eq_ok h
  intro column entry hentry
  obtain ⟨oldKey, hold, hentry⟩ := bind_eq_ok.mp hentry
  obtain ⟨newKey, hnew, hentry⟩ := bind_eq_ok.mp hentry
  obtain rfl := Except.ok.inj hentry
  exact ⟨rfl, Row.key?_eq_some.mpr (Contents.indexKey_eq_ok.mp hold),
    Row.key?_eq_some.mpr (Contents.indexKey_eq_ok.mp hnew)⟩

theorem Table.Consistent.key?_project (h : table.Consistent) {row : Row} {record : Record}
    (hrow : table.schema.encodeRow row = .ok record) {column : String}
    (hcolumn : column ∈ table.columns) :
    (row.project table.schema.names).key? column = row.key? column := by
  rw [Row.key?, Row.key?, (Schema.encodeRow_eq_ok.mp hrow).1.get?_project (h.mem_names hcolumn)]

theorem Carries.insert (hc : contents.Consistent) (name : String) (row : Row) :
    Carries config home contents (Operation.insert name row) (contents.insert name row) := by
  rw [Operation.insert, Contents.insert]
  apply Carries.bind (Quiet.ask _) (Answers.ask fun store hstore ↦ hstore.document hc name)
  intro table htable
  have htable' := (Contents.table_eq_ok.mp htable).2
  have hconsistent := hc.tables htable'
  apply Carries.bind_id (Quiet.ofResult _) (Answers.ofResult _)
  intro record hrecord
  have hencode := Contents.encode_eq_ok.mp hrecord
  apply Carries.bind_ok (Quiet.ask _)
    (Answers.ask fun store hstore ↦ hstore.listIndexes hc htable')
  apply Carries.bind_id (Quiet.mapM fun _ ↦ Quiet.indexEntry _ _ _)
    (Answers.keysOf hc htable' row)
  intro keys hkeys
  obtain ⟨hcolumns, hkey⟩ := Table.keysOf_eq_ok hkeys
  have hmem : ∀ entry ∈ keys, entry.1 ∈ table.columns :=
    fun entry hentry ↦ hcolumns ▸ List.mem_map_of_mem hentry
  have hdocument :
      { table.document name with records := (table.document name).records ++ [record] } =
      ({ table with rows := table.rows ++ [row.project table.schema.names] } : Table).document name := by
    simp [Table.document, (Schema.keeps_project hencode).2]
  have hrun := @Runs.changeRows config home contents name table (String × Int64) Prod.fst
    (fun entry tree ↦ tree.insert entry.2) (insertEdits (row.project table.schema.names)) keys
    (table.rows ++ [row.project table.schema.names]) hc htable' (hcolumns ▸ hconsistent.nodup_columns) hmem
    (fun entry hentry tree ↦ by
      rw [insertEdits, hconsistent.key?_project hencode (hmem entry hentry), hkey entry hentry]
      simp [Edit.apply])
    (fun column hcolumn hnot ↦ absurd (hcolumns ▸ hcolumn) hnot)
  rw [← hdocument] at hrun
  exact Carries.of_runs hrun

theorem Carries.delete (hc : contents.Consistent) (name : String) (position : Nat) :
    Carries config home contents (Operation.delete name position) (contents.delete name position) := by
  rw [Operation.delete, Contents.delete]
  apply Carries.bind (Quiet.ask _) (Answers.ask fun store hstore ↦ hstore.document hc name)
  intro table htable
  have htable' := (Contents.table_eq_ok.mp htable).2
  have hconsistent := hc.tables htable'
  simp only [Holds.checkPosition]
  cases hold : table.rowAt name position with
  | error e => exact Carries.bind_error (Quiet.ofResult _) (Answers.ofResult _)
  | ok old =>
    apply Carries.bind_ok (Quiet.ofResult _) (Answers.ofResult _)
    apply Carries.bind_ok (Quiet.ask _)
      (Answers.ask fun store _ ↦ Holds.decodeAt hconsistent store hold)
    apply Carries.bind_ok (Quiet.ask _)
      (Answers.ask fun store hstore ↦ hstore.listIndexes hc htable')
    apply Carries.bind_id (Quiet.mapM fun _ ↦ Quiet.indexEntry _ _ _)
      (Answers.keysOf hc htable' old)
    intro keys hkeys
    obtain ⟨hcolumns, hkey⟩ := Table.keysOf_eq_ok hkeys
    have hrun := @Runs.changeRows config home contents name table (String × Int64) Prod.fst
      (fun entry tree ↦ tree.erase entry.2) (eraseEdits old) keys (table.rows.eraseIdx position) hc htable'
      (hcolumns ▸ hconsistent.nodup_columns)
      (fun entry hentry ↦ hcolumns ▸ List.mem_map_of_mem hentry)
      (fun entry hentry tree ↦ by
        rw [eraseEdits, hkey entry hentry]
        simp [Edit.apply])
      (fun column hcolumn hnot ↦ absurd (hcolumns ▸ hcolumn) hnot)
    exact Carries.of_runs (Runs.ofResult_bind (Holds.removeRecord hold) hrun)

theorem Carries.update (hc : contents.Consistent) (name : String) (position : Nat) (row : Row) :
    Carries config home contents (Operation.update name position row) (contents.update name position row) := by
  rw [Operation.update, Contents.update]
  apply Carries.bind (Quiet.ask _) (Answers.ask fun store hstore ↦ hstore.document hc name)
  intro table htable
  have htable' := (Contents.table_eq_ok.mp htable).2
  have hconsistent := hc.tables htable'
  simp only [Holds.checkPosition]
  cases hold : table.rowAt name position with
  | error e => exact Carries.bind_error (Quiet.ofResult _) (Answers.ofResult _)
  | ok old =>
    apply Carries.bind_ok (Quiet.ofResult _) (Answers.ofResult _)
    apply Carries.bind_id (Quiet.ofResult _) (Answers.ofResult _)
    intro record hrecord
    have hencode := Contents.encode_eq_ok.mp hrecord
    apply Carries.bind_ok (Quiet.ask _)
      (Answers.ask fun store _ ↦ Holds.decodeAt hconsistent store hold)
    apply Carries.bind_ok (Quiet.ask _)
      (Answers.ask fun store hstore ↦ hstore.listIndexes hc htable')
    apply Carries.bind_id (Quiet.mapM fun _ ↦ Quiet.indexMove _ _ _ _)
      (Answers.movesOf hc htable' old row)
    intro moves hmoves
    obtain ⟨hcolumns, hkey⟩ := Table.movesOf_eq_ok hmoves
    have hmem : ∀ entry ∈ moves, entry.1 ∈ table.columns :=
      fun entry hentry ↦ hcolumns ▸ List.mem_map_of_mem hentry
    have hmoveEdits : ∀ entry ∈ moves, moveEdits old (row.project table.schema.names) entry.1 =
        if entry.2.1 = entry.2.2 then [] else [.erase entry.2.1, .insert entry.2.2] := by
      intro entry hentry
      obtain ⟨holdKey, hnewKey⟩ := hkey entry hentry
      have hnewKey' := (hconsistent.key?_project hencode (hmem entry hentry)).trans hnewKey
      simp [moveEdits, eraseEdits, insertEdits, holdKey, hnewKey']
    have hrun := @Runs.changeRows config home contents name table (String × Int64 × Int64) Prod.fst
      (fun entry tree ↦ do (← tree.erase entry.2.1).insert entry.2.2)
      (moveEdits old (row.project table.schema.names)) (moves.filter fun entry ↦ entry.2.1 ≠ entry.2.2)
      (table.rows.set position (row.project table.schema.names)) hc htable'
      ((hcolumns ▸ hconsistent.nodup_columns).sublist (List.filter_sublist.map _))
      (fun entry hentry ↦ hmem entry (List.mem_filter.mp hentry).1)
      (fun entry hentry tree ↦ by
        obtain ⟨hentry, hne⟩ := List.mem_filter.mp hentry
        rw [hmoveEdits entry hentry, if_neg (of_decide_eq_true hne)]
        simp [Edit.apply])
      (fun column hcolumn hnot ↦ by
        rw [← hcolumns] at hcolumn
        obtain ⟨entry, hentry, rfl⟩ := List.mem_map.mp hcolumn
        rw [hmoveEdits entry hentry, if_pos]
        refine Classical.byContradiction fun hne ↦ hnot ?_
        exact List.mem_map_of_mem (List.mem_filter.mpr ⟨hentry, decide_eq_true hne⟩))
    have hreplaced := Holds.replaceRecord hold (Schema.keeps_project hencode).2
    exact Carries.of_runs (Runs.ofResult_bind hreplaced hrun)

end

end TableStore
