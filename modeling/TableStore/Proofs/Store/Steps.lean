import TableStore.Proofs.Store.Filed
import TableStore.Proofs.Store.Runs

namespace TableStore

open FileSystem (reach Location)
open Store (tableFile indexFile isName isName_of_eq_true isFileName_tableFile isFileName_indexFile)

def Store.remembering (store : Store) (name column : String) (tree : BTree) : Store :=
  { store with
    cache := ((name, column), tree) :: store.cache.filter fun entry ↦ entry.1 ≠ (name, column) }

theorem Store.lookup_remembering (store : Store) (name column : String) (tree : BTree)
    (key : String × String) : (store.remembering name column tree).cache.lookup key =
      if key = (name, column) then some tree else store.cache.lookup key := by
  rw [Store.remembering, lookup_cons_if]
  by_cases h : key = (name, column)
  · rw [if_pos h, if_pos h]
  · rw [if_neg h, if_neg h, lookup_filter (fun key ↦ decide (key ≠ (name, column))),
      if_pos (decide_eq_true h)]

theorem Store.lookup_forget (store : Store) (dropped : String × String → Bool)
    (key : String × String) : (store.cache.filter fun entry ↦ !dropped entry.1).lookup key =
      if dropped key then none else store.cache.lookup key := by
  rw [lookup_filter (fun key ↦ !dropped key)]
  cases dropped key <;> rfl

namespace Operation

theorem run_remember (name column : String) (tree : BTree) (store : Store) :
    (remember name column tree).run store = (.ok (), store.remembering name column tree) := rfl

theorem run_index (name column : String) (store : Store) :
    (index name column).run store = match Store.checkName column with
      | .error e => (.error e, store)
      | .ok () => match store.cache.lookup (name, column) with
        | some tree => (.ok tree, store)
        | none => match store.readIndex name column with
          | .error e => (.error e, store)
          | .ok tree => (.ok tree, store.remembering name column tree) := by
  rw [index, run_bind, ofResult, run_ask]
  cases Store.checkName column with
  | error e => rfl
  | ok _ =>
    simp only [run_bind, run_get]
    cases store.cache.lookup (name, column) with
    | some tree => rfl
    | none =>
      simp only [run_bind, run_ask]
      cases store.readIndex name column <;> rfl

theorem index_eq_ok {name column : String} {before after : Store} {tree : BTree}
    (h : (index name column).run before = (.ok tree, after)) :
    isName column = true ∧ after.cache.lookup (name, column) = some tree := by
  rw [run_index] at h
  cases hname : Store.checkName column with
  | error e =>
    rw [hname] at h
    cases (Prod.mk.inj h).1
  | ok _ =>
    refine ⟨Contents.checkName_eq_ok.mp hname, ?_⟩
    rw [hname] at h
    cases hcached : before.cache.lookup (name, column) with
    | some found =>
      rw [hcached] at h
      obtain ⟨hfound, rfl⟩ := Prod.mk.inj h
      rw [hcached, Except.ok.inj hfound]
    | none =>
      rw [hcached] at h
      cases hread : before.readIndex name column with
      | error e =>
        rw [hread] at h
        cases (Prod.mk.inj h).1
      | ok found =>
        rw [hread] at h
        obtain ⟨hfound, rfl⟩ := Prod.mk.inj h
        rw [Store.lookup_remembering, if_pos rfl, Except.ok.inj hfound]

theorem run_changeFiles (path : Path) (change : FileSystem → Except FileSystem.Fault FileSystem)
    (store : Store) : (changeFiles path change).run store = match change store.files with
      | .ok files => (.ok (), { store with files })
      | .error fault => (.error (.io path fault), store) := rfl

theorem run_write {root : Path} {home : Location} {store : Store}
    (h : FileSystem.Rooted store.files root home) {file : String}
    (hfile : FileSystem.IsFileName file)
    (text : String) : (write (root.join file) text).run store = match reach root file with
      | .ok () => (.ok (), { store with files := store.files.put (home ++ [file]) (.text text) })
      | .error fault => (.error (.io (root.join file) fault), store) := by
  rw [write, run_changeFiles, h.write_join hfile]
  cases reach root file <;> rfl

theorem run_writeTable (document : TableDocument) (store : Store) :
    (writeTable document).run store =
      (write (store.tablePath document.name) document.text).run store := by
  rw [writeTable, run_bind, run_get]

theorem run_writeIndex (name column : String) (tree : BTree) (store : Store) :
    (writeIndex name column tree).run store =
      (write (store.indexPath name column) tree.text).run store := by
  rw [writeIndex, run_bind, run_get]

theorem run_removeIndexFile (name column : String) (store : Store) :
    (removeIndexFile name column).run store =
      (removeFile (store.indexPath name column)).run store := by
  rw [removeIndexFile, run_bind, run_get]

end Operation

variable {config : Config} {home : Location} {contents contents' : Contents} {store : Store}
  {name column : String} {table table' : Table} {tree : BTree}

/-- A cached index does not show where it is the one in its file. -/
theorem Holds.remember (h : Holds config home contents store)
    (htree : isName name = true → isName column = true → contents.index? name column = some tree) :
    Holds config home contents (store.remembering name column tree) := by
  refine ⟨h.toFiled, h.settings, ?_, ?_⟩
  · intro other column' tree' hother hcolumn' hcached
    rw [Store.lookup_remembering] at hcached
    by_cases hkey : (other, column') = (name, column)
    · obtain ⟨rfl, rfl⟩ := Prod.mk.inj hkey
      rw [if_pos rfl] at hcached
      rw [htree hother hcolumn', hcached]
    · rw [if_neg hkey] at hcached
      exact h.cache hother hcolumn' hcached
  · intro other column' tree' hother hcolumn' htree'
    rw [Store.lookup_remembering]
    by_cases hkey : (other, column') = (name, column)
    · obtain ⟨rfl, rfl⟩ := Prod.mk.inj hkey
      rw [if_pos rfl, ← htree hother hcolumn', htree']
      exact .inl rfl
    · rw [if_neg hkey]
      exact h.loaded hother hcolumn' htree'

namespace Contents

def indexOf (contents : Contents) (name column : String) : Except Error BTree := do
  Store.checkName column
  match contents.index? name column with
  | some tree => .ok tree
  | none => .error (.indexNotFound name column)

theorem indexOf_of_some (hcolumn : isName column = true)
    (htree : contents.index? name column = some tree) :
    contents.indexOf name column = .ok tree := by
  rw [indexOf, checkName_eq_ok.mpr hcolumn, ok_bind, htree]

end Contents

theorem Answers.index (hname : isName name = true) (column : String) :
    Answers config home contents (Operation.index name column) (contents.indexOf name column) := by
  intro store h
  rw [Operation.run_index, Contents.indexOf]
  cases hcolumn : isName column with
  | false =>
    have hcheck : Store.checkName column = .error (.invalidName column) :=
      if_neg (by simp [hcolumn])
    rw [hcheck]
    exact ⟨rfl, h⟩
  | true =>
    rw [Contents.checkName_eq_ok.mpr hcolumn, ok_bind]
    cases hcached : store.cache.lookup (name, column) with
    | some tree =>
      rw [h.cache hname hcolumn hcached]
      exact ⟨rfl, h⟩
    | none =>
      have hloaded : ∀ tree, contents.index? name column = some tree → tree.Loadable := by
        intro tree htree
        rcases h.loaded hname hcolumn htree with hlookup | hloaded
        · rw [hcached] at hlookup
          cases hlookup
        · exact hloaded
      simp only [h.readIndex hname hcolumn hloaded]
      cases htree : contents.index? name column with
      | none => exact ⟨rfl, h⟩
      | some tree => exact ⟨rfl, h.remember fun _ _ ↦ htree⟩

/-- Asking for an index changes no table, whatever the names. -/
theorem Holds.index (h : Holds config home contents store) (name column : String) :
    Holds config home contents ((Operation.index name column).run store).2 := by
  cases hname : isName name with
  | true => exact (Answers.index hname column store h).2
  | false =>
    rw [Operation.run_index]
    split
    · exact h
    split
    · exact h
    split
    · exact h
    · exact h.remember fun hname' ↦ by simp [hname] at hname'

theorem Carries.writeTable (hname : isName name = true)
    (hindexes : ∀ column, table.indexes.lookup column = contents.index? name column) :
    Carries config home contents (Operation.writeTable (table.document name)) (do
      (reach config.rootPath (tableFile name)).mapError
        (.io (config.rootPath.join (tableFile name)))
      return contents.set name table) := by
  have hwrite : ∀ store, Holds config home contents store →
      (Operation.writeTable (table.document name)).run store =
        match reach config.rootPath (tableFile name) with
        | .ok () =>
          (.ok (), { store with
            files := store.files.put (home ++ [tableFile name]) (.text (table.document name).text) })
        | .error fault => (.error (.io (config.rootPath.join (tableFile name)) fault), store) := by
    intro store h
    have hrun := Operation.run_write h.rooted (isFileName_tableFile (isName_of_eq_true hname))
      (table.document name).text
    have htable : store.tablePath (table.document name).name =
        config.rootPath.join (tableFile name) := h.tablePath name
    rw [Operation.run_writeTable, htable, hrun]
  cases hreach : reach config.rootPath (tableFile name) with
  | error fault =>
    rw [hreach] at hwrite
    exact ⟨fun store h ↦ by rw [hwrite store h]; exact ⟨rfl, h⟩,
      fun _ _ store h ↦ by rw [hwrite store h]⟩
  | ok _ =>
    rw [hreach] at hwrite
    apply Carries.of_runs
    intro store h
    rw [hwrite store h]
    have hindex : ∀ other column,
        (contents.set name table).index? other column = contents.index? other column := by
      intro other column
      rw [Contents.index?_set]
      by_cases heq : other = name
      · rw [if_pos heq, hindexes column, heq]
      · rw [if_neg heq]
    refine ⟨rfl, h.toFiled.put_table hname hreach hindexes, h.settings, ?_, ?_⟩
    · intro other column tree hother hcolumn hcached
      exact (hindex other column).trans (h.cache hother hcolumn hcached)
    · intro other column tree hother hcolumn htree
      exact h.loaded hother hcolumn ((hindex other column).symm.trans htree)

theorem Holds.put_index (h : Holds config home contents store) (hname : isName name = true)
    (hcolumn : isName column = true)
    (hreach : reach config.rootPath (indexFile name column) = .ok ())
    (htable : contents name = some table) (hdocument : table'.document name = table.document name)
    (hindexes : ∀ other, table'.indexes.lookup other =
      if other = column then some tree else table.indexes.lookup other) :
    Holds config home (contents.set name table') ({ store.remembering name column tree with
      files := store.files.put (home ++ [indexFile name column]) (.text tree.text) } : Store) := by
  have hindex : ∀ other column', (contents.set name table').index? other column' =
      if (other, column') = (name, column) then some tree else contents.index? other column' := by
    intro other column'
    rw [Contents.index?_set]
    by_cases heq : other = name
    · rw [if_pos heq, hindexes, heq, Contents.index?_of_some htable]
      simp
    · rw [if_neg heq, if_neg fun hkey ↦ heq (Prod.mk.inj hkey).1]
  refine ⟨h.toFiled.put_index hname hcolumn hreach htable hdocument hindexes, h.settings, ?_, ?_⟩
  · intro other column' tree' hother hcolumn' hcached
    rw [hindex]
    rw [Store.lookup_remembering] at hcached
    by_cases hkey : (other, column') = (name, column)
    · rwa [if_pos hkey] at hcached ⊢
    · rw [if_neg hkey] at hcached ⊢
      exact h.cache hother hcolumn' hcached
  · intro other column' tree' hother hcolumn' htree
    rw [hindex] at htree
    rw [Store.lookup_remembering]
    by_cases hkey : (other, column') = (name, column)
    · rw [if_pos hkey] at htree ⊢
      exact .inl htree
    · rw [if_neg hkey] at htree ⊢
      exact h.loaded hother hcolumn' htree

theorem Runs.changeIndex {change : BTree → Except BTree.Fault BTree} {tree' : BTree}
    (hname : isName name = true) (hcolumn : isName column = true)
    (htable : contents name = some table)
    (htree : table.indexes.lookup column = some tree) (hchange : change tree = .ok tree')
    (hdocument : table'.document name = table.document name)
    (hindexes : ∀ other, table'.indexes.lookup other =
      if other = column then some tree' else table.indexes.lookup other) :
    Runs config home contents (Operation.changeIndex name column change) (.ok ())
      (contents.set name table') := by
  rw [← Contents.index?_of_some htable] at htree
  have hindex := @Answers.index config home contents name hname column
  rw [Contents.indexOf_of_some hcolumn htree] at hindex
  rw [Operation.changeIndex]
  apply Runs.bind_ok hindex
  rw [hchange]
  apply Runs.bind_ok (Answers.ofResult (.ok tree'))
  intro store h
  have hreach := h.reach_index hname hcolumn htree
  have hrun := @Operation.run_write _ _ (store.remembering name column tree') h.rooted _
    (isFileName_indexFile (isName_of_eq_true hname) (isName_of_eq_true hcolumn)) tree'.text
  rw [hreach, ← h.indexPath] at hrun
  rw [Operation.run_bind, Operation.run_remember]
  replace hrun :=
    (Operation.run_writeIndex name column tree' (store.remembering name column tree')).trans hrun
  simp only [hrun]
  exact ⟨trivial, h.put_index hname hcolumn hreach htable hdocument hindexes⟩

theorem Carries.putIndex (hname : isName name = true) (hcolumn : isName column = true)
    (htable : contents name = some table) (hdocument : table'.document name = table.document name)
    (hindexes : ∀ other, table'.indexes.lookup other =
      if other = column then some tree else table.indexes.lookup other) :
    Carries config home contents
      (Operation.writeIndex name column tree >>= fun _ ↦ Operation.remember name column tree) (do
        (reach config.rootPath (indexFile name column)).mapError
          (.io (config.rootPath.join (indexFile name column)))
        return contents.set name table') := by
  have hwrite : ∀ store, Holds config home contents store →
      (Operation.writeIndex name column tree >>= fun _ ↦ Operation.remember name column tree).run
          store = match reach config.rootPath (indexFile name column) with
        | .ok () =>
          (.ok (), { store.remembering name column tree with
            files := store.files.put (home ++ [indexFile name column]) (.text tree.text) })
        | .error fault =>
          (.error (.io (config.rootPath.join (indexFile name column)) fault), store) := by
    intro store h
    have hrun := Operation.run_write h.rooted
      (isFileName_indexFile (isName_of_eq_true hname) (isName_of_eq_true hcolumn)) tree.text
    rw [Operation.run_bind, Operation.run_writeIndex, h.indexPath, hrun]
    cases reach config.rootPath (indexFile name column) <;> rfl
  cases hreach : reach config.rootPath (indexFile name column) with
  | error fault =>
    rw [hreach] at hwrite
    exact ⟨fun store h ↦ by rw [hwrite store h]; exact ⟨rfl, h⟩,
      fun _ _ store h ↦ by rw [hwrite store h]⟩
  | ok _ =>
    rw [hreach] at hwrite
    apply Carries.of_runs
    intro store h
    rw [hwrite store h]
    exact ⟨rfl, h.put_index hname hcolumn hreach htable hdocument hindexes⟩

end TableStore
