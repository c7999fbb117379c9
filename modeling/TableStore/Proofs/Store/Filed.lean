import TableStore.Proofs.Store.Holds

namespace TableStore

open FileSystem (reach Rooted Location IsFileName)
open Store (tableFile indexFile isName isName_of_eq_true isFileName_tableFile isFileName_indexFile)

namespace Contents

variable {contents : Contents} {name other column : String} {table : Table}

theorem index?_set : (contents.set name table).index? other column =
    if other = name then table.indexes.lookup column else contents.index? other column := by
  by_cases h : other = name
  · rw [index?, h, set_self, if_pos rfl, Option.bind_some]
  · rw [index?, set_of_ne table h, if_neg h, index?]

theorem index?_erase : (contents.erase name).index? other column =
    if other = name then none else contents.index? other column := by
  by_cases h : other = name
  · simp [index?, erase, h]
  · rw [index?, erase_of_ne contents h, if_neg h, index?]

theorem index?_of_some (h : contents name = some table) (column : String) :
    contents.index? name column = table.indexes.lookup column := by
  rw [index?, h, Option.bind_some]

end Contents

namespace Filed

variable {config : Config} {home : Location} {contents contents' : Contents} {files : FileSystem}
  {name column file : String} {table table' : Table} {tree : BTree}

theorem put (h : Filed config home contents files) (hfile : IsFileName file)
    (hreach : FileSystem.reach config.rootPath file = .ok ()) {text : String}
    (honly : (∃ name, isName name = true ∧ file = tableFile name) ∨
      ∃ name column, isName name = true ∧ isName column = true ∧ file = indexFile name column)
    (htables : ∀ {other}, isName other = true →
      (if tableFile other = file then some (.text text) else files.entryAt? home (tableFile other)) =
        (contents' other).map fun table ↦ .text (table.document other).text)
    (hindexes : ∀ {other column}, isName other = true → isName column = true →
      (if indexFile other column = file then some (.text text)
        else files.entryAt? home (indexFile other column)) =
          (contents'.index? other column).map fun tree ↦ .text tree.text) :
    Filed config home contents' (files.put (home ++ [file]) (.text text)) := by
  have hcases : ∀ {other},
      ((files.put (home ++ [file]) (.text text)).entryAt? home other).isSome = true →
      other = file ∨ (files.entryAt? home other).isSome = true := by
    intro other hother
    rw [FileSystem.entryAt?_put] at hother
    by_cases heq : other = file
    · exact .inl heq
    · rw [if_neg heq] at hother
      exact .inr hother
  refine ⟨h.rooted.put hfile rfl, ?_, ?_, ?_, ?_⟩
  · intro other hother
    rcases hcases hother with rfl | hother
    · exact hreach
    · exact h.reach hother
  · intro other hother
    rcases hcases hother with rfl | hother
    · exact honly
    · exact h.only hother
  · intro other hother
    rw [FileSystem.entryAt?_put, htables hother]
  · intro other column hother hcolumn
    rw [FileSystem.entryAt?_put, hindexes hother hcolumn]

theorem remove (h : Filed config home contents files) (hfile : IsFileName file)
    (htables : ∀ {other}, isName other = true →
      (if tableFile other = file then none else files.entryAt? home (tableFile other)) =
        (contents' other).map fun table ↦ .text (table.document other).text)
    (hindexes : ∀ {other column}, isName other = true → isName column = true →
      (if indexFile other column = file then none else files.entryAt? home (indexFile other column)) =
          (contents'.index? other column).map fun tree ↦ .text tree.text) :
    Filed config home contents' (files.remove (home ++ [file])) := by
  have hcases : ∀ {other}, ((files.remove (home ++ [file])).entryAt? home other).isSome = true →
      (files.entryAt? home other).isSome = true := by
    intro other hother
    rw [FileSystem.entryAt?_remove] at hother
    by_cases heq : other = file
    · simp [heq] at hother
    · rwa [if_neg heq] at hother
  refine ⟨h.rooted.remove hfile, ?_, ?_, ?_, ?_⟩
  · exact fun hother ↦ h.reach (hcases hother)
  · exact fun hother ↦ h.only (hcases hother)
  · intro other hother
    rw [FileSystem.entryAt?_remove, htables hother]
  · intro other column hother hcolumn
    rw [FileSystem.entryAt?_remove, hindexes hother hcolumn]

theorem put_table (h : Filed config home contents files) (hname : isName name = true)
    (hreach : FileSystem.reach config.rootPath (tableFile name) = .ok ())
    (hindexes : ∀ column, table.indexes.lookup column = contents.index? name column) :
    Filed config home (contents.set name table)
      (files.put (home ++ [tableFile name]) (.text (table.document name).text)) := by
  have hfileName := isName_of_eq_true hname
  apply h.put (isFileName_tableFile hfileName) hreach (.inl ⟨name, hname, rfl⟩)
  · intro other hother
    by_cases heq : other = name
    · rw [heq, if_pos rfl, Contents.set_self]
      rfl
    · rw [if_neg fun hfile ↦ heq (Store.tableFile_inj hfile), h.tables hother,
        Contents.set_of_ne table heq]
  · intro other column hother hcolumn
    rw [if_neg (Store.tableFile_ne_indexFile hfileName.noDot).symm, h.indexes hother hcolumn,
      Contents.index?_set]
    by_cases heq : other = name
    · rw [if_pos heq, hindexes column, heq]
    · rw [if_neg heq]

theorem index_file (h : Filed config home contents files) (hname : isName name = true)
    (htable : contents name = some table) (hdocument : table'.document name = table.document name)
    {value : Option BTree} (hindexes : ∀ other, table'.indexes.lookup other =
      if other = column then value else table.indexes.lookup other) :
    (∀ {other}, isName other = true → (if tableFile other = indexFile name column
        then value.map fun tree ↦ .text tree.text else files.entryAt? home (tableFile other)) =
          ((contents.set name table') other).map fun table ↦ .text (table.document other).text) ∧
      ∀ {other column'}, isName other = true → isName column' = true →
        (if indexFile other column' = indexFile name column then value.map fun tree ↦ .text tree.text
          else files.entryAt? home (indexFile other column')) =
            ((contents.set name table').index? other column').map fun tree ↦ .text tree.text := by
  refine ⟨?_, ?_⟩
  · intro other hother
    rw [if_neg (Store.tableFile_ne_indexFile (isName_of_eq_true hother).noDot), h.tables hother]
    by_cases heq : other = name
    · rw [heq, htable, Contents.set_self, Option.map_some, Option.map_some, hdocument]
    · rw [Contents.set_of_ne table' heq]
  · intro other column' hother hcolumn'
    have hnoDot := (isName_of_eq_true hname).noDot
    have hnoDot' := (isName_of_eq_true hother).noDot
    rw [Contents.index?_set]
    by_cases heq : other = name
    · subst heq
      rw [if_pos rfl, hindexes column']
      by_cases hsame : column' = column
      · rw [hsame, if_pos rfl, if_pos rfl]
      · rw [if_neg fun hfile ↦ hsame (Store.indexFile_inj hnoDot hnoDot hfile).2, if_neg hsame,
          h.indexes hother hcolumn', Contents.index?_of_some htable]
    · rw [if_neg heq, if_neg fun hfile ↦ heq (Store.indexFile_inj hnoDot' hnoDot hfile).1,
        h.indexes hother hcolumn']

theorem put_index (h : Filed config home contents files) (hname : isName name = true)
    (hcolumn : isName column = true)
    (hreach : FileSystem.reach config.rootPath (indexFile name column) = .ok ())
    (htable : contents name = some table) (hdocument : table'.document name = table.document name)
    (hindexes : ∀ other, table'.indexes.lookup other =
      if other = column then some tree else table.indexes.lookup other) :
    Filed config home (contents.set name table')
      (files.put (home ++ [indexFile name column]) (.text tree.text)) := by
  obtain ⟨htables, htrees⟩ := h.index_file hname htable hdocument hindexes
  exact h.put (isFileName_indexFile (isName_of_eq_true hname) (isName_of_eq_true hcolumn)) hreach
    (.inr ⟨name, column, hname, hcolumn, rfl⟩) htables htrees

theorem remove_index (h : Filed config home contents files) (hname : isName name = true)
    (hcolumn : isName column = true) (htable : contents name = some table)
    (hdocument : table'.document name = table.document name)
    (hindexes : ∀ other, table'.indexes.lookup other =
      if other = column then none else table.indexes.lookup other) :
    Filed config home (contents.set name table') (files.remove (home ++ [indexFile name column])) := by
  obtain ⟨htables, htrees⟩ := h.index_file hname htable hdocument hindexes
  exact h.remove (isFileName_indexFile (isName_of_eq_true hname) (isName_of_eq_true hcolumn))
    htables htrees

theorem remove_table (h : Filed config home contents files) (hname : isName name = true)
    (hindexes : ∀ column, contents.index? name column = none) :
    Filed config home (contents.erase name) (files.remove (home ++ [tableFile name])) := by
  have hfileName := isName_of_eq_true hname
  apply h.remove (isFileName_tableFile hfileName)
  · intro other hother
    by_cases heq : other = name
    · rw [heq, if_pos rfl, Contents.erase, if_pos rfl]
      rfl
    · rw [if_neg fun hfile ↦ heq (Store.tableFile_inj hfile), h.tables hother,
        Contents.erase_of_ne contents heq]
  · intro other column hother hcolumn
    rw [if_neg (Store.tableFile_ne_indexFile hfileName.noDot).symm, h.indexes hother hcolumn,
      Contents.index?_erase]
    by_cases heq : other = name
    · rw [if_pos heq, heq, hindexes column]
    · rw [if_neg heq]

end Filed

end TableStore
