import TableStore.Proofs.FileSystem
import TableStore.Store.Basic

namespace TableStore.Store

open FileSystem (IsFileName)

def tableFile (table : String) : String := table ++ ".json"

def indexFile (table column : String) : String := table ++ "." ++ column ++ indexEnding

variable {table table' column column' : String}

structure IsName (name : String) : Prop where
  ne_empty : name ≠ ""
  noDot : '.' ∉ name.toList
  noSlash : '/' ∉ name.toList
  noNul : '\x00' ∉ name.toList

theorem isName_of_eq_true {name : String} (h : isName name = true) : IsName name := by
  simp only [isName, Bool.and_eq_true, decide_eq_true_eq, List.all_eq_true] at h
  refine ⟨h.1, fun hmem ↦ ?_, fun hmem ↦ ?_, fun hmem ↦ ?_⟩
  · exact (h.2 _ hmem).1.1.1 rfl
  · exact (h.2 _ hmem).1.1.2 rfl
  · exact (h.2 _ hmem).2 rfl

theorem toList_tableFile (table : String) :
    (tableFile table).toList = table.toList ++ ".json".toList := by
  rw [tableFile, String.toList_append]

theorem toList_indexFile (table column : String) :
    (indexFile table column).toList =
      table.toList ++ '.' :: (column.toList ++ indexEnding.toList) := by
  simp [indexFile, String.toList_append]

theorem isPlace_eq_false {name : String} (h : 3 ≤ name.toList.length) :
    FileSystem.isPlace name = false := by
  have hne : ∀ other : String, other.toList.length < 3 → name ≠ other := by
    rintro other hother rfl
    omega
  simp [FileSystem.isPlace, hne "." (by decide), hne ".." (by decide), hne "/" (by decide)]

theorem isFileName_of_suffix {name : String} {front back : List Char}
    (h : name.toList = front ++ back)
    (hfront : '/' ∉ front) (hback : '/' ∉ back) (hlong : 3 ≤ back.length) : IsFileName name := by
  have hlength : 3 ≤ name.toList.length := by
    rw [h, List.length_append]
    omega
  refine ⟨?_, ?_, isPlace_eq_false hlength⟩
  · rintro rfl
    simp at hlength
  · rw [h, List.mem_append]
    exact fun hmem ↦ hmem.elim hfront hback

theorem isFileName_tableFile (h : IsName table) : IsFileName (tableFile table) :=
  isFileName_of_suffix (toList_tableFile table) h.noSlash (by decide) (by decide)

theorem isFileName_indexFile_of_noSlash (h : '/' ∉ table.toList) (hcolumn : IsName column) :
    IsFileName (indexFile table column) := by
  refine isFileName_of_suffix (toList_indexFile table column) h ?_ ?_
  · simp only [List.mem_cons, List.mem_append, not_or]
    exact ⟨by decide, hcolumn.noSlash, by decide⟩
  · simp [indexEnding]

theorem isPlace_indexFile (table column : String) :
    FileSystem.isPlace (indexFile table column) = false := by
  have hlength : indexEnding.toList.length = 9 := rfl
  refine isPlace_eq_false ?_
  rw [toList_indexFile, List.length_append, List.length_cons, List.length_append, hlength]
  omega

theorem isFileName_indexFile (h : IsName table) (hcolumn : IsName column) :
    IsFileName (indexFile table column) :=
  isFileName_indexFile_of_noSlash h.noSlash hcolumn

theorem noNul_tableFile (h : IsName table) : '\x00' ∉ (tableFile table).toList := by
  rw [toList_tableFile, List.mem_append, not_or]
  exact ⟨h.noNul, by decide⟩

theorem noNul_indexFile (h : IsName table) (hcolumn : IsName column) :
    '\x00' ∉ (indexFile table column).toList := by
  rw [toList_indexFile]
  simp only [List.mem_append, List.mem_cons, not_or]
  exact ⟨h.noNul, by decide, hcolumn.noNul, by decide⟩

theorem append_cons_inj {c : Char} {front front' back back' : List Char} (h : c ∉ front)
    (h' : c ∉ front')
    (heq : front ++ c :: back = front' ++ c :: back') : front = front' ∧ back = back' := by
  induction front generalizing front' with
  | nil =>
    cases front' with
    | nil => simpa using heq
    | cons d front' =>
      rw [(List.cons.inj heq).1] at h'
      exact absurd List.mem_cons_self h'
  | cons d front ih =>
    cases front' with
    | nil =>
      rw [← (List.cons.inj heq).1] at h
      exact absurd List.mem_cons_self h
    | cons d' front' =>
      obtain ⟨rfl, hrest⟩ := List.cons.inj heq
      obtain ⟨rfl, rfl⟩ := ih (fun hmem ↦ h (List.mem_cons_of_mem _ hmem))
        (fun hmem ↦ h' (List.mem_cons_of_mem _ hmem)) hrest
      exact ⟨rfl, rfl⟩

theorem tableFile_inj (h : tableFile table = tableFile table') : table = table' := by
  have hlist := congrArg String.toList h
  rw [toList_tableFile, toList_tableFile] at hlist
  exact String.toList_inj.mp (List.append_cancel_right hlist)

theorem indexFile_inj (ht : '.' ∉ table.toList) (ht' : '.' ∉ table'.toList)
    (h : indexFile table column = indexFile table' column') : table = table' ∧ column = column' := by
  have hlist := congrArg String.toList h
  rw [toList_indexFile, toList_indexFile] at hlist
  obtain ⟨htable, hrest⟩ := append_cons_inj ht ht' hlist
  exact ⟨String.toList_inj.mp htable, String.toList_inj.mp (List.append_cancel_right hrest)⟩

/-- A table with a dot in its name has no index file that is also one of a table without. -/
theorem indexFile_inj_of_names (ht' : '.' ∉ table'.toList) (hc' : '.' ∉ column'.toList)
    (h : indexFile table column = indexFile table' column') : table = table' ∧ column = column' := by
  refine indexFile_inj ?_ ht' h
  have hcount := congrArg (List.count '.') (congrArg String.toList h)
  rw [toList_indexFile, toList_indexFile] at hcount
  simp only [List.count_append, List.count_cons_self, List.count_eq_zero.mpr ht',
    List.count_eq_zero.mpr hc'] at hcount
  exact List.count_eq_zero.mp (by omega)

theorem tableFile_ne_indexFile (ht : '.' ∉ table.toList) :
    tableFile table ≠ indexFile table' column := by
  intro h
  have hcount := congrArg (List.count '.') (congrArg String.toList h)
  rw [toList_tableFile, toList_indexFile, List.count_append, List.count_append, List.count_cons,
    List.count_append, List.count_eq_zero.mpr ht] at hcount
  have hjson : List.count '.' ".json".toList = 1 := by decide
  have hending : List.count '.' indexEnding.toList = 2 := by decide
  rw [hjson, hending] at hcount
  simp at hcount
  omega

theorem isPrefixOf?_eq_some {cs ds rest : List Char} :
    cs.isPrefixOf? ds = some rest ↔ ds = cs ++ rest := by
  induction cs generalizing ds with
  | nil =>
    have hnil : ([] : List Char).isPrefixOf? ds = some ds := rfl
    simp [hnil]
  | cons c cs ih =>
    cases ds with
    | nil =>
      have hnil : (c :: cs).isPrefixOf? [] = none := rfl
      simp [hnil]
    | cons d ds =>
      have hcons : (c :: cs).isPrefixOf? (d :: ds) = if c == d then cs.isPrefixOf? ds else none :=
        rfl
      by_cases h : c = d
      · subst h
        simp [hcons, ih]
      · simp [hcons, h, Ne.symm h]

theorem isSuffixOf?_eq_some {cs ds rest : List Char} :
    cs.isSuffixOf? ds = some rest ↔ ds = rest ++ cs := by
  have hsuffix : cs.isSuffixOf? ds = (cs.reverse.isPrefixOf? ds.reverse).map List.reverse := rfl
  rw [hsuffix, Option.map_eq_some_iff]
  constructor
  · rintro ⟨other, hother, rfl⟩
    have := congrArg List.reverse (isPrefixOf?_eq_some.mp hother)
    simpa using this
  · rintro rfl
    exact ⟨rest.reverse, isPrefixOf?_eq_some.mpr (by simp), by simp⟩

theorem indexColumn?_eq_some {name : String} : indexColumn? table name = some column ↔
    name = indexFile table column ∧ column ≠ "" ∧ '.' ∉ column.toList := by
  rw [indexColumn?]
  simp only [Option.bind_eq_bind, Option.bind_eq_some_iff, isPrefixOf?_eq_some, isSuffixOf?_eq_some,
    Option.ite_none_right_eq_some, Option.some.injEq]
  constructor
  · rintro ⟨rest, hname, front, rfl, ⟨hne, hdot⟩, rfl⟩
    rw [String.toList_ofList]
    refine ⟨String.toList_inj.mp ?_, ?_, hdot⟩
    · rw [hname, toList_indexFile, String.toList_ofList]
      simp
    · exact fun h ↦ hne (by simpa using congrArg String.toList h)
  · rintro ⟨rfl, hne, hdot⟩
    refine ⟨column.toList ++ indexEnding.toList, ?_, column.toList, rfl, ⟨?_, hdot⟩,
      String.ofList_toList⟩
    · rw [toList_indexFile]
      simp
    · exact fun h ↦ hne (String.toList_inj.mp h)

theorem mem_filterMap_indexColumn? {files : FileSystem} {home : FileSystem.Location} :
    column ∈ (files.entries.filterMap fun other ↦ FileSystem.nameIn? home other.1).filterMap
      (indexColumn? table) ↔
        (files.entryAt? home (indexFile table column)).isSome = true ∧ column ≠ "" ∧
          '.' ∉ column.toList := by
  rw [List.mem_filterMap]
  constructor
  · rintro ⟨file, hfile, hcolumn⟩
    obtain ⟨rfl, hvalid⟩ := indexColumn?_eq_some.mp hcolumn
    exact ⟨FileSystem.mem_names_iff.mp hfile, hvalid⟩
  · rintro ⟨hfile, hvalid⟩
    exact ⟨_, FileSystem.mem_names_iff.mpr hfile, indexColumn?_eq_some.mpr ⟨rfl, hvalid⟩⟩

theorem nodup_filterMap_indexColumn? {names : List String} (h : names.Nodup) :
    (names.filterMap (indexColumn? table)).Nodup := by
  apply List.pairwise_filterMap.mpr
  apply h.imp
  intro file file' hne column hcolumn column' hcolumn'
  rintro rfl
  obtain ⟨rfl, -, -⟩ := indexColumn?_eq_some.mp hcolumn
  obtain ⟨rfl, -, -⟩ := indexColumn?_eq_some.mp hcolumn'
  exact hne rfl

end TableStore.Store
