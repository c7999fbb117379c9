import TableStore.Proofs.Lookup
import TableStore.Row

namespace TableStore

namespace Row

theorem ext {row row' : Row} (h : row.entries = row'.entries) : row = row' := by
  cases row
  cases row'
  simpa using h

theorem contains_iff {row : Row} {name : String} :
    row.contains name = true ↔ name ∈ row.entries.map Prod.fst :=
  isSome_lookup_iff

theorem contains_of_mem {row : Row} {name : String} (h : name ∈ row.entries.map Prod.fst) :
    row.contains name = true :=
  contains_iff.mpr h

theorem put_of_not_mem {name : String} {value : Value} {entries : List (String × Value)}
    (h : name ∉ entries.map Prod.fst) : put name value entries = entries ++ [(name, value)] := by
  induction entries with
  | nil => rfl
  | cons entry rest ih =>
    obtain ⟨key, old⟩ := entry
    simp only [List.map_cons, List.mem_cons, not_or] at h
    rw [put, if_neg (Ne.symm h.1), ih h.2, List.cons_append]

theorem ofList_entries {entries : List (String × Value)} (h : (entries.map Prod.fst).Nodup) :
    (ofList entries).entries = entries := by
  have hfold : ∀ (entries : List (String × Value)) (row : Row),
      ((row.entries ++ entries).map Prod.fst).Nodup →
        (entries.foldl (fun row entry ↦ row.set entry.1 entry.2) row).entries = row.entries ++ entries := by
    intro entries
    induction entries with
    | nil => simp
    | cons entry rest ih =>
      intro row hnodup
      have hfresh : entry.1 ∉ row.entries.map Prod.fst := by
        rw [List.map_append, List.nodup_append] at hnodup
        exact fun hmem ↦ hnodup.2.2 _ hmem entry.1 (by simp) rfl
      have hset : (row.set entry.1 entry.2).entries = row.entries ++ [entry] :=
        put_of_not_mem hfresh
      rw [List.foldl_cons, ih _ (by rw [hset]; simpa using hnodup), hset]
      simp
  exact hfold entries empty h

theorem entries_project {row : Row} {names : List String} (hnodup : names.Nodup)
    (hall : ∀ name ∈ names, row.contains name = true) :
    (row.project names).entries = names.map fun name ↦ (name, (row.get? name).getD .null) := by
  have hentries : (names.filterMap fun name ↦ (row.get? name).map fun value ↦ (name, value)) =
      names.map fun name ↦ (name, (row.get? name).getD .null) := by
    induction names with
    | nil => rfl
    | cons name names ih =>
      obtain ⟨value, hvalue⟩ := Option.isSome_iff_exists.mp (hall name (by simp))
      have hrest :=
        ih (List.nodup_cons.mp hnodup).2 fun other hother ↦ hall other (by simp [hother])
      simp [hvalue, hrest]
  rw [project, hentries, ofList_entries (by simpa [Function.comp_def] using hnodup)]

theorem get?_project {row : Row} {names : List String} (hnodup : names.Nodup)
    (hall : ∀ name ∈ names, row.contains name = true) {name : String} (hname : name ∈ names) :
    (row.project names).get? name = row.get? name := by
  have hlookup := @lookup_map_of_mem String Value String _ _ _ id
    (fun name ↦ (row.get? name).getD .null) names (by simpa using hnodup) name hname
  obtain ⟨value, hvalue⟩ := Option.isSome_iff_exists.mp (hall name hname)
  rw [get?, entries_project hnodup hall]
  simpa [hvalue] using hlookup

end Row

end TableStore
