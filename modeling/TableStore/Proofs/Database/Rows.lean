import Mathlib.Data.List.Forall2
import TableStore.Database
import TableStore.Proofs.Store.Table

namespace TableStore

namespace Row

variable {entries changes : List (String × Value)} {row : Row}

theorem put_of_mem {name : String} (value : Value) (hnodup : (entries.map Prod.fst).Nodup)
    (h : name ∈ entries.map Prod.fst) : put name value entries =
      entries.map fun entry ↦ (entry.1, if entry.1 = name then value else entry.2) := by
  induction entries with
  | nil => cases h
  | cons entry rest ih =>
    obtain ⟨key, old⟩ := entry
    obtain ⟨hfresh, hnodup⟩ := List.nodup_cons.mp hnodup
    by_cases hkey : key = name
    · subst hkey
      have hrest : ∀ entry ∈ rest, (entry.1, if entry.1 = key then value else entry.2) = entry := by
        intro entry hentry
        rw [if_neg]
        intro heq
        exact hfresh (heq ▸ List.mem_map.mpr ⟨entry, hentry, rfl⟩)
      rw [put, if_pos rfl, List.map_cons, if_pos rfl, List.map_congr_left hrest, List.map_id']
    · rw [put, if_neg hkey, List.map_cons, if_neg hkey, ih hnodup]
      rcases List.mem_cons.mp h with hname | hrest
      · exact absurd hname.symm hkey
      · exact hrest

theorem eq_of_perm {other : Row}
    (hnames : row.entries.map Prod.fst = other.entries.map Prod.fst)
    (hperm : row.entries.Perm other.entries) : row = other := by
  apply Row.ext
  rw [row.entries_eq_map, other.entries_eq_map, hnames]
  refine List.map_congr_left fun name hname ↦ ?_
  obtain ⟨entry, hentry, rfl⟩ := List.mem_map.mp hname
  have hother : other.get? entry.1 = some entry.2 := lookup_of_mem other.nodup hentry
  have hrow : row.get? entry.1 = some entry.2 := lookup_of_mem row.nodup (hperm.mem_iff.mpr hentry)
  rw [hrow, hother]

/-- The row with changes merged into it. The last change of a column counts. -/
def merge (row : Row) (changes : List (String × Value)) : Row where
  entries := row.entries.map fun entry ↦ (entry.1, (changes.reverse.lookup entry.1).getD entry.2)
  nodup := by
    rw [List.map_map]
    exact row.nodup

theorem merge_entries (row : Row) (changes : List (String × Value)) : (row.merge changes).entries =
    row.entries.map fun entry ↦ (entry.1, (changes.reverse.lookup entry.1).getD entry.2) := rfl

theorem names_merge (row : Row) (changes : List (String × Value)) :
    (row.merge changes).entries.map Prod.fst = row.entries.map Prod.fst := by
  rw [merge_entries, List.map_map]
  rfl

end Row

namespace Database

/-- What a literal becomes in a column of a type. An integer becomes a float, a timestamp the text that
spells it, and a text the timestamp that it spells. Every other literal stays as it is. -/
inductive Becomes : DataType → Value → Value → Prop
  | float (n : Int64) : Becomes .float (.int n) (.float (.ofInt n.toInt))
  | text (t : Timestamp) : Becomes .string (.datetime t) (.text t.text)
  | datetime {s : String} {t : Timestamp} (h : Timestamp.ofText? s = some t) :
    Becomes .datetime (.text s) (.datetime t)
  | same {type : DataType} {value : Value}
    (h : (type, value.type?) ∉
      [(.float, some .int), (.string, some .datetime), (.datetime, some .string)]) :
    Becomes type value value

theorem Becomes.unique {type : DataType} {value made made' : Value} (h : Becomes type value made)
    (h' : Becomes type value made') : made = made' := by
  cases h <;> cases h' <;> simp_all [Value.type?]

end Database

namespace Schema

variable {schema : Schema} {given made made' : String × Value}

/-- A value becomes what the column of its name makes of it. -/
def Fits (schema : Schema) (given made : String × Value) : Prop :=
  made.1 = given.1 ∧
    ∃ column ∈ schema.columns, column.name = given.1 ∧ Database.Becomes column.type given.2 made.2

theorem Fits.mem_names (h : schema.Fits given made) : made.1 ∈ schema.names := by
  obtain ⟨hname, column, hcolumn, hgiven, -⟩ := h
  rw [hname, ← hgiven]
  exact List.mem_map_of_mem hcolumn

theorem Fits.unique (h : schema.Fits given made) (h' : schema.Fits given made') : made = made' := by
  obtain ⟨hname, column, hcolumn, hgiven, hmade⟩ := h
  obtain ⟨hname', other, hother, hgiven', hmade'⟩ := h'
  obtain rfl := eq_of_name hcolumn hother (hgiven'.trans hgiven.symm)
  exact Prod.ext (hname.trans hname'.symm) (hmade.unique hmade')

theorem Fits.unique_all {given made made' : List (String × Value)}
    (h : List.Forall₂ schema.Fits given made) (h' : List.Forall₂ schema.Fits given made') :
    made = made' :=
  List.right_unique_forall₂' (fun _ _ _ hmade hmade' ↦ hmade.unique hmade') h h'

theorem names_of_fits {given made : List (String × Value)} (h : List.Forall₂ schema.Fits given made) :
    made.map Prod.fst = given.map Prod.fst := by
  induction h with
  | nil => rfl
  | cons hfits _ ih => rw [List.map_cons, List.map_cons, hfits.1, ih]

end Schema

namespace Database

variable {table : String} {schema : Schema}

/-- One change after the other is the same as all of them merged in. -/
theorem changedRow_eq_merge {changes : List (String × Value)} {row : Row}
    (h : ∀ change ∈ changes, change.1 ∈ row.entries.map Prod.fst) :
    changedRow changes row = row.merge changes := by
  induction changes generalizing row with
  | nil =>
    apply Row.ext
    simp [changedRow, Row.merge]
  | cons change changes ih =>
    have hput := Row.put_of_mem change.2 row.nodup (h change (by simp))
    have hset : (row.set change.1 change.2).entries = row.entries.map fun entry ↦
        (entry.1, if entry.1 = change.1 then change.2 else entry.2) := hput
    have hnames : (row.set change.1 change.2).entries.map Prod.fst = row.entries.map Prod.fst := by
      rw [hset, List.map_map]
      rfl
    have hnext : changedRow changes (row.set change.1 change.2) =
        (row.set change.1 change.2).merge changes := by
      apply ih
      intro other hother
      rw [hnames]
      exact h other (List.mem_cons_of_mem _ hother)
    rw [changedRow, List.foldl_cons]
    apply hnext.trans
    apply Row.ext
    rw [Row.merge_entries, Row.merge_entries, hset, List.map_map]
    apply List.map_congr_left
    intro entry _
    obtain ⟨name, value⟩ := change
    rw [List.reverse_cons, List.lookup_append, lookup_cons_if, Option.getD_or]
    by_cases hname : entry.1 = name
    · rw [if_pos hname, Function.comp_apply, if_pos hname]
      rfl
    · rw [if_neg hname, Function.comp_apply, if_neg hname]
      rfl

theorem checkColumn_eq_ok {name : String} {column : Column} :
    Store.checkColumn table schema name = .ok column ↔
      column ∈ schema.columns ∧ column.name = name := by
  rw [Store.checkColumn, ← Schema.column?_eq_some]
  cases schema.column? name <;> simp

theorem checkColumns_eq_ok {columns : List String} :
    Store.checkColumns table schema columns = .ok () ↔ ∀ column ∈ columns, column ∈ schema.names := by
  have hcheck : ∀ column, (Store.checkColumn table schema column).map (fun _ ↦ ()) = .ok () ↔
      column ∈ schema.names := by
    intro column
    rw [Schema.mem_names_iff, Schema.contains, Store.checkColumn]
    cases schema.column? column <;> simp
  rw [Store.checkColumns, forM_eq_ok]
  simp only [hcheck]

theorem fit_eq_ok {column : Column} {value made : Value} :
    fit column value = .ok made ↔ Becomes column.type value made := by
  unfold fit
  generalize column.type = type
  constructor
  · intro h
    split at h
    · obtain rfl := Except.ok.inj h
      exact .float _
    · obtain rfl := Except.ok.inj h
      exact .text _
    · split at h
      · rename_i ht
        obtain rfl := Except.ok.inj h
        exact .datetime ht
      · cases h
    · obtain rfl := Except.ok.inj h
      refine .same ?_
      cases value <;> simp_all [Value.type?]
  · intro h
    cases h with
    | float n => rfl
    | text t => rfl
    | datetime ht => simp only [ht]
    | same hsame => cases type <;> cases value <;> simp_all [Value.type?]

theorem fittedChange_eq_ok {change fitted : String × Value} :
    fittedChange table schema change = .ok fitted ↔ schema.Fits change fitted := by
  constructor
  · intro h
    obtain ⟨column, hcolumn, h⟩ := bind_eq_ok.mp h
    obtain ⟨value, hvalue, h⟩ := bind_eq_ok.mp h
    obtain rfl := Except.ok.inj h
    obtain ⟨hmem, hname⟩ := checkColumn_eq_ok.mp hcolumn
    exact ⟨rfl, column, hmem, hname, fit_eq_ok.mp hvalue⟩
  · obtain ⟨name, made⟩ := fitted
    rintro ⟨rfl, column, hmem, hname, hvalue⟩
    rw [fittedChange, checkColumn_eq_ok.mpr ⟨hmem, hname⟩, ok_bind, fit_eq_ok.mpr hvalue]
    rfl

theorem mapM_fittedChange_eq_ok {changes fitted : List (String × Value)} :
    changes.mapM (fittedChange table schema) = .ok fitted ↔
      List.Forall₂ schema.Fits changes fitted := by
  have hfits : (fun change fitted ↦ fittedChange table schema change = .ok fitted) = schema.Fits :=
    funext₂ fun _ _ ↦ propext fittedChange_eq_ok
  rw [mapM_eq_ok, ← List.forall₂_eq_eq_eq, List.forall₂_map_left_iff, List.forall₂_map_right_iff,
    hfits]

theorem foldlM_addCell {pairs : List (String × Value)} {start row : Row}
    (h : pairs.foldlM (addCell table schema) start = .ok row) :
    ∃ cells, pairs.mapM (fittedChange table schema) = .ok cells ∧
      row.entries = start.entries ++ cells := by
  induction pairs generalizing start with
  | nil =>
    obtain rfl := Except.ok.inj h
    exact ⟨[], rfl, by simp⟩
  | cons pair pairs ih =>
    rw [List.foldlM_cons] at h
    obtain ⟨next, hnext, h⟩ := bind_eq_ok.mp h
    obtain ⟨cells, hcells, hrow⟩ := ih h
    obtain ⟨column, hcolumn, hnext⟩ := bind_eq_ok.mp hnext
    obtain ⟨⟨⟩, hfresh, hnext⟩ := bind_eq_ok.mp hnext
    obtain ⟨value, hvalue, hnext⟩ := bind_eq_ok.mp hnext
    obtain rfl := Except.ok.inj hnext
    have hfitted : fittedChange table schema pair = .ok (pair.1, value) := by
      rw [fittedChange, hcolumn, ok_bind, hvalue]
      rfl
    have hentries : (start.set pair.1 value).entries = start.entries ++ [(pair.1, value)] := by
      apply Row.put_of_not_mem
      intro hmem
      rw [ensure_eq_ok, Row.contains_of_mem hmem] at hfresh
      cases hfresh
    refine ⟨(pair.1, value) :: cells, ?_, ?_⟩
    · rw [List.mapM_cons, hfitted, ok_bind, hcells]
      rfl
    · rw [hrow, hentries, List.append_assoc, List.singleton_append]

theorem insertedRow_eq_ok {columns : Option (List String)} {values : List Value} {row : Row}
    (h : insertedRow table schema columns values = .ok row) :
    (columns.getD schema.names).length = values.length ∧
      ((columns.getD schema.names).zip values).mapM (fittedChange table schema) =
        .ok row.entries := by
  obtain ⟨⟨⟩, hlength, h⟩ := bind_eq_ok.mp h
  obtain ⟨cells, hcells, hrow⟩ := foldlM_addCell h
  refine ⟨of_decide_eq_true (ensure_eq_ok.mp hlength), ?_⟩
  rw [hrow]
  exact hcells

theorem entries_perm {row : Row} (h : schema.Covers row) :
    (row.project schema.names).entries.Perm row.entries := by
  have hnames : schema.names.Perm (row.entries.map Prod.fst) := by
    apply (List.perm_ext_iff_of_nodup schema.nodup_names row.nodup).mpr
    intro name
    constructor
    · intro hname
      exact isSome_lookup_iff.mp (h.2 name hname)
    · intro hname
      exact h.contains (Row.contains_of_mem hname)
  rw [h.entries_project, row.entries_eq_map]
  exact hnames.map _

end Database

end TableStore
