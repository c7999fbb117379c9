import TableStore.Proofs.Json.Text
import TableStore.Proofs.Result
import TableStore.Proofs.Row
import TableStore.Proofs.Timestamp
import TableStore.Record

namespace TableStore

open Json (Scalar)

theorem Value.decode?_encode {value : Value} {s : Scalar} {type : DataType}
    (h : value.encode = .ok s)
    (htype : ∀ own ∈ value.type?, own = type) : Value.decode? (.scalar s) type = some value := by
  cases value with
  | null =>
    obtain rfl := Except.ok.inj h
    rfl
  | int n =>
    obtain rfl := Except.ok.inj h
    obtain rfl := htype _ rfl
    simp [Value.decode?, Json.Number.toInt64?, Numeral.int64?_toInt]
  | float x =>
    obtain rfl := htype _ rfl
    cases x with
    | finite x =>
      obtain rfl := Except.ok.inj h
      rfl
    | nan => cases h
    | infinite negative => cases h
  | text s =>
    obtain rfl := Except.ok.inj h
    obtain rfl := htype _ rfl
    rfl
  | bool b =>
    obtain rfl := Except.ok.inj h
    obtain rfl := htype _ rfl
    rfl
  | datetime t =>
    obtain rfl := Except.ok.inj h
    obtain rfl := htype _ rfl
    simp [Value.decode?, Timestamp.ofText?_text]

theorem Value.readable_encode {value : Value} {s : Scalar} (h : value.encode = .ok s) :
    s.Readable := by
  cases value with
  | int n =>
    obtain rfl := Except.ok.inj h
    have hmin := Int64.minValue_le_toInt n
    have hmax := Int64.toInt_lt n
    have hlow : Int64.minValue.toInt = -9223372036854775808 := rfl
    exact ⟨by omega, by simp only [Numeral.wordLimit]; omega⟩
  | float x =>
    cases x with
    | finite x =>
      obtain rfl := Except.ok.inj h
      trivial
    | nan => cases h
    | infinite negative => cases h
  | _ =>
    obtain rfl := Except.ok.inj h
    trivial

theorem Value.exists_encode_iff {value : Value} :
    (∃ s, value.encode = .ok s) ↔ ∀ x, value = .float x → ∃ y, x = .finite y := by
  cases value with
  | float x => cases x <;> simp [Value.encode]
  | _ => simp [Value.encode]

namespace Column

theorem encode_eq_ok {column : Column} {value : Value} {s : Scalar} :
    column.encode value = .ok s ↔ column.accepts value = true ∧ value.encode = .ok s := by
  rw [Column.encode]
  split
  · simp [*]
  · split <;> simp_all

theorem accepts_iff {column : Column} {value : Value} : column.accepts value = true ↔
    if value = .null then column.allowNull = true else value.type? = some column.type := by
  cases value <;> simp [accepts, Value.type?]

theorem type_of_accepts {column : Column} {value : Value} (h : column.accepts value = true) :
    ∀ own ∈ value.type?, own = column.type := by
  intro own hown
  rw [Option.mem_def] at hown
  simpa [Column.accepts, hown] using h

theorem exists_encode_iff {column : Column} {value : Value} :
    (∃ s, column.encode value = .ok s) ↔
      (if value = .null then column.allowNull = true else value.type? = some column.type) ∧
        ∀ x, value = .float x → ∃ y, x = .finite y := by
  simp only [encode_eq_ok, exists_and_left, accepts_iff, Value.exists_encode_iff]

theorem decode?_encode {column : Column} {value : Value} {s : Scalar}
    (h : column.encode value = .ok s) :
    Value.decode? (.scalar s) column.type = some value := by
  obtain ⟨haccepts, hencode⟩ := encode_eq_ok.mp h
  exact Value.decode?_encode hencode (type_of_accepts haccepts)

end Column

namespace Schema

variable {schema : Schema} {row : Row} {record : Record}

theorem mem_names_iff {name : String} : name ∈ schema.names ↔ schema.contains name = true := by
  simp [Schema.names, Schema.contains, Schema.column?, List.find?_isSome]

theorem nodup_names (schema : Schema) : schema.names.Nodup := schema.nodup

theorem column?_of_mem {column : Column} (h : column ∈ schema.columns) :
    schema.column? column.name = some column := by
  obtain ⟨columns, hnodup⟩ := schema
  simp only [Schema.column?] at h ⊢
  induction columns with
  | nil => cases h
  | cons first rest ih =>
    obtain ⟨hfresh, hnodup⟩ := List.nodup_cons.mp hnodup
    rcases List.mem_cons.mp h with rfl | hmem
    · simp
    · have hne : first.name ≠ column.name := fun heq ↦ hfresh (heq ▸ List.mem_map_of_mem hmem)
      rw [List.find?_cons_of_neg (by simpa using hne)]
      exact ih hnodup hmem

theorem column?_eq_some {name : String} {column : Column} :
    schema.column? name = some column ↔ column ∈ schema.columns ∧ column.name = name := by
  constructor
  · intro h
    exact ⟨List.mem_of_find?_eq_some h, by simpa using List.find?_some h⟩
  · rintro ⟨hmem, rfl⟩
    exact column?_of_mem hmem

theorem eq_of_name {column other : Column} (h : column ∈ schema.columns)
    (hother : other ∈ schema.columns) (hname : other.name = column.name) : other = column := by
  have hfound := column?_of_mem hother
  rw [hname, column?_of_mem h] at hfound
  exact (Option.some.inj hfound).symm

/-- A row has the columns of a schema and no others. -/
def Covers (schema : Schema) (row : Row) : Prop :=
  (∀ entry ∈ row.entries, schema.contains entry.1 = true) ∧
    ∀ name ∈ schema.names, row.contains name = true

theorem Covers.contains (h : schema.Covers row) {name : String} (hname : row.contains name = true) :
    name ∈ schema.names := by
  obtain ⟨value, hvalue⟩ := Option.isSome_iff_exists.mp hname
  obtain ⟨entry, hentry, hkey⟩ := List.mem_map.mp (mem_names_of_lookup hvalue)
  exact hkey ▸ mem_names_iff.mpr (h.1 entry hentry)

theorem Covers.entries_project (h : schema.Covers row) : (row.project schema.names).entries =
    schema.names.map fun name ↦ (name, (row.get? name).getD .null) :=
  Row.entries_project schema.nodup_names h.2

theorem Covers.get?_project (h : schema.Covers row) {name : String} (hname : name ∈ schema.names) :
    (row.project schema.names).get? name = row.get? name :=
  Row.get?_project schema.nodup_names h.2 hname

theorem encodeRow_eq_ok : schema.encodeRow row = .ok record ↔
    schema.Covers row ∧ schema.columns.mapM (encodeCell row) = .ok record := by
  rw [Schema.encodeRow]
  split
  · rename_i name value hfound
    have hmem := List.mem_of_find?_eq_some hfound
    have hbad := List.find?_some hfound
    simp only [Bool.not_eq_true'] at hbad
    simp only [reduceCtorEq, false_iff, not_and]
    intro hcovers
    rw [hcovers.1 _ hmem] at hbad
    cases hbad
  · rename_i hnone
    have hentries : ∀ entry ∈ row.entries, schema.contains entry.1 = true := by
      simpa using List.find?_eq_none.mp hnone
    have hmissing : schema.missingFrom row = [] ↔
        ∀ name ∈ schema.names, row.contains name = true := by
      simp [Schema.missingFrom, List.filter_eq_nil_iff]
    split
    · rename_i hempty
      exact ⟨fun h ↦ ⟨⟨hentries, hmissing.mp hempty⟩, h⟩, fun h ↦ h.2⟩
    · rename_i hsome
      simp only [reduceCtorEq, false_iff, not_and]
      exact fun hcovers ↦ absurd (hmissing.mpr hcovers.2) hsome

theorem encodeCell_eq_ok {column : Column} {cell : String × Json} :
    encodeCell row column = .ok cell ↔
    ∃ s, column.encode ((row.get? column.name).getD .null) = .ok s ∧
      cell = (column.name, .scalar s) := by
  rw [encodeCell]
  split <;> simp [*, eq_comm]

def cellOf (row : Row) (column : Column) : Scalar :=
  (column.encode ((row.get? column.name).getD .null)).toOption.getD .null

theorem cells_of_encodeRow (h : schema.encodeRow row = .ok record) :
    record = schema.columns.map (fun column ↦ (column.name, .scalar (cellOf row column))) ∧
      ∀ column ∈ schema.columns,
        column.encode ((row.get? column.name).getD .null) = .ok (cellOf row column) := by
  have hcells := mapM_eq_ok.mp (encodeRow_eq_ok.mp h).2
  have hcell : ∀ column ∈ schema.columns,
      encodeCell row column = .ok (column.name, .scalar (cellOf row column)) ∧
        column.encode ((row.get? column.name).getD .null) = .ok (cellOf row column) := by
    intro column hcolumn
    have hmem : encodeCell row column ∈ record.map Except.ok :=
      hcells ▸ List.mem_map_of_mem hcolumn
    obtain ⟨cell, -, hok⟩ := List.mem_map.mp hmem
    obtain ⟨s, hs, rfl⟩ := encodeCell_eq_ok.mp hok.symm
    have hcell : cellOf row column = s := by rw [cellOf, hs]; rfl
    exact ⟨by rw [hcell, hok], by rw [hcell, hs]⟩
  refine ⟨?_, fun column hcolumn ↦ (hcell column hcolumn).2⟩
  have hmap : record.map (Except.ok (ε := RowFault)) =
      (schema.columns.map fun column ↦ (column.name, .scalar (cellOf row column))).map Except.ok := by
    rw [← hcells, List.map_map]
    exact List.map_congr_left fun column hcolumn ↦ (hcell column hcolumn).1
  exact (List.map_inj_right fun _ _ ↦ Except.ok.inj).mp hmap

theorem exists_encodeRow_iff : (∃ record, schema.encodeRow row = .ok record) ↔
    schema.Covers row ∧ ∀ column ∈ schema.columns,
      ∃ s, column.encode ((row.get? column.name).getD .null) = .ok s := by
  constructor
  · rintro ⟨record, hrecord⟩
    refine ⟨(encodeRow_eq_ok.mp hrecord).1, fun column hcolumn ↦ ?_⟩
    exact ⟨_, (cells_of_encodeRow hrecord).2 column hcolumn⟩
  · rintro ⟨hcovers, hcells⟩
    obtain ⟨record, hrecord⟩ : ∃ record, schema.columns.mapM (encodeCell row) = .ok record := by
      apply exists_mapM_eq_ok
      intro column hcolumn
      obtain ⟨s, hs⟩ := hcells column hcolumn
      exact ⟨_, encodeCell_eq_ok.mpr ⟨s, hs, rfl⟩⟩
    exact ⟨record, encodeRow_eq_ok.mpr ⟨hcovers, hrecord⟩⟩

theorem names_of_encodeRow (h : schema.encodeRow row = .ok record) :
    record.map Prod.fst = schema.names := by
  rw [(cells_of_encodeRow h).1, List.map_map]
  rfl

theorem readable_of_encodeRow (h : schema.encodeRow row = .ok record) :
    (Json.object record).Readable := by
  obtain ⟨hrecord, hcells⟩ := cells_of_encodeRow h
  refine .object fun member hmember ↦ ?_
  rw [hrecord] at hmember
  obtain ⟨column, hcolumn, rfl⟩ := List.mem_map.mp hmember
  exact .scalar (Value.readable_encode (Column.encode_eq_ok.mp (hcells column hcolumn)).2)

/-- Decoding gives the encoded row back, laid out in the order of the schema. -/
theorem decodeRow_of_encodeRow (h : schema.encodeRow row = .ok record) :
    schema.decodeRow record = .ok (row.project schema.names) := by
  have hcovers := (encodeRow_eq_ok.mp h).1
  obtain ⟨hrecord, hcells⟩ := cells_of_encodeRow h
  have hdecode : ∀ column ∈ schema.columns,
      decodeCell column record = .ok (column.name, (row.get? column.name).getD .null) := by
    intro column hcolumn
    have hlookup : record.get? column.name = some (.scalar (cellOf row column)) :=
      hrecord ▸ lookup_map_of_mem schema.nodup hcolumn
    simp [decodeCell, hlookup, Column.decode?_encode (hcells column hcolumn)]
  have hall : schema.columns.mapM (fun column ↦ decodeCell column record) =
      .ok (schema.columns.map fun column ↦ (column.name, (row.get? column.name).getD .null)) := by
    rw [mapM_eq_ok, List.map_map]
    exact List.map_congr_left hdecode
  rw [Schema.decodeRow, hall]
  refine congrArg Except.ok (Row.ext ?_)
  rw [hcovers.entries_project, Row.ofList_entries]
  · rw [Schema.names, List.map_map]
    rfl
  · rw [List.map_map]
    exact schema.nodup

theorem decodeCell_eq_ok {column : Column} {cell : String × Value}
    (h : decodeCell column record = .ok cell) : cell.1 = column.name := by
  rw [decodeCell] at h
  split at h
  · cases h
  · split at h
    · cases h
    · rw [← Except.ok.inj h]

theorem names_of_decodeRow (h : schema.decodeRow record = .ok row) :
    row.entries.map Prod.fst = schema.names := by
  obtain ⟨cells, hcells, hrow⟩ := bind_eq_ok.mp h
  have hnames : cells.map Prod.fst = schema.names :=
    map_eq_of_mapM_eq_ok hcells fun column cell ↦ decodeCell_eq_ok
  obtain rfl := Except.ok.inj hrow
  rw [Row.ofList_entries (hnames ▸ schema.nodup_names), hnames]

theorem Covers.names_project (h : schema.Covers row) :
    (row.project schema.names).entries.map Prod.fst = schema.names := by
  simp [h.entries_project, Function.comp_def]

theorem Covers.project (h : schema.Covers row) : schema.Covers (row.project schema.names) := by
  have hnames := h.names_project
  refine ⟨fun entry hentry ↦ ?_, fun name hname ↦ ?_⟩
  · rw [← mem_names_iff, ← hnames]
    exact List.mem_map_of_mem hentry
  · rw [Row.contains, h.get?_project hname]
    exact h.2 name hname

theorem Covers.get?_eq_none (h : schema.Covers row) {name : String} (hname : name ∉ schema.names) :
    row.get? name = none :=
  Option.not_isSome_iff_eq_none.mp fun hsome ↦ hname (h.contains hsome)

theorem Covers.get?_project_eq (h : schema.Covers row) (name : String) :
    (row.project schema.names).get? name = row.get? name := by
  by_cases hname : name ∈ schema.names
  · exact h.get?_project hname
  · rw [h.get?_eq_none hname, h.project.get?_eq_none hname]

theorem encodeRow_of_get?_eq {other : Row} (h : schema.encodeRow row = .ok record)
    (hsame : ∀ name, other.get? name = row.get? name) : schema.encodeRow other = .ok record := by
  obtain ⟨hcovers, hcells⟩ := encodeRow_eq_ok.mp h
  have hcontains : ∀ name, other.contains name = row.contains name := by
    intro name
    rw [Row.contains, Row.contains, hsame]
  refine encodeRow_eq_ok.mpr ⟨⟨fun entry hentry ↦ ?_, fun name hname ↦ ?_⟩, ?_⟩
  · rw [← mem_names_iff]
    apply hcovers.contains
    rw [← hcontains]
    exact Row.contains_of_mem (List.mem_map_of_mem hentry)
  · rw [hcontains]
    exact hcovers.2 name hname
  · have hcell : encodeCell other = encodeCell row := by
      funext column
      rw [encodeCell, encodeCell, hsame]
    rw [hcell, hcells]

theorem encodeRow_project (h : schema.encodeRow row = .ok record) :
    schema.encodeRow (row.project schema.names) = .ok record :=
  encodeRow_of_get?_eq h (encodeRow_eq_ok.mp h).1.get?_project_eq

/-- A row that a schema takes: the columns are those of the schema, a null stands only where it is
allowed, any other value has the type of its column, and floats are finite. -/
structure Accepts (schema : Schema) (row : Row) : Prop where
  names : ∀ name, row.contains name = true ↔ name ∈ schema.names
  typed : ∀ column ∈ schema.columns, ∀ value, row.get? column.name = some value →
    if value = .null then column.allowNull = true else value.type? = some column.type
  finite : ∀ name x, row.get? name = some (.float x) → ∃ y, x = .finite y

theorem covers_iff : schema.Covers row ↔ ∀ name, row.contains name = true ↔ name ∈ schema.names := by
  constructor
  · exact fun h name ↦ ⟨h.contains, h.2 name⟩
  · intro h
    refine ⟨fun entry hentry ↦ ?_, fun name hname ↦ (h name).mpr hname⟩
    rw [← mem_names_iff, ← h]
    exact Row.contains_of_mem (List.mem_map_of_mem hentry)

theorem accepts_iff : schema.Accepts row ↔ ∃ record, schema.encodeRow row = .ok record := by
  rw [exists_encodeRow_iff]
  constructor
  · intro h
    have hcovers := covers_iff.mpr h.names
    refine ⟨hcovers, fun column hcolumn ↦ ?_⟩
    obtain ⟨value, hvalue⟩ := Option.isSome_iff_exists.mp (hcovers.2 _ (List.mem_map_of_mem hcolumn))
    rw [hvalue, Option.getD_some]
    refine Column.exists_encode_iff.mpr ⟨h.typed column hcolumn value hvalue, ?_⟩
    rintro x rfl
    exact h.finite column.name x hvalue
  · rintro ⟨hcovers, hcells⟩
    have hcell : ∀ column ∈ schema.columns, ∀ value, row.get? column.name = some value → _ :=
      fun column hcolumn value hvalue ↦
        Column.exists_encode_iff.mp (by simpa [hvalue] using hcells column hcolumn)
    refine ⟨covers_iff.mp hcovers, fun column hcolumn value hvalue ↦
      (hcell column hcolumn value hvalue).1, fun name x hvalue ↦ ?_⟩
    have hname := hcovers.contains (show row.contains name = true by rw [Row.contains, hvalue]; rfl)
    obtain ⟨column, hcolumn, rfl⟩ := List.mem_map.mp hname
    exact (hcell column hcolumn _ hvalue).2 x rfl

/-- The rows with a record are those that the schema takes. The record depends on the values by name
only, and decoding it gives them back in the order of the schema. -/
theorem encodeRow_exact (schema : Schema) (row : Row) :
    ((∃ record, schema.encodeRow row = .ok record) ↔ schema.Accepts row) ∧
    ∀ record, schema.encodeRow row = .ok record →
      (∀ other : Row, (∀ name, other.get? name = row.get? name) →
        schema.encodeRow other = .ok record) ∧
      ∃ decoded, schema.decodeRow record = .ok decoded ∧
        decoded.entries.map Prod.fst = schema.names ∧
        ∀ name, decoded.get? name = row.get? name := by
  refine ⟨accepts_iff.symm, fun record hrecord ↦ ⟨fun other ↦ encodeRow_of_get?_eq hrecord, ?_⟩⟩
  have hcovers := (encodeRow_eq_ok.mp hrecord).1
  exact ⟨_, decodeRow_of_encodeRow hrecord, hcovers.names_project, hcovers.get?_project_eq⟩

def sightings : Schema where
  columns := [⟨"Seen", .datetime, false, false, false⟩, ⟨"Score", .float, false, false, true⟩]
  nodup := by decide

def lastSecond : Timestamp := ⟨-44, 12, 31, 23, 59, 60, by decide⟩

def sighting : Row := (Row.empty.set "Score" .null).set "Seen" (.datetime lastSecond)

theorem encodeRow_exact_sighting :
    ∃ record, sightings.encodeRow sighting = .ok record ∧
      record = [("Seen", .scalar (.string "-0044-12-31 23:59:60")), ("Score", .scalar .null)] ∧
      ∃ decoded, sightings.decodeRow record = .ok decoded ∧
        decoded.entries.map Prod.fst = ["Seen", "Score"] ∧
        ∀ name, decoded.get? name = sighting.get? name := by
  have hrecord : sightings.encodeRow sighting =
      .ok [("Seen", .scalar (.string lastSecond.text)), ("Score", .scalar .null)] := rfl
  have htext : lastSecond.text = "-0044-12-31 23:59:60" := by decide +kernel
  refine ⟨_, hrecord, by rw [htext], ?_⟩
  exact ((encodeRow_exact sightings sighting).2 _ hrecord).2

end Schema

end TableStore
