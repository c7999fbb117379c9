import TableStore.Proofs.Json.Parsed
import TableStore.Proofs.Record
import TableStore.TableDocument

namespace TableStore

open Json (Tree)

structure Record.Stored (record : Record) : Prop where
  spelled : TableDocument.record? (Json.maxDepth - 2) (Json.object record).toTree = some record
  readable : (Json.object record).Readable

theorem Record.stored_of_record? {tree : Tree} (h : tree.Readable) {record : Record}
    (hrecord : TableDocument.record? (Json.maxDepth - 2) tree = some record) : record.Stored := by
  rw [TableDocument.record?] at hrecord
  split at hrecord
  · rename_i members hvalue
    obtain rfl := Option.some.inj hrecord
    obtain ⟨hreadable, hagain⟩ := h.value? hvalue
    exact ⟨by rw [TableDocument.record?, hagain], hreadable⟩
  · cases hrecord

namespace Schema

theorem stored_of_encodeRow {schema : Schema} {row : Row} {record : Record}
    (h : schema.encodeRow row = .ok record) : record.Stored := by
  have hnodup : (record.map Prod.fst).Nodup := names_of_encodeRow h ▸ schema.nodup_names
  have hvalue : (Json.object record).toTree.value? (Json.maxDepth - 2) = some (.object record) := by
    refine Tree.value?_toTree_object hnodup fun member hmember ↦ ?_
    rw [(cells_of_encodeRow h).1] at hmember
    obtain ⟨column, -, rfl⟩ := List.mem_map.mp hmember
    rfl
  exact ⟨by rw [TableDocument.record?, hvalue], readable_of_encodeRow h⟩

theorem repeatedName?_go_eq_none {columns : List Column} {seen : List String}
    (hnodup : (columns.map Column.name).Nodup) (hfresh : ∀ column ∈ columns, column.name ∉ seen) :
    repeatedName?.go seen columns = none := by
  induction columns generalizing seen with
  | nil => rfl
  | cons column rest ih =>
    obtain ⟨hnot, hrest⟩ := List.nodup_cons.mp hnodup
    rw [repeatedName?.go, if_neg (hfresh column (by simp))]
    refine ih hrest fun other hother ↦ ?_
    simp only [List.mem_cons, not_or]
    exact ⟨fun heq ↦ hnot (heq ▸ List.mem_map_of_mem hother), hfresh other (by simp [hother])⟩

theorem ofColumns_columns (schema : Schema) : ofColumns schema.columns = .ok schema := by
  have hnone : repeatedName? schema.columns = none :=
    repeatedName?_go_eq_none schema.nodup fun _ _ ↦ List.not_mem_nil
  unfold ofColumns
  split
  · rename_i hsome
    rw [hnone] at hsome
    cases hsome
  · rfl

theorem columns_of_ofColumns {columns : List Column} {schema : Schema}
    (h : ofColumns columns = .ok schema) : schema.columns = columns := by
  rw [ofColumns] at h
  split at h
  · cases h
  · rw [← Except.ok.inj h]

end Schema

theorem DataType.ofStoredName?_storedName (type : DataType) :
    ofStoredName? type.storedName = some type := by
  cases type <;> decide

namespace Column

theorem ofTree?_toTree (column : Column) : ofTree? column.toJson.toTree = some column := by
  obtain ⟨name, type, primaryKey, unique, allowNull⟩ := column
  have htype := DataType.ofStoredName?_storedName type
  simp [ofTree?, toJson, Json.toTree, Json.toTreeMembers, Tree.fields?, Tree.field?, Tree.required,
    Tree.optional, Tree.string?, Tree.bool?, type?, htype]

theorem readable_toJson (column : Column) : column.toJson.Readable := by
  refine .object fun member hmember ↦ ?_
  simp only [List.mem_cons, List.not_mem_nil, or_false] at hmember
  rcases hmember with rfl | rfl | rfl | rfl | rfl <;> exact .scalar trivial

end Column

namespace TableDocument

variable {document : TableDocument}

theorem readable_toJson (h : ∀ record ∈ document.records, (Json.object record).Readable) :
    document.toJson.Readable := by
  refine .object fun member hmember ↦ ?_
  simp only [List.mem_cons, List.not_mem_nil, or_false] at hmember
  rcases hmember with rfl | rfl | rfl
  · exact .scalar trivial
  · refine .array fun item hitem ↦ ?_
    obtain ⟨column, -, rfl⟩ := List.mem_map.mp hitem
    exact column.readable_toJson
  · refine .array fun item hitem ↦ ?_
    obtain ⟨record, hrecord, rfl⟩ := List.mem_map.mp hitem
    exact h record hrecord

theorem ofTree?_toTree (h : ∀ record ∈ document.records, record.Stored) :
    ofTree? document.toJson.toTree = some document := by
  obtain ⟨name, columns, records⟩ := document
  have hcolumns : columns.mapM (Column.ofTree? ∘ Json.toTree ∘ Column.toJson) = some columns :=
    mapM_some_self fun column _ ↦ column.ofTree?_toTree
  have hrecords : records.mapM (record? (Json.maxDepth - 2) ∘ Json.toTree ∘ Json.object) =
      some records :=
    mapM_some_self fun record hrecord ↦ (h record hrecord).spelled
  simp [ofTree?, toJson, Json.toTree, Json.toTreeMembers, Json.toTrees_eq_map, Tree.fields?,
    Tree.field?,
    Tree.required, Tree.optional, Tree.string?, Tree.items?, hcolumns, hrecords]

theorem ofText?_text (h : ∀ record ∈ document.records, record.Stored) :
    ofText? document.text = some document := by
  have hreadable := readable_toJson fun record hrecord ↦ (h record hrecord).readable
  rw [ofText?, text, hreadable.ofText?_prettyText]
  exact ofTree?_toTree h

theorem stored_of_ofText? {text : String} (h : ofText? text = some document) :
    ∀ record ∈ document.records, record.Stored := by
  obtain ⟨tree, htree, h⟩ := Option.bind_eq_some_iff.mp h
  obtain ⟨fields, hfields, h⟩ := Option.bind_eq_some_iff.mp h
  split at h
  · rename_i name columns records
    obtain ⟨_, -, h⟩ := Option.bind_eq_some_iff.mp h
    obtain ⟨_, -, h⟩ := Option.bind_eq_some_iff.mp h
    obtain ⟨_, -, h⟩ := Option.bind_eq_some_iff.mp h
    obtain ⟨items, hitems, h⟩ := Option.bind_eq_some_iff.mp h
    obtain ⟨found, hfound, h⟩ := Option.bind_eq_some_iff.mp h
    obtain rfl := Option.some.inj h
    have hreadable : ∀ item ∈ items, item.Readable := by
      cases records with
      | none =>
        obtain rfl := Option.some.inj hitems
        exact fun item hitem ↦ nomatch hitem
      | some tree' =>
        have htree' := (Tree.readable_of_ofText? htree).fields? hfields (by simp : some tree' ∈ _)
        cases htree' with
        | leaf => cases hitems
        | object => cases hitems
        | array hall =>
          obtain rfl := Option.some.inj hitems
          exact hall
    intro record hrecord
    obtain ⟨item, hitem, hitem'⟩ := exists_of_mapM_eq_some hfound record hrecord
    exact Record.stored_of_record? (hreadable item hitem) hitem'
  · cases h

end TableDocument

end TableStore
