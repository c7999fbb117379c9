import TableStore.Value

namespace TableStore

structure Column where
  name : String
  type : DataType
  primaryKey : Bool := false
  unique : Bool := false
  allowNull : Bool := false
  deriving DecidableEq

def Column.accepts (column : Column) (value : Value) : Bool :=
  match value.type? with
  | none => column.allowNull
  | some type => type == column.type

/-- The columns of a table in order. No two have one name. -/
structure Schema where
  columns : List Column
  nodup : (columns.map Column.name).Nodup
  deriving DecidableEq

namespace Schema

def repeatedName? (columns : List Column) : Option String := go [] columns
where
  go (seen : List String) : List Column → Option String
    | [] => none
    | column :: rest =>
      if column.name ∈ seen then some column.name else go (column.name :: seen) rest

theorem nodup_of_go {columns : List Column} {seen : List String}
    (h : repeatedName?.go seen columns = none) :
    (columns.map Column.name).Nodup ∧ ∀ column ∈ columns, column.name ∉ seen := by
  induction columns generalizing seen with
  | nil => simp
  | cons column rest ih =>
    rw [repeatedName?.go] at h
    split at h
    · cases h
    · rename_i fresh
      obtain ⟨hrest, hseen⟩ := ih h
      refine ⟨List.nodup_cons.2 ⟨?_, hrest⟩, ?_⟩
      · intro hmem
        obtain ⟨other, hother, hname⟩ := List.mem_map.1 hmem
        exact hseen other hother (by simp [hname])
      · intro other hother
        rcases List.mem_cons.1 hother with rfl | hother
        · exact fresh
        · exact fun hin ↦ hseen other hother (List.mem_cons_of_mem _ hin)

def ofColumns (columns : List Column) : Except String Schema :=
  match h : repeatedName? columns with
  | some name => .error name
  | none => .ok ⟨columns, (nodup_of_go h).1⟩

def names (schema : Schema) : List String := schema.columns.map Column.name

def column? (schema : Schema) (name : String) : Option Column :=
  schema.columns.find? fun column ↦ column.name = name

def contains (schema : Schema) (name : String) : Bool := (schema.column? name).isSome

end Schema

end TableStore
