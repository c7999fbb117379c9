import TableStore.Value

namespace TableStore

namespace Row

def put (name : String) (value : Value) : List (String × Value) → List (String × Value)
  | [] => [(name, value)]
  | (key, old) :: rest =>
    if key = name then (key, value) :: rest else (key, old) :: put name value rest

theorem mem_put_names {name : String} {value : Value} {entries : List (String × Value)}
    {key : String} :
    key ∈ (put name value entries).map Prod.fst ↔ key = name ∨ key ∈ entries.map Prod.fst := by
  induction entries with
  | nil => simp [put]
  | cons entry rest ih =>
    obtain ⟨k, old⟩ := entry
    by_cases h : k = name
    · subst h
      simp [put]
    · rw [put, if_neg h, List.map_cons, List.mem_cons, ih, List.map_cons, List.mem_cons]
      exact or_left_comm

theorem nodup_put {name : String} {value : Value} {entries : List (String × Value)}
    (h : (entries.map Prod.fst).Nodup) : ((put name value entries).map Prod.fst).Nodup := by
  induction entries with
  | nil => simp [put]
  | cons entry rest ih =>
    obtain ⟨k, old⟩ := entry
    rw [List.map_cons, List.nodup_cons] at h
    by_cases hk : k = name
    · rw [put, if_pos hk, List.map_cons, List.nodup_cons]
      exact h
    · rw [put, if_neg hk, List.map_cons, List.nodup_cons]
      refine ⟨fun hmem ↦ ?_, ih h.2⟩
      rcases mem_put_names.1 hmem with hname | hrest
      · exact hk hname
      · exact h.1 hrest

end Row

/-- Values by column name, in the order in which the names first came. -/
structure Row where
  entries : List (String × Value)
  nodup : (entries.map Prod.fst).Nodup
  deriving DecidableEq

namespace Row

def empty : Row := ⟨[], by simp⟩

def get? (row : Row) (name : String) : Option Value := row.entries.lookup name

def contains (row : Row) (name : String) : Bool := (row.get? name).isSome

def set (row : Row) (name : String) (value : Value) : Row :=
  ⟨put name value row.entries, nodup_put row.nodup⟩

def size (row : Row) : Nat := row.entries.length

def ofList (entries : List (String × Value)) : Row :=
  entries.foldl (fun row entry ↦ row.set entry.1 entry.2) empty

/-- The row of the named columns, in the order of the names. Unknown names are passed over. -/
def project (row : Row) (names : List String) : Row :=
  ofList (names.filterMap fun name ↦ (row.get? name).map fun value ↦ (name, value))

end Row

end TableStore
