import TableStore.Proofs.Store.Abreast

namespace TableStore

open FileSystem (Location)
open Store (isName)

/-- The table that a call is about. A text that is no statement is about none. -/
def Call.table? : Call → Option String
  | .execute text => (Statement.ofText text).toOption.map Statement.table
  | .run statement => some statement.table
  | .createTable table _ | .dropTable table => some table
  | .insert table _ | .update table _ _ | .delete table _ => some table
  | .read table _ | .scan table _ | .query table _ | .queryColumns table _ _ => some table
  | .createIndex table _ | .dropIndex table _ | .tableIndex table _ | .index table _ => some table

def Question.table : Question → String
  | .tableExists table | .checkTable table | .schema table | .rowCount table => table
  | .plan table _ | .hasIndex table _ | .listIndexes table => table

section

variable {table : String}

theorem Call.run_of_table?_eq_none {call : Call} (h : call.table? = none) :
    ∃ e, ∀ store, call.operation.run store = (.error e, store) := by
  cases call with
  | execute text =>
    rw [Call.table?, Option.map_eq_none_iff] at h
    cases hparse : Statement.ofText text with
    | ok statement =>
      rw [hparse] at h
      cases h
    | error e =>
      refine ⟨.invalidStatement e, fun store ↦ ?_⟩
      rw [Call.operation, Database.execute_eq_error hparse]
      rfl
  | _ => cases h

theorem Call.isNamed_of_table? {call : Call} (h : call.table? = some table)
    (htable : isName table = true) : call.IsNamed := by
  cases call with
  | index other column => exact Option.some.inj h ▸ htable
  | _ => trivial

theorem ClosedAt.call {P : {α : Type} → Operation α → Prop} {call : Call} (h : ClosedAt table P)
    (hread : ∀ id, P (Operation.read table id))
    (hdropIndex : ∀ column, P (Operation.dropIndex table column))
    (htableIndex : ∀ column, P (Operation.tableIndex table column))
    (hscan : ∀ predicate, P (Operation.scan table predicate))
    (hcall : call.table? = some table)
    (hindex : ∀ column, call = .index table column → P (Operation.index table column)) :
    P call.operation := by
  cases call with
  | execute text =>
    rw [Call.table?, Option.map_eq_some_iff] at hcall
    obtain ⟨statement, hparse, rfl⟩ := hcall
    rw [Call.operation, Database.execute_eq_run (toOption_eq_some.mp hparse)]
    exact h.run
  | run statement =>
    obtain rfl := Option.some.inj hcall
    exact h.run
  | createTable other schema =>
    obtain rfl := Option.some.inj hcall
    exact h.createTable schema
  | dropTable other =>
    obtain rfl := Option.some.inj hcall
    exact h.dropTable
  | insert other row =>
    obtain rfl := Option.some.inj hcall
    exact h.insert row
  | update other position row =>
    obtain rfl := Option.some.inj hcall
    exact h.update position row
  | delete other position =>
    obtain rfl := Option.some.inj hcall
    exact h.delete position
  | read other id =>
    obtain rfl := Option.some.inj hcall
    exact hread id
  | scan other predicate =>
    obtain rfl := Option.some.inj hcall
    exact hscan predicate
  | query other predicate =>
    obtain rfl := Option.some.inj hcall
    exact h.query (hscan predicate)
  | queryColumns other columns predicate =>
    obtain rfl := Option.some.inj hcall
    exact h.queryColumns (hscan predicate) columns
  | createIndex other column =>
    obtain rfl := Option.some.inj hcall
    exact h.createIndex column
  | dropIndex other column =>
    obtain rfl := Option.some.inj hcall
    exact hdropIndex column
  | tableIndex other column =>
    obtain rfl := Option.some.inj hcall
    exact htableIndex column
  | index other column =>
    obtain rfl := Option.some.inj hcall
    exact hindex column rfl

end

section

variable {home : Location} {shared : String → Prop} {origin store twin : Store} {table : String}

namespace InStep

theorem closedAt (hshared : shared table) : ClosedAt table
    (Follows (InStep home shared table origin) (InStep home shared table origin)) where
  pure := .pure
  ofResult _ := .ofResult _
  schema := .ask fun h ↦ h.agree.schema hshared
  bind h hf := .bind h id fun a _ ↦ hf a
  scan _ := follows (scan hshared _) (Neatly.scan table _)
  insert row := follows (rowChange hshared (.insert row)) (Neatly.closed.insert table row)
  update position row :=
    follows (rowChange hshared (.update position row)) (Neatly.closed.update table position row)
  delete position :=
    follows (rowChange hshared (.delete position)) (Neatly.closed.delete table position)
  createTable schema := follows (createTable hshared schema) (Neatly.closed.createTable table schema)
  dropTable := follows (dropTable hshared) (Neatly.closed.dropTable table)
  createIndex column :=
    follows (createIndex hshared column) (Neatly.closed.createIndex table column)

theorem call {call : Call} (hshared : shared table) (hcall : call.table? = some table)
    (hnamed : call.IsNamed) :
    Follows (InStep home shared table origin) (InStep home shared table origin) call.operation := by
  refine (closedAt hshared).call (fun id ↦ ?_) (fun column ↦ ?_) (fun column ↦ ?_)
    (fun predicate ↦ follows (scan hshared predicate) (Neatly.scan table predicate)) hcall ?_
  · exact follows (read hshared id) (@Neatly.call home (.read table id) trivial)
  · exact follows (dropIndex hshared column) (@Neatly.call home (.dropIndex table column) trivial)
  · exact follows (tableIndex hshared column)
      (@Neatly.call home (.tableIndex table column) trivial)
  · rintro column rfl
    exact follows (.mono InStep.toAbreast (Abreast.index hshared hnamed column) id)
      (@Neatly.call home (.index table column) hnamed)

end InStep

theorem Store.Neat.after {call : Call} (h : store.Neat home) (hnamed : call.IsNamed) :
    (call.after store).Neat home := by
  exact (Neatly.call hnamed store h).1

theorem Agree.call {call : Call} (h : Agree home shared store twin) (hstore : store.Neat home)
    (hshared : shared table) (hcall : call.table? = some table) (hnamed : call.IsNamed) :
    call.answer twin = call.answer store ∧
      Agree home shared (call.after store) (call.after twin) := by
  obtain ⟨hanswer, hafter⟩ := InStep.call hshared hcall hnamed store twin
    ⟨⟨h, .refl hstore.rooted⟩, hstore⟩
  exact ⟨hanswer, hafter.agree⟩

theorem Store.Neat.others_unchanged {call : Call} (h : store.Neat home)
    (hcall : call.table? = some table) (hnamed : call.IsNamed) :
    Agree home (· ≠ table) store (call.after store) := by
  have hself : InStep home (fun _ ↦ True) table store store store :=
    ⟨⟨.refl h.rooted, .refl h.rooted⟩, h⟩
  exact (InStep.call trivial hcall hnamed store store hself).2.own

end

/-- A call or a question. -/
inductive Request
  | call (call : Call)
  | question (question : Question)

namespace Request

def table? : Request → Option String
  | .call made => made.table?
  | .question asked => some asked.table

def Result : Request → Type
  | .call made => Except Error made.Result
  | .question asked => asked.Result

def answer (store : Store) : (request : Request) → request.Result
  | .call made => made.answer store
  | .question asked => asked.answer store

def after (store : Store) : Request → Store
  | .call made => made.after store
  | .question _ => store

section

variable {home : Location} {shared : String → Prop} {store twin : Store} {table : String}
  {request : Request}

theorem after_neat (h : store.Neat home) (hrequest : request.table? = some table)
    (htable : isName table = true) : (request.after store).Neat home := by
  cases request with
  | call made => exact h.after (Call.isNamed_of_table? hrequest htable)
  | question asked => exact h

theorem others_unchanged (h : store.Neat home) (hrequest : request.table? = some table)
    (htable : isName table = true) : Agree home (· ≠ table) store (request.after store) := by
  cases request with
  | call made => exact h.others_unchanged hrequest (Call.isNamed_of_table? hrequest htable)
  | question asked => exact .refl h.rooted

end

end Request

theorem Agree.question {home : Location} {shared : String → Prop} {store twin : Store}
    (h : Agree home shared store twin) {question : Question} (hshared : shared question.table)
    (hlist : twin.listIndexes question.table = store.listIndexes question.table) :
    question.answer twin = question.answer store := by
  cases question with
  | tableExists table => exact h.tableExists hshared
  | checkTable table => exact h.checkTable hshared
  | schema table => exact h.schema hshared
  | rowCount table => exact h.rowCount hshared
  | plan table hint => exact h.plan hshared hint
  | hasIndex table column => exact h.hasIndex hshared column
  | listIndexes table => exact hlist

theorem Agree.request {home : Location} {shared : String → Prop} {store twin : Store}
    {table : String} {request : Request} (h : Agree home shared store twin)
    (hstore : store.Neat home) (hshared : shared table) (hrequest : request.table? = some table)
    (htable : isName table = true) : request.answer twin = request.answer store ∧
      Agree home shared (request.after store) (request.after twin) := by
  cases request with
  | call call => exact h.call hstore hshared hrequest (Call.isNamed_of_table? hrequest htable)
  | question question =>
    have hquestion : question.table = table := Option.some.inj hrequest
    subst hquestion
    exact ⟨h.question hshared (h.listIndexes hshared htable), h⟩

end TableStore
