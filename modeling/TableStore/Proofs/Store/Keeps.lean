import TableStore.Proofs.Store.Catalog
import TableStore.Proofs.Store.Changes
import TableStore.Proofs.Store.Closed
import TableStore.Proofs.Store.Scan

namespace TableStore

open FileSystem (Location)

def Store.Sane (store : Store) : Prop :=
  ∃ config home contents, config.fault? = none ∧ contents.Consistent ∧ Holds config home contents store

/-- An operation that leaves a store with consistent tables, whether it succeeds or fails. -/
def Keeps {α : Type} (op : Operation α) : Prop :=
  ∀ store : Store, store.Sane → (op.run store).2.Sane

theorem Config.degree_of_fault? {config : Config} (h : config.fault? = none) :
    2 ≤ config.indexDegree ∧ config.indexDegree ≤ BTree.maxDegree := by
  rw [fault?] at h
  split at h
  · cases h
  · omega

namespace Keeps

variable {α β : Type}

theorem pure (a : α) : Keeps (Pure.pure a : Operation α) := fun _ h ↦ h

theorem ask (question : Store → Except Error α) : Keeps (Operation.ask question) := fun _ h ↦ h

theorem ofResult (result : Except Error α) : Keeps (Operation.ofResult result) := ask _

theorem bind {op : Operation α} {f : α → Operation β} (h : Keeps op) (hf : ∀ a, Keeps (f a)) :
    Keeps (op >>= f) := by
  intro store hstore
  have hafter := h store hstore
  rw [Operation.run_bind]
  rcases hrun : op.run store with ⟨r, store'⟩
  rw [hrun] at hafter
  cases r with
  | error e => exact hafter
  | ok a => exact hf a store' hafter

theorem of_carries {op : Operation Unit} {next : Config → Contents → Except Error Contents}
    (h : ∀ {config home contents}, contents.Consistent → Carries config home contents op (next config contents))
    (hnext : ∀ {config contents contents'}, config.fault? = none → contents.Consistent →
      next config contents = .ok contents' → contents'.Consistent) : Keeps op := by
  rintro store ⟨config, home, contents, hconfig, hc, hstore⟩
  obtain ⟨-, hafter⟩ := (h hc).runs store hstore
  refine ⟨config, home, _, hconfig, ?_, hafter⟩
  cases hresult : next config contents with
  | error e => exact hc
  | ok contents' => exact hnext hconfig hc hresult

theorem index (table column : String) : Keeps (Operation.index table column) := by
  rintro store ⟨config, home, contents, hconfig, hc, hstore⟩
  exact ⟨config, home, contents, hconfig, hc, hstore.index table column⟩

theorem scan (table : String) (predicate : Predicate) : Keeps (Operation.scan table predicate) := by
  rintro store ⟨config, home, contents, hconfig, hc, hstore⟩
  exact ⟨config, home, contents, hconfig, hc, (Answers.scan hc table predicate store hstore).2⟩

theorem read (table : String) (id : Int64) : Keeps (Operation.read table id) := by
  apply bind (ask _)
  rintro ⟨document, schema⟩
  apply bind (index table _)
  intro tree
  apply bind (ofResult _)
  intro found
  split
  · exact bind (ask _) fun _ ↦ pure _
  · exact pure _

theorem tableIndex (table column : String) : Keeps (Operation.tableIndex table column) :=
  bind (ask _) fun _ ↦ index table column

theorem insert (table : String) (row : Row) : Keeps (Operation.insert table row) :=
  of_carries (fun hc ↦ Carries.insert hc table row) fun _ hc hrun ↦ hc.insert hrun

theorem update (table : String) (position : Nat) (row : Row) :
    Keeps (Operation.update table position row) :=
  of_carries (fun hc ↦ Carries.update hc table position row) fun _ hc hrun ↦ hc.update hrun

theorem delete (table : String) (position : Nat) : Keeps (Operation.delete table position) :=
  of_carries (fun hc ↦ Carries.delete hc table position) fun _ hc hrun ↦ hc.delete hrun

theorem createTable (table : String) (schema : Schema) :
    Keeps (Operation.createTable table schema) :=
  of_carries (fun _ ↦ Carries.createTable table schema) fun _ hc hrun ↦ hc.createTable hrun

theorem dropTable (table : String) : Keeps (Operation.dropTable table) :=
  of_carries (fun hc ↦ Carries.dropTable hc table) fun _ hc hrun ↦ hc.dropTable hrun

theorem createIndex (table column : String) : Keeps (Operation.createIndex table column) :=
  of_carries (fun hc ↦ Carries.createIndex hc table column) fun hconfig hc hrun ↦
    hc.createIndex (Config.degree_of_fault? hconfig) hrun

theorem dropIndex (table column : String) : Keeps (Operation.dropIndex table column) :=
  of_carries (fun _ ↦ Carries.dropIndex table column) fun _ hc hrun ↦ hc.dropIndex hrun

theorem closed : Closed @Keeps where
  pure := pure
  ofResult _ := ofResult _
  schema _ := ask _
  bind := bind
  scan table condition := scan table (.ofCondition condition)
  insert := insert
  update := update
  delete := delete
  createTable := createTable
  dropTable := dropTable
  createIndex := createIndex

end Keeps

end TableStore
