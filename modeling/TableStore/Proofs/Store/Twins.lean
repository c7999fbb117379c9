import TableStore.Proofs.Store.Keeps

namespace TableStore

open Store (isName)

/-- The indexes in memory are those of tables and columns that files can be named after. -/
def Store.Tidy (store : Store) : Prop :=
  ∀ key, (store.cache.lookup key).isSome = true → isName key.1 = true ∧ isName key.2 = true

/-- Stores over the same files, with the same indexes in memory as far as `shared` goes. -/
structure Beside (shared : String × String → Prop) (store twin : Store) : Prop where
  files : twin.files = store.files
  config : twin.config = store.config
  same : ∀ key, shared key → twin.cache.lookup key = store.cache.lookup key
  tidy : store.Tidy ∧ twin.Tidy

abbrev SameFiles : Store → Store → Prop := Beside fun _ ↦ False

abbrev SameIndexes (table : String) : Store → Store → Prop := Beside fun key ↦ key.1 = table

/-- From related stores an operation gives one result and leaves related stores, whether it succeeds or
fails. -/
def Follows (R R' : Store → Store → Prop) {α : Type} (op : Operation α) : Prop :=
  ∀ store twin, R store twin →
    (op.run twin).1 = (op.run store).1 ∧ R' (op.run store).2 (op.run twin).2

section

variable {shared : String × String → Prop} {store twin : Store} {table column : String}

theorem Store.Tidy.remembering (h : store.Tidy) (htable : isName table = true)
    (hcolumn : isName column = true) (tree : BTree) :
    (store.remembering table column tree).Tidy := by
  intro key hsome
  rw [Store.lookup_remembering] at hsome
  by_cases hkey : key = (table, column)
  · exact hkey ▸ ⟨htable, hcolumn⟩
  · rw [if_neg hkey] at hsome
    exact h key hsome

theorem Store.Tidy.forget (h : store.Tidy) (dropped : String × String → Bool) :
    Store.Tidy { store with cache := store.cache.filter fun entry ↦ !dropped entry.1 } := by
  intro key hsome
  rw [Store.lookup_forget] at hsome
  split at hsome
  · cases hsome
  · exact h key hsome

theorem Store.Tidy.index (h : store.Tidy) (htable : isName table = true) (column : String) :
    ((Operation.index table column).run store).2.Tidy := by
  rw [Operation.run_index]
  cases hcolumn : Store.checkName column with
  | error e => exact h
  | ok _ =>
    cases store.cache.lookup (table, column) with
    | some tree => exact h
    | none =>
      cases store.readIndex table column with
      | error e => exact h
      | ok tree => exact h.remembering htable (Contents.checkName_eq_ok.mp hcolumn) tree

namespace Beside

theorem exists_cache (h : Beside shared store twin) :
    ∃ cache, twin = { store with cache } := by
  obtain ⟨config, files, cache⟩ := twin
  obtain rfl : files = store.files := h.files
  obtain rfl : config = store.config := h.config
  exact ⟨cache, rfl⟩

theorem weaken (h : Beside shared store twin) : SameFiles store twin where
  files := h.files
  config := h.config
  same _ hno := hno.elim
  tidy := h.tidy

theorem answer {α : Type} (h : Beside shared store twin) (question : Store → α)
    (hquestion : ∀ store cache, question { store with cache } = question store) :
    question twin = question store := by
  obtain ⟨cache, rfl⟩ := h.exists_cache
  exact hquestion store cache

theorem document (h : Beside shared store twin) (table : String) :
    twin.document table = store.document table :=
  h.answer (·.document table) fun _ _ ↦ rfl

theorem checkTable (h : Beside shared store twin) (table : String) :
    twin.checkTable table = store.checkTable table :=
  h.answer (·.checkTable table) fun _ _ ↦ rfl

theorem listIndexes (h : Beside shared store twin) (table : String) :
    twin.listIndexes table = store.listIndexes table :=
  h.answer (·.listIndexes table) fun _ _ ↦ rfl

theorem decodeRows (h : Beside shared store twin) (document : TableDocument) (schema : Schema) :
    twin.decodeRows document schema = store.decodeRows document schema :=
  h.answer (·.decodeRows document schema) fun _ _ ↦ rfl

theorem decodeAt (h : Beside shared store twin) (document : TableDocument) (schema : Schema)
    (position : Nat) :
    twin.decodeAt table document schema position = store.decodeAt table document schema position :=
  h.answer (·.decodeAt table document schema position) fun _ _ ↦ rfl

theorem readIndex (h : Beside shared store twin) (table column : String) :
    twin.readIndex table column = store.readIndex table column :=
  h.answer (·.readIndex table column) fun _ _ ↦ rfl

theorem withFiles (h : Beside shared store twin) (files : FileSystem) :
    Beside shared { store with files } { twin with files } where
  files := rfl
  config := h.config
  same := h.same
  tidy := h.tidy

theorem remembering (h : Beside shared store twin) (htable : isName table = true)
    (hcolumn : isName column = true) (tree : BTree) :
    Beside shared (store.remembering table column tree) (twin.remembering table column tree) where
  files := h.files
  config := h.config
  same key hkey := by rw [Store.lookup_remembering, Store.lookup_remembering, h.same key hkey]
  tidy := h.tidy.imp (·.remembering htable hcolumn tree) (·.remembering htable hcolumn tree)

theorem forget (h : Beside shared store twin) (dropped : String × String → Bool) :
    Beside shared { store with cache := store.cache.filter fun entry ↦ !dropped entry.1 }
      { twin with cache := twin.cache.filter fun entry ↦ !dropped entry.1 } where
  files := h.files
  config := h.config
  same key hkey := by
    rw [Store.lookup_forget, Store.lookup_forget, h.same key hkey]
  tidy := h.tidy.imp (·.forget dropped) (·.forget dropped)

end Beside

end

namespace Follows

variable {R R' M M' : Store → Store → Prop} {α β : Type}

theorem mono {op : Operation α} (hR : ∀ {store twin}, R store twin → M store twin)
    (h : Follows M M' op) (hM : ∀ {store twin}, M' store twin → R' store twin) :
    Follows R R' op :=
  fun store twin hstores ↦ (h store twin (hR hstores)).imp id hM

theorem pure (a : α) : Follows R R (Pure.pure a : Operation α) := fun _ _ h ↦ ⟨rfl, h⟩

theorem ask {question : Store → Except Error α}
    (h : ∀ {store twin}, R store twin → question twin = question store) :
    Follows R R (Operation.ask question) :=
  fun _ _ hR ↦ ⟨h hR, hR⟩

theorem ofResult (result : Except Error α) : Follows R R (Operation.ofResult result) :=
  ask fun _ ↦ rfl

theorem bind {op : Operation α} {f : α → Operation β} (h : Follows R R op)
    (hR : ∀ {store twin}, R store twin → R' store twin)
    (hf : ∀ a, (∃ store twin, R store twin ∧ (op.run store).1 = .ok a) → Follows R R' (f a)) :
    Follows R R' (op >>= f) := by
  intro store twin hstores
  obtain ⟨hresult, hafter⟩ := h store twin hstores
  rw [Operation.run_bind, Operation.run_bind]
  rcases hrun : op.run store with ⟨r, store'⟩
  rcases hrun' : op.run twin with ⟨r', twin'⟩
  rw [hrun, hrun'] at hresult hafter
  obtain rfl : r' = r := hresult
  cases r' with
  | error e => exact ⟨rfl, hR hafter⟩
  | ok a => exact hf a ⟨store, twin, hstores, congrArg Prod.fst hrun⟩ store' twin' hafter

theorem forM {xs : List α} {f : α → Operation Unit} (hf : ∀ x ∈ xs, Follows R R (f x)) :
    Follows R R (xs.forM f) := by
  induction xs with
  | nil => exact pure ()
  | cons x xs ih =>
    obtain ⟨hfirst, hrest⟩ := List.forall_mem_cons.mp hf
    exact bind hfirst id fun _ _ ↦ ih hrest

theorem mapM {xs : List α} {f : α → Operation β} (hf : ∀ x, Follows R R (f x)) :
    Follows R R (xs.mapM f) := by
  induction xs with
  | nil => exact pure []
  | cons x xs ih =>
    rw [List.mapM_cons]
    exact bind (hf x) id fun _ _ ↦ bind ih id fun _ _ ↦ pure _

theorem get_bind {f : Store → Operation β}
    (h : ∀ {store twin}, R store twin → f twin = f store) (hf : ∀ store, Follows R R' (f store)) :
    Follows R R' (get >>= f) := by
  intro store twin hstores
  rw [Operation.run_bind, Operation.run_bind, Operation.run_get, Operation.run_get]
  simp only [h hstores]
  exact hf store store twin hstores

section

variable {shared : String × String → Prop}

theorem changeFiles (path : Path) (change : FileSystem → Except FileSystem.Fault FileSystem) :
    Follows (Beside shared) (Beside shared) (Operation.changeFiles path change) := by
  intro store twin h
  rw [Operation.run_changeFiles, Operation.run_changeFiles, h.files]
  cases change store.files with
  | error fault => exact ⟨rfl, h⟩
  | ok files => exact ⟨rfl, h.withFiles files⟩

theorem writeTable (document : TableDocument) :
    Follows (Beside shared) (Beside shared) (Operation.writeTable document) := by
  refine get_bind (fun h ↦ ?_) fun store ↦ changeFiles _ _
  rw [Store.tablePath, h.config]
  rfl

theorem writeIndex (table column : String) (tree : BTree) :
    Follows (Beside shared) (Beside shared) (Operation.writeIndex table column tree) := by
  refine get_bind (fun h ↦ ?_) fun store ↦ changeFiles _ _
  rw [Store.indexPath, h.config]
  rfl

theorem removeIndexFile (table column : String) :
    Follows (Beside shared) (Beside shared) (Operation.removeIndexFile table column) := by
  refine get_bind (fun h ↦ ?_) fun store ↦ changeFiles _ _
  rw [Store.indexPath, h.config]
  rfl

theorem remember {table column : String} (htable : isName table = true)
    (hcolumn : isName column = true) (tree : BTree) :
    Follows (Beside shared) (Beside shared) (Operation.remember table column tree) :=
  fun _ _ h ↦ ⟨rfl, h.remembering htable hcolumn tree⟩

theorem forget (dropped : String × String → Bool) :
    Follows (Beside shared) (Beside shared) (Operation.forget dropped) :=
  fun _ _ h ↦ ⟨rfl, h.forget dropped⟩

theorem createTable (table : String) (schema : Schema) :
    Follows (Beside shared) (Beside shared) (Operation.createTable table schema) := by
  refine bind (ofResult _) id fun _ _ ↦ bind (ofResult _) id fun _ _ ↦ ?_
  refine bind (ask fun h ↦ ?_) id fun _ _ ↦ writeTable _
  obtain ⟨cache, rfl⟩ := h.exists_cache
  rfl

theorem dropTable (table : String) :
    Follows (Beside shared) (Beside shared) (Operation.dropTable table) := by
  refine bind (ask fun h ↦ h.checkTable table) id fun _ _ ↦ ?_
  refine bind (ask fun h ↦ h.listIndexes table) id fun columns _ ↦ ?_
  refine bind (forM fun column _ ↦ removeIndexFile table column) id fun _ _ ↦ ?_
  refine bind (forget _) id fun _ _ ↦ get_bind (fun h ↦ ?_) fun store ↦ changeFiles _ _
  rw [Store.tablePath, h.config]
  rfl

/-- An index that both keep in memory, or that neither does, is the same for both. -/
theorem index {table : String} (htable : isName table = true) (column : String) :
    Follows (SameIndexes table) (SameIndexes table) (Operation.index table column) := by
  intro store twin h
  rw [Operation.run_index, Operation.run_index, h.same (table, column) rfl, h.readIndex]
  cases hcolumn : Store.checkName column with
  | error e => exact ⟨rfl, h⟩
  | ok _ =>
    have hcolumn' := Contents.checkName_eq_ok.mp hcolumn
    cases store.cache.lookup (table, column) with
    | some tree => exact ⟨rfl, h⟩
    | none =>
      cases store.readIndex table column with
      | error e => exact ⟨rfl, h⟩
      | ok tree => exact ⟨rfl, h.remembering htable hcolumn' tree⟩

theorem changeIndex {table : String} (htable : isName table = true) (column : String)
    (change : BTree → Except BTree.Fault BTree) :
    Follows (SameIndexes table) (SameIndexes table)
      (Operation.changeIndex table column change) := by
  refine bind (index htable column) id fun tree hindex ↦ ?_
  refine bind (ofResult _) id fun tree' _ ↦ ?_
  have hcolumn : isName column = true := by
    obtain ⟨store, -, -, hrun⟩ := hindex
    obtain ⟨store', hrun'⟩ := Operation.exists_run_eq_ok hrun
    obtain ⟨⟨⟩, hcolumn, -⟩ := Operation.run_ask_bind_eq_ok.mp hrun'
    exact Contents.checkName_eq_ok.mp hcolumn
  exact bind (remember htable hcolumn tree') id fun _ _ ↦ writeIndex table column tree'

end

end Follows

end TableStore
