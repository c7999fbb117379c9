import TableStore.Store.Rows
import TableStore.Store.Scan

namespace TableStore

namespace Operation

variable {α β : Type} {store store' : Store}

theorem run_bind (op : Operation α) (f : α → Operation β) (store : Store) :
    (op >>= f).run store = match op.run store with
      | (.ok a, store') => (f a).run store'
      | (.error e, store') => (.error e, store') := by
  rw [ExceptT.run_bind]
  simp only [Bind.bind, StateT.bind]
  rcases op.run store with ⟨r, store'⟩
  cases r <;> rfl

theorem run_ask (question : Store → Except Error α) (store : Store) :
    (ask question).run store = (question store, store) := rfl

theorem run_get (store : Store) : (get : Operation Store).run store = (.ok store, store) := rfl

theorem run_bind_eq_ok {op : Operation α} {f : α → Operation β} {b : β} :
    (op >>= f).run store = (.ok b, store') ↔
      ∃ a middle, op.run store = (.ok a, middle) ∧ (f a).run middle = (.ok b, store') := by
  rw [run_bind]
  rcases op.run store with ⟨r, middle⟩
  cases r with
  | error e =>
    constructor
    · intro h
      cases (Prod.mk.inj h).1
    · rintro ⟨a, middle', heq, -⟩
      cases (Prod.mk.inj heq).1
  | ok a =>
    constructor
    · exact fun h ↦ ⟨a, middle, rfl, h⟩
    · rintro ⟨a', middle', heq, h⟩
      obtain ⟨ha, rfl⟩ := Prod.mk.inj heq
      obtain rfl := Except.ok.inj ha
      exact h

theorem run_ask_bind_eq_ok {question : Store → Except Error α} {f : α → Operation β} {b : β} :
    (ask question >>= f).run store = (.ok b, store') ↔
      ∃ a, question store = .ok a ∧ (f a).run store = (.ok b, store') := by
  rw [run_bind_eq_ok]
  constructor
  · rintro ⟨a, middle, hasked, hrun⟩
    obtain ⟨ha, rfl⟩ := Prod.mk.inj hasked
    exact ⟨a, ha, hrun⟩
  · rintro ⟨a, ha, hrun⟩
    exact ⟨a, store, by rw [run_ask, ha], hrun⟩

theorem run_ask_bind_of_ok {question : Store → Except Error α} {a : α} (f : α → Operation β)
    (h : question store = .ok a) : (ask question >>= f).run store = (f a).run store := by
  rw [run_bind, run_ask, h]

theorem run_ask_bind_of_error {question : Store → Except Error α} {e : Error} (f : α → Operation β)
    (h : question store = .error e) : (ask question >>= f).run store = (.error e, store) := by
  rw [run_bind, run_ask, h]

theorem exists_run_eq_ok {op : Operation α} {a : α} (h : (op.run store).1 = .ok a) :
    ∃ store', op.run store = (.ok a, store') :=
  ⟨(op.run store).2, Prod.ext h rfl⟩

end Operation

/-- An operation that leaves the files and the settings as they are. It may keep indexes in memory. -/
def Quiet {α : Type} (op : Operation α) : Prop :=
  ∀ store : Store, (op.run store).2.files = store.files ∧ (op.run store).2.config = store.config

namespace Quiet

variable {α β : Type}

theorem pure (a : α) : Quiet (Pure.pure a : Operation α) := fun _ ↦ ⟨rfl, rfl⟩

theorem ask (question : Store → Except Error α) : Quiet (Operation.ask question) :=
  fun _ ↦ ⟨rfl, rfl⟩

theorem ofResult (result : Except Error α) : Quiet (Operation.ofResult result) := ask _

theorem get : Quiet (MonadState.get : Operation Store) := fun _ ↦ ⟨rfl, rfl⟩

theorem remember (table column : String) (tree : BTree) :
    Quiet (Operation.remember table column tree) :=
  fun _ ↦ ⟨rfl, rfl⟩

theorem of_run {op : Operation α} {store store' : Store} {r : Except Error α} (h : Quiet op)
    (hrun : op.run store = (r, store')) :
    store'.files = store.files ∧ store'.config = store.config := by
  have hquiet := h store
  rwa [hrun] at hquiet

theorem bind {op : Operation α} {f : α → Operation β} (h : Quiet op) (hf : ∀ a, Quiet (f a)) :
    Quiet (op >>= f) := by
  intro store
  obtain ⟨hfiles, hconfig⟩ := h store
  rw [Operation.run_bind]
  rcases hrun : op.run store with ⟨r, store'⟩
  rw [hrun] at hfiles hconfig
  cases r with
  | error e => exact ⟨hfiles, hconfig⟩
  | ok a =>
    obtain ⟨hfiles', hconfig'⟩ := hf a store'
    exact ⟨hfiles'.trans hfiles, hconfig'.trans hconfig⟩

theorem mapM {xs : List α} {f : α → Operation β} (hf : ∀ x, Quiet (f x)) : Quiet (xs.mapM f) := by
  induction xs with
  | nil => exact pure []
  | cons x xs ih =>
    rw [List.mapM_cons]
    apply bind (hf x)
    intro y
    exact bind ih fun ys ↦ pure _

theorem index (table column : String) : Quiet (Operation.index table column) := by
  apply bind (ofResult _)
  rintro ⟨⟩
  apply bind get
  intro store
  cases store.cache.lookup (table, column) with
  | some tree => exact pure tree
  | none =>
    apply bind (ask _)
    intro tree
    exact bind (remember table column tree) fun _ ↦ pure tree

theorem indexEntry (table : String) (row : Row) (column : String) :
    Quiet (Operation.indexEntry table row column) := by
  apply bind (ofResult _)
  intro key
  exact bind (index table column) fun _ ↦ pure _

theorem indexMove (table : String) (old new : Row) (column : String) :
    Quiet (Operation.indexMove table old new column) := by
  apply bind (ofResult _)
  intro oldKey
  apply bind (ofResult _)
  intro newKey
  exact bind (index table column) fun _ ↦ pure _

theorem candidates (table : String) (plan : ScanPlan) : Quiet (Operation.candidates table plan) := by
  cases plan with
  | full => exact pure _
  | index column low high => exact bind (index table column) fun _ ↦ pure _

theorem scan (table : String) (predicate : Predicate) : Quiet (Operation.scan table predicate) := by
  apply bind (ask _)
  rintro ⟨document, schema⟩
  apply bind (ask _)
  intro rows
  apply bind get
  intro store
  exact bind (candidates table _) fun _ ↦ ofResult _

theorem query (table : String) (predicate : Predicate) : Quiet (Operation.query table predicate) :=
  bind (scan table predicate) fun _ ↦ pure _

end Quiet

end TableStore
