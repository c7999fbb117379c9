import Mathlib.Order.Defs.Unbundled
import TableStore.Proofs.Store.Quiet

namespace TableStore

/-- An operation that leaves the store in a relation to what it was. -/
def Moves (R : Store → Store → Prop) {α : Type} (op : Operation α) : Prop :=
  ∀ store : Store, R store (op.run store).2

namespace Moves

variable {R : Store → Store → Prop} [IsPreorder Store R] {α β : Type}

theorem pure (a : α) : Moves R (Pure.pure a : Operation α) := fun store ↦ refl_of R store

theorem ask (question : Store → Except Error α) : Moves R (Operation.ask question) :=
  fun store ↦ refl_of R store

theorem ofResult (result : Except Error α) : Moves R (Operation.ofResult result) := ask _

theorem get : Moves R (MonadState.get : Operation Store) := fun store ↦ refl_of R store

theorem bind_run {op : Operation α} {f : α → Operation β} (h : Moves R op)
    (hf : ∀ {store a store'}, op.run store = (.ok a, store') → R store' ((f a).run store').2) :
    Moves R (op >>= f) := by
  intro store
  have hfirst := h store
  rw [Operation.run_bind]
  rcases hrun : op.run store with ⟨r, store'⟩
  rw [hrun] at hfirst
  cases r with
  | error e => exact hfirst
  | ok a => exact trans_of R hfirst (hf hrun)

theorem bind {op : Operation α} {f : α → Operation β} (h : Moves R op) (hf : ∀ a, Moves R (f a)) :
    Moves R (op >>= f) :=
  bind_run h fun {_ a store'} _ ↦ hf a store'

theorem mapM {xs : List α} {f : α → Operation β} (hf : ∀ x, Moves R (f x)) : Moves R (xs.mapM f) := by
  induction xs with
  | nil => exact pure []
  | cons x xs ih =>
    rw [List.mapM_cons]
    exact bind (hf x) fun y ↦ bind ih fun ys ↦ pure _

theorem forM {xs : List α} {f : α → Operation Unit} (hf : ∀ x, Moves R (f x)) :
    Moves R (xs.forM f) := by
  induction xs with
  | nil => exact pure ()
  | cons x xs ih => exact bind (hf x) fun _ ↦ ih

theorem indexEntry {table column : String} (h : Moves R (Operation.index table column)) (row : Row) :
    Moves R (Operation.indexEntry table row column) :=
  bind (ofResult _) fun _ ↦ bind h fun _ ↦ pure _

theorem indexMove {table column : String} (h : Moves R (Operation.index table column))
    (old new : Row) : Moves R (Operation.indexMove table old new column) :=
  bind (ofResult _) fun _ ↦ bind (ofResult _) fun _ ↦ bind h fun _ ↦ pure _

end Moves

end TableStore
