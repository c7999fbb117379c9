import TableStore.Proofs.Store.Damage
import TableStore.Proofs.Store.Quiet

namespace TableStore

/-- An operation that leaves a property of the store standing and ends in no error of a kind. -/
def Guarded (good : Store → Prop) (kind : Error → Bool) {α : Type} (op : Operation α) : Prop :=
  ∀ store : Store, good store → good (op.run store).2 ∧ Avoids kind (op.run store).1

namespace Guarded

variable {good : Store → Prop} {kind : Error → Bool} {α β : Type}

theorem mono {kind' : Error → Bool} {op : Operation α} (h : Guarded good kind op)
    (hkind : ∀ e, kind' e = true → kind e = true) : Guarded good kind' op :=
  fun store hstore ↦ ⟨(h store hstore).1, (h store hstore).2.mono hkind⟩

theorem pure (a : α) : Guarded good kind (Pure.pure a : Operation α) := fun _ h ↦ ⟨h, .ok a⟩

theorem ask {question : Store → Except Error α}
    (hquestion : ∀ store, good store → Avoids kind (question store)) :
    Guarded good kind (Operation.ask question) :=
  fun store h ↦ ⟨h, hquestion store h⟩

theorem ofResult {result : Except Error α} (h : Avoids kind result) :
    Guarded good kind (Operation.ofResult result) :=
  ask fun _ _ ↦ h

theorem get : Guarded good kind (MonadState.get : Operation Store) := fun store h ↦ ⟨h, .ok store⟩

/-- What comes after an operation may rely on what that has found. -/
theorem bind_run {op : Operation α} {f : α → Operation β} (h : Guarded good kind op)
    (hf : ∀ {store a store'}, good store → op.run store = (.ok a, store') →
      Guarded good kind (f a)) : Guarded good kind (op >>= f) := by
  intro store hstore
  obtain ⟨hafter, havoids⟩ := h store hstore
  rw [Operation.run_bind]
  rcases hrun : op.run store with ⟨r, store'⟩
  rw [hrun] at hafter havoids
  cases r with
  | error e => exact ⟨hafter, .error (havoids e rfl)⟩
  | ok a => exact hf hstore hrun store' hafter

theorem bind {op : Operation α} {f : α → Operation β} (h : Guarded good kind op)
    (hf : ∀ a, Guarded good kind (f a)) : Guarded good kind (op >>= f) :=
  bind_run h fun {_ a _} _ _ ↦ hf a

theorem ask_bind {question : Store → Except Error α} {f : α → Operation β}
    (hquestion : ∀ store, good store → Avoids kind (question store))
    (hf : ∀ {store a}, good store → question store = .ok a → Guarded good kind (f a)) :
    Guarded good kind (Operation.ask question >>= f) :=
  bind_run (ask hquestion) fun hstore hrun ↦ hf hstore (Prod.mk.inj hrun).1

theorem mapM {xs : List α} {f : α → Operation β} (hf : ∀ x, Guarded good kind (f x)) :
    Guarded good kind (xs.mapM f) := by
  induction xs with
  | nil => exact pure []
  | cons x xs ih =>
    rw [List.mapM_cons]
    exact bind (hf x) fun _ ↦ bind ih fun _ ↦ pure _

theorem forM {xs : List α} {f : α → Operation Unit} (hf : ∀ x, Guarded good kind (f x)) :
    Guarded good kind (xs.forM f) := by
  induction xs with
  | nil => exact pure ()
  | cons x xs ih => exact bind (hf x) fun _ ↦ ih

end Guarded

end TableStore
