import TableStore.Proofs.Store.Holds
import TableStore.Proofs.Store.Quiet

namespace TableStore

open FileSystem (reach Location)
open Store (tableFile indexFile isName isName_of_eq_true isFileName_tableFile isFileName_indexFile)

/-- On every store that holds the tables, an operation gives the result and leaves the tables. -/
def Runs (config : Config) (home : Location) (contents : Contents) {α : Type} (op : Operation α)
    (result : Except Error α) (contents' : Contents) : Prop :=
  ∀ store, Holds config home contents store →
    (op.run store).1 = result ∧ Holds config home contents' (op.run store).2

/-- An operation that gives a result and leaves the tables as they are. -/
abbrev Answers (config : Config) (home : Location) (contents : Contents) {α : Type}
    (op : Operation α)
    (result : Except Error α) : Prop :=
  Runs config home contents op result contents

/-- An operation that either makes a change of the tables or fails. If it fails it changes no file. -/
structure Carries (config : Config) (home : Location) (contents : Contents) (op : Operation Unit)
    (next : Except Error Contents) : Prop where
  runs : Runs config home contents op (next.map fun _ ↦ ()) (next.toOption.getD contents)
  leaves : ∀ e, next = .error e → ∀ store, Holds config home contents store →
    (op.run store).2.files = store.files

section

variable {config : Config} {home : Location} {contents contents' contents'' : Contents}
    {α β γ : Type}

theorem Runs.bind_ok {op : Operation α} {a : α} {f : α → Operation β} {result : Except Error β}
    (h : Runs config home contents op (.ok a) contents')
    (hf : Runs config home contents' (f a) result contents'') :
    Runs config home contents (op >>= f) result contents'' := by
  intro store hstore
  obtain ⟨hresult, hstore'⟩ := h store hstore
  rw [Operation.run_bind]
  rcases hrun : op.run store with ⟨r, store'⟩
  rw [hrun] at hresult hstore'
  obtain rfl : r = .ok a := hresult
  exact hf store' hstore'

theorem Runs.bind_error {op : Operation α} {e : Error} {f : α → Operation β}
    (h : Runs config home contents op (.error e) contents') :
    Runs config home contents (op >>= f) (.error e) contents' := by
  intro store hstore
  obtain ⟨hresult, hstore'⟩ := h store hstore
  rw [Operation.run_bind]
  rcases hrun : op.run store with ⟨r, store'⟩
  rw [hrun] at hresult hstore'
  obtain rfl : r = .error e := hresult
  exact ⟨rfl, hstore'⟩

theorem Answers.ask {question : Store → Except Error α} {result : Except Error α}
    (h : ∀ store, Holds config home contents store → question store = result) :
    Answers config home contents (Operation.ask question) result :=
  fun store hstore ↦ ⟨h store hstore, hstore⟩

theorem Answers.ofResult (result : Except Error α) :
    Answers config home contents (Operation.ofResult result) result :=
  Answers.ask fun _ _ ↦ rfl

theorem Runs.ofResult_bind {r : Except Error α} {a : α} {f : α → Operation β}
    {result : Except Error β} (h : r = .ok a)
    (hf : Runs config home contents (f a) result contents') :
    Runs config home contents (Operation.ofResult r >>= f) result contents' :=
  Runs.bind_ok (h ▸ Answers.ofResult r) hf

theorem Answers.pure (a : α) : Answers config home contents (Pure.pure a : Operation α) (.ok a) :=
  fun _ hstore ↦ ⟨rfl, hstore⟩

theorem Answers.bind {op : Operation α} {f : α → Operation β} {k : γ → α} {result : Except Error γ}
    {g : γ → Except Error β} (h : Answers config home contents op (result.map k))
    (hf : ∀ c, result = .ok c → Answers config home contents (f (k c)) (g c)) :
    Answers config home contents (op >>= f) (result >>= g) := by
  cases result with
  | error e => exact Runs.bind_error h
  | ok c => exact Runs.bind_ok h (hf c rfl)

theorem Answers.bind_id {op : Operation α} {f : α → Operation β} {result : Except Error α}
    {g : α → Except Error β} (h : Answers config home contents op result)
    (hf : ∀ a, result = .ok a → Answers config home contents (f a) (g a)) :
    Answers config home contents (op >>= f) (result >>= g) := by
  cases result with
  | error e => exact Runs.bind_error h
  | ok a => exact Runs.bind_ok h (hf a rfl)

theorem Carries.of_runs {op : Operation Unit} (h : Runs config home contents op (.ok ()) contents') :
    Carries config home contents op (.ok contents') :=
  ⟨h, fun _ he ↦ nomatch he⟩

theorem Carries.bind_ok {op : Operation α} {a : α} {f : α → Operation Unit}
    {next : Except Error Contents} (hquiet : Quiet op) (h : Answers config home contents op (.ok a))
    (hf : Carries config home contents (f a) next) :
    Carries config home contents (op >>= f) next := by
  refine ⟨Runs.bind_ok h hf.runs, fun e he store hstore ↦ ?_⟩
  obtain ⟨hresult, hstore'⟩ := h store hstore
  have hfiles := (hquiet store).1
  rw [Operation.run_bind]
  rcases hrun : op.run store with ⟨r, store'⟩
  rw [hrun] at hresult hstore' hfiles
  obtain rfl : r = .ok a := hresult
  exact (hf.leaves e he store' hstore').trans hfiles

theorem Carries.bind_error {op : Operation α} {e : Error} {f : α → Operation Unit}
    (hquiet : Quiet op) (h : Answers config home contents op (.error e)) :
    Carries config home contents (op >>= f) (.error e) := by
  refine ⟨Runs.bind_error h, fun _ _ store hstore ↦ ?_⟩
  have hresult := (h store hstore).1
  have hfiles := (hquiet store).1
  rw [Operation.run_bind]
  rcases hrun : op.run store with ⟨r, store'⟩
  rw [hrun] at hresult hfiles
  obtain rfl : r = .error e := hresult
  exact hfiles

theorem Carries.bind {op : Operation α} {f : α → Operation Unit} {k : γ → α}
    {result : Except Error γ} {g : γ → Except Error Contents} (hquiet : Quiet op)
    (h : Answers config home contents op (result.map k))
    (hf : ∀ c, result = .ok c → Carries config home contents (f (k c)) (g c)) :
    Carries config home contents (op >>= f) (result >>= g) := by
  cases result with
  | error e => exact Carries.bind_error hquiet h
  | ok c => exact Carries.bind_ok hquiet h (hf c rfl)

theorem Carries.bind_id {op : Operation α} {f : α → Operation Unit} {result : Except Error α}
    {g : α → Except Error Contents} (hquiet : Quiet op)
    (h : Answers config home contents op result)
    (hf : ∀ a, result = .ok a → Carries config home contents (f a) (g a)) :
    Carries config home contents (op >>= f) (result >>= g) := by
  cases result with
  | error e => exact Carries.bind_error hquiet h
  | ok a => exact Carries.bind_ok hquiet h (hf a rfl)

theorem Answers.mapM {xs : List α} {f : α → Operation β} {g : α → Except Error β}
    (h : ∀ x ∈ xs, Answers config home contents (f x) (g x)) :
    Answers config home contents (xs.mapM f) (xs.mapM g) := by
  induction xs with
  | nil => exact Answers.pure []
  | cons x xs ih =>
    rw [List.mapM_cons, List.mapM_cons]
    apply Answers.bind_id (h x (by simp))
    intro y _
    apply Answers.bind_id (ih fun other hother ↦ h other (List.mem_cons_of_mem _ hother))
    exact fun ys _ ↦ Answers.pure _

end

end TableStore
