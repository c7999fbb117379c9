import TableStore.Proofs.Store.Alike
import TableStore.Proofs.Store.Reachable

namespace TableStore

open FileSystem (Location)
open Store (tableFile indexFile isName)

namespace Call

def answer (call : Call) (store : Store) : Except Error call.Result := (call.operation.run store).1

/-- Only the call for the index itself takes the name of a table as it is. All others check it. -/
def IsNamed : Call → Prop
  | .index table _ => isName table = true
  | _ => True

end Call

/-- A question about a store, which changes nothing. -/
inductive Question
  | tableExists (table : String)
  | checkTable (table : String)
  | schema (table : String)
  | rowCount (table : String)
  | plan (table : String) (hint : Option IndexHint)
  | hasIndex (table column : String)
  | listIndexes (table : String)

namespace Question

def Result : Question → Type
  | .tableExists _ | .hasIndex .. => Bool
  | .checkTable _ => Except Error Unit
  | .schema _ => Except Error Schema
  | .rowCount _ => Except Error Nat
  | .plan .. => ScanPlan
  | .listIndexes _ => Except Error (List String)

def answer (store : Store) : (question : Question) → question.Result
  | .tableExists table => store.tableExists table
  | .checkTable table => store.checkTable table
  | .schema table => store.schema table
  | .rowCount table => store.rowCount table
  | .plan table hint => store.plan table hint
  | .hasIndex table column => store.hasIndex table column
  | .listIndexes table => store.listIndexes table

end Question

/-- The store over the same directory with the same settings, and with nothing in memory. -/
def Store.reopened (store : Store) : Store := { store with cache := [] }

/-- Stores with the same files that answer everything alike, out of the same indexes. -/
structure Indistinguishable (store twin : Store) : Prop where
  files : twin.files = store.files
  answers : ∀ call : Call, call.IsNamed → call.answer twin = call.answer store
  questions : ∀ question : Question, question.answer twin = question.answer store
  indexes : ∀ key tree tree', store.cache.lookup key = some tree →
    twin.cache.lookup key = some tree' → tree' = tree

section

variable {store twin : Store}

theorem Call.follows (call : Call) (h : call.IsNamed) : Follows Alike Alike call.operation := by
  apply Follows.closed.call Follows.read Follows.dropIndex_alike Follows.tableIndex
    fun table predicate _ ↦ Follows.scan table predicate
  rintro table column rfl
  exact Follows.index_alike h column

theorem Store.tidy_of_cache_nil (h : store.cache = []) : store.Tidy := by
  intro key hsome
  rw [h] at hsome
  cases hsome

namespace Alike

theorem refl (hsane : store.Sane) (htidy : store.Tidy) : Alike store store := by
  obtain ⟨config, home, contents, hconfig, hc, hstore⟩ := hsane
  exact ⟨⟨rfl, rfl, fun _ _ ↦ rfl, htidy, htidy⟩, config, home, contents, hconfig, hc, hstore, hstore⟩

theorem after (h : Alike store twin) {call : Call} (hnamed : call.IsNamed) :
    Alike (call.after store) (call.after twin) := by
  exact (call.follows hnamed store twin h).2

theorem calls (h : Alike store twin) {calls : List Call} (hnamed : ∀ call ∈ calls, call.IsNamed) :
    Alike (calls.foldl Call.after store) (calls.foldl Call.after twin) := by
  induction calls generalizing store twin with
  | nil => exact h
  | cons call rest ih =>
    exact ih (h.after (hnamed call List.mem_cons_self)) fun other hother ↦
      hnamed other (List.mem_cons_of_mem _ hother)

theorem answer_question (h : Alike store twin) (question : Question) :
    question.answer twin = question.answer store := by
  obtain ⟨config, home, contents, -, hc, hstore, htwin⟩ := h.holds
  have hhasIndex : ∀ table column, twin.hasIndex table column = store.hasIndex table column := by
    intro table column
    rw [hstore.hasIndex hc, htwin.hasIndex hc]
  cases question with
  | plan table hint => exact h.plan table hint
  | hasIndex table column => exact hhasIndex table column
  | _ => exact h.beside.answer (Question.answer · _) fun _ _ ↦ rfl

theorem indistinguishable (h : Alike store twin) : Indistinguishable store twin where
  files := h.beside.files
  answers call hnamed := (call.follows hnamed store twin h).1
  questions := h.answer_question
  indexes := by
    rintro ⟨table, column⟩ tree tree' htree htree'
    obtain ⟨config, home, contents, -, -, hstore, htwin⟩ := h.holds
    obtain ⟨htable, hcolumn⟩ := h.beside.tidy.1 (table, column) (by rw [htree]; rfl)
    have hindex := hstore.cache htable hcolumn htree
    rw [htwin.cache htable hcolumn htree'] at hindex
    exact Option.some.inj hindex

end Alike

end

/-- The stores that calls by names lead to from an empty root directory, with reopening in between. -/
inductive Reachable.ByNames : Store → Prop
  | start {config : Config} {files files' : FileSystem} {store : Store}
      (hstart : Store.start config files = (.ok store, files'))
      (hempty : files'.list config.rootPath = .ok []) : ByNames store
  | call {store : Store} (h : ByNames store) {call : Call} (hnamed : call.IsNamed) :
    ByNames (call.after store)
  | reopen {config : Config} {store store' : Store} {files' : FileSystem} (h : ByNames store)
      (hroot : config.root = store.config.root)
      (hsize : ∀ table count, store.rowCount table = .ok count → count < Nat.pow 2 63)
      (hstart : Store.start config store.files = (.ok store', files')) : ByNames store'

namespace Reachable.ByNames

variable {store : Store}

theorem reachable (h : ByNames store) : Reachable store := by
  induction h with
  | start hstart hempty => exact .start hstart hempty
  | call _ _ ih => exact ih.call _
  | reopen _ hroot hsize hstart ih => exact ih.reopen hroot hsize hstart

theorem tidy (h : ByNames store) : store.Tidy := by
  induction h with
  | start hstart _ =>
    obtain ⟨-, -, rfl⟩ := Store.start_eq_ok hstart
    exact Store.tidy_of_cache_nil rfl
  | @call store h call hnamed ih =>
    exact ((Alike.refl h.reachable.sane ih).after hnamed).beside.tidy.1
  | reopen _ _ _ hstart _ =>
    obtain ⟨-, -, rfl⟩ := Store.start_eq_ok hstart
    exact Store.tidy_of_cache_nil rfl

/-- From a store that calls by names led to, opening the directory again with the same settings gives a
store that no calls tell apart from it. Each index in its memory is the one in the file, and each file
of the directory that is not the file of a table is that of an index which can be read. -/
theorem reopening_unobservable (h : ByNames store)
    (hsize : ∀ table count, store.rowCount table = .ok count → count < Nat.pow 2 63) :
    Store.start store.config store.files = (.ok store.reopened, store.files) ∧
    (∀ calls : List Call, (∀ call ∈ calls, call.IsNamed) →
      Indistinguishable (calls.foldl Call.after store) (calls.foldl Call.after store.reopened)) ∧
    (∀ table column tree, store.cache.lookup (table, column) = some tree →
      store.readIndex table column = .ok tree) ∧
    ∀ names, store.files.list store.config.rootPath = .ok names → ∀ file ∈ names,
      (∃ table, isName table = true ∧ file = tableFile table) ∨
        ∃ table column tree, isName table = true ∧ isName column = true ∧
          file = indexFile table column ∧ store.readIndex table column = .ok tree := by
  obtain ⟨config, home, contents, hconfig, hc, hstore⟩ := h.reachable.sane
  obtain rfl : store.config = config := hstore.settings
  have hreopened : Holds store.config home contents store.reopened := hstore.reopen hc rfl hsize
  have halike : Alike store store.reopened :=
    ⟨⟨rfl, rfl, fun _ hno ↦ hno.elim, h.tidy, Store.tidy_of_cache_nil rfl⟩,
      _, home, contents, hconfig, hc, hstore, hreopened⟩
  have hread : ∀ {table column tree}, contents.index? table column = some tree →
      store.readIndex table column = .ok tree := by
    intro table column tree htree
    obtain ⟨htable, hcolumn⟩ := hc.isName_column htree
    have hloaded : ∀ found, contents.index? table column = some found → found.Loadable := by
      intro found hfound
      exact (hreopened.loaded htable hcolumn hfound).resolve_left nofun
    rw [hstore.readIndex htable hcolumn hloaded, htree]
  refine ⟨?_, fun calls hnamed ↦ (halike.calls hnamed).indistinguishable, ?_, ?_⟩
  · rw [Store.start, hconfig, hstore.rooted.createDirectories]
    rfl
  · intro table column tree hcached
    obtain ⟨htable, hcolumn⟩ := h.tidy (table, column) (by rw [hcached]; rfl)
    exact hread (hstore.cache htable hcolumn hcached)
  · intro names hnames file hfile
    rw [hstore.rooted.list_root] at hnames
    obtain rfl := Except.ok.inj hnames
    have hentry := FileSystem.mem_names_iff.mp hfile
    rcases hstore.only hentry with ⟨table, htable, rfl⟩ | ⟨table, column, htable, hcolumn, rfl⟩
    · exact .inl ⟨table, htable, rfl⟩
    · rw [hstore.indexes htable hcolumn, Option.isSome_map] at hentry
      obtain ⟨tree, htree⟩ := Option.isSome_iff_exists.mp hentry
      exact .inr ⟨table, column, tree, htable, hcolumn, rfl, hread htree⟩

theorem calls (h : ByNames store) {calls : List Call} (hnamed : ∀ call ∈ calls, call.IsNamed) :
    ByNames (calls.foldl Call.after store) := by
  induction calls generalizing store with
  | nil => exact h
  | cons call rest ih =>
    exact ih (h.call (hnamed call List.mem_cons_self)) fun other hother ↦
      hnamed other (List.mem_cons_of_mem _ hother)

theorem tableFile_mem (h : ByNames store) {names : List String}
    (hnames : store.files.list store.config.rootPath = .ok names) {table : String} {count : Nat}
    (hcount : store.rowCount table = .ok count) : isName table = true ∧ tableFile table ∈ names := by
  obtain ⟨config, home, contents, -, hc, hstore⟩ := h.reachable.sane
  obtain rfl : store.config = config := hstore.settings
  obtain ⟨⟨document, schema⟩, hdocument, -⟩ := bind_eq_ok.mp hcount
  rw [hstore.document hc] at hdocument
  obtain ⟨found, hfound, -⟩ := map_eq_ok.mp hdocument
  obtain ⟨htable, hfound⟩ := Contents.table_eq_ok.mp hfound
  rw [hstore.rooted.list_root] at hnames
  obtain rfl := Except.ok.inj hnames
  refine ⟨htable, FileSystem.mem_names_iff.mpr ?_⟩
  rw [hstore.tables htable, hfound]
  rfl

def indexed : Store :=
  [.createTable "t" Reachable.integers, .createIndex "t" "n"].foldl Call.after Reachable.opened

theorem indexed_byNames : ByNames indexed := by
  have hstart : Store.start {} .empty = (.ok Reachable.opened, Reachable.opened.files) := rfl
  refine calls (.start hstart rfl) ?_
  rintro call (_ | ⟨_, _ | ⟨_, ⟨⟩⟩⟩) <;> trivial

theorem indexed_eq :
    (indexed.files.list indexed.config.rootPath).toOption = some [indexFile "t" "n", tableFile "t"] ∧
      (indexed.rowCount "t").toOption = some 0 ∧
      (indexed.cache.lookup ("t", "n")).isSome = true := by
  decide +kernel

theorem rowCount_indexed {table : String} {count : Nat}
    (hcount : indexed.rowCount table = .ok count) : count = 0 := by
  obtain ⟨hnames, hzero, -⟩ := indexed_eq
  obtain ⟨htable, hmem⟩ := indexed_byNames.tableFile_mem (toOption_eq_some.mp hnames) hcount
  rcases List.mem_cons.mp hmem with hindex | hmem
  · exact absurd hindex (Store.tableFile_ne_indexFile (Store.isName_of_eq_true htable).noDot)
  · obtain rfl := Store.tableFile_inj (List.mem_singleton.mp hmem)
    exact Except.ok.inj (hcount.symm.trans (toOption_eq_some.mp hzero))

/-- One store has the index in memory and the other has not, and both take rows. -/
theorem reopening_unobservable_indexed : ByNames indexed ∧
    (∀ table count, indexed.rowCount table = .ok count → count < Nat.pow 2 63) ∧
    (indexed.cache.lookup ("t", "n")).isSome = true ∧ indexed.reopened.cache = [] ∧
    ∀ rows : List Row, Indistinguishable
      ((rows.map (Call.insert "t")).foldl Call.after indexed)
      ((rows.map (Call.insert "t")).foldl Call.after indexed.reopened) := by
  have hsize : ∀ table count, indexed.rowCount table = .ok count → count < Nat.pow 2 63 := by
    intro table count hcount
    rw [rowCount_indexed hcount]
    decide
  obtain ⟨-, hcalls, -, -⟩ := reopening_unobservable indexed_byNames hsize
  refine ⟨indexed_byNames, hsize, indexed_eq.2.2, rfl, fun rows ↦ hcalls _ ?_⟩
  intro call hcall
  obtain ⟨row, -, rfl⟩ := List.mem_map.mp hcall
  trivial

end Reachable.ByNames

end TableStore
