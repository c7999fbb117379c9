import TableStore.Proofs.Store.Grown

namespace TableStore

open FileSystem (Location)
open Store (tableFile indexFile isName)

/-- A store without a file and without an index in memory that could be taken for one of a table. -/
structure Store.Lacks (home : Location) (table : String) (store : Store) : Prop where
  files : ∀ file, Store.IsOwnFile table file → store.files.entryAt? home file = none
  cache : ∀ column, store.cache.lookup (table, column) = none
  hasIndex : ∀ column, store.hasIndex table column = false

/-- The calls that drop a table. -/
inductive Call.Drops (table : String) : Call → Prop
  | operation : Drops table (.dropTable table)
  | statement : Drops table (.run (.dropTable table))
  | text {text : String} (h : Statement.ofText text = .ok (.dropTable table)) :
    Drops table (.execute text)

/-- Stores with the same files that answer every call by names and every question alike. -/
structure Inseparable (store twin : Store) : Prop where
  files : ∀ location, twin.files.lookup location = store.files.lookup location
  calls : ∀ call : Call, call.IsNamed → call.answer twin = call.answer store
  questions : ∀ question : Question, question.answer twin = question.answer store

/-- The stores that events lead to from an empty root directory when none is about a table. -/
inductive GrownWithout (table : String) : Store → Prop
  | start {config : Config} {files files' : FileSystem} {store : Store}
      (hstart : Store.start config files = (.ok store, files'))
      (hempty : files'.list config.rootPath = .ok []) : GrownWithout table store
  | event {store : Store} (h : GrownWithout table store) {event : Event}
      (hfits : event.Fits store.config.root) (hother : event.table? ≠ some table) :
      GrownWithout table (event.after store)

/-- Whatever comes next, the store cannot be told from one whose past has nothing about the table. -/
def Store.NeverHad (table : String) (store : Store) : Prop :=
  ∃ twin, GrownWithout table twin ∧ ∀ later : List Event,
    (∀ event ∈ later, event.Fits store.config.root) →
      Inseparable (later.foldl Event.after store) (later.foldl Event.after twin)

section

variable {home : Location} {store twin : Store} {table column : String}

theorem Call.Drops.table?_eq {call : Call} (h : call.Drops table) : call.table? = some table := by
  cases h with
  | operation => rfl
  | statement => rfl
  | text hparse =>
    rw [Call.table?, hparse]
    rfl

theorem Store.Orderly.lacks (h : store.Orderly home)
    (hnone : store.files.entryAt? home (tableFile table) = none) : store.Lacks home table := by
  have hfile : ∀ column, store.files.entryAt? home (indexFile table column) = none := by
    intro column
    rw [← Option.not_isSome_iff_eq_none]
    intro hsome
    obtain ⟨htable, hcolumn⟩ := h.names_of_indexFile hsome
    exact Option.not_isSome_iff_eq_none.mpr hnone (h.owned htable hcolumn hsome)
  have hcache : ∀ column, store.cache.lookup (table, column) = none := by
    intro column
    rw [← Option.not_isSome_iff_eq_none]
    intro hsome
    exact Option.not_isSome_iff_eq_none.mpr (hfile column) (h.cached hsome).2.2
  refine ⟨?_, hcache, fun column ↦ ?_⟩
  · rintro file (rfl | ⟨column, rfl⟩)
    · exact hnone
    · exact hfile column
  · rw [Store.hasIndex, hcache]
    cases htable : isName table with
    | false => rfl
    | true =>
      cases hcolumn : isName column with
      | false => rfl
      | true =>
        rw [h.isFile_index htable hcolumn, hfile]
        rfl

theorem Store.Orderly.lacks_of_tableExists (h : store.Orderly home) (htable : isName table = true)
    (habsent : store.tableExists table = false) : store.Lacks home table := by
  rw [h.tableExists_eq htable] at habsent
  exact h.lacks (Option.not_isSome_iff_eq_none.mp (by simp [habsent]))

theorem Store.Orderly.hasIndex_iff (h : store.Orderly home) (htable : isName table = true)
    (hcolumn : isName column = true) {columns : List String}
    (hcolumns : store.listIndexes table = .ok columns) :
    store.hasIndex table column = true ↔ column ∈ columns := by
  rw [h.mem_listIndexes_iff hcolumns, Store.hasIndex, htable, hcolumn, h.isFile_index htable hcolumn]
  simp only [Bool.and_self, Bool.true_and, Bool.or_eq_true, or_iff_right_iff_imp]
  exact fun hcached ↦ (h.cached hcached).2.2

theorem Store.Neat.drop (h : store.Neat home) {call : Call} (hcall : call.Drops table)
    (hexists : store.tableExists table = true) :
    (∃ result, call.answer store = .ok result) ∧ (call.after store).Lacks home table ∧
      Store.Differs home (Store.IsOwnFile table) store (call.after store) := by
  obtain ⟨columns, hcolumns, hrun⟩ := h.run_dropTable hexists
  have hown : ∀ file ∈ Store.Orderly.ownFiles table columns, Store.IsOwnFile table file := by
    intro file hfile
    rcases List.mem_append.mp hfile with hfile | hfile
    · obtain ⟨column, -, rfl⟩ := List.mem_map.mp hfile
      exact .inr ⟨column, rfl⟩
    · exact .inl (List.mem_singleton.mp hfile)
  have hafter : call.after store = ((Operation.dropTable table).run store).2 ∧
      ∃ result, call.answer store = .ok result := by
    have hstatement : (Database.run (.dropTable table)).run store =
        (.ok (.status ("Table " ++ table ++ " dropped")),
          ((Operation.dropTable table).run store).2) := by
      rw [Database.run, Database.dropTable, Operation.run_bind, hrun]
      rfl
    cases hcall with
    | operation => exact ⟨rfl, _, congrArg Prod.fst hrun⟩
    | statement => exact ⟨congrArg Prod.snd hstatement, _, congrArg Prod.fst hstatement⟩
    | text hparse =>
      rw [Call.after, Call.answer, Call.operation, Database.execute_eq_run hparse]
      exact ⟨congrArg Prod.snd hstatement, _, congrArg Prod.fst hstatement⟩
  have horderly := h.toOrderly.dropTable table
  rw [hafter.1]
  rw [hrun] at horderly ⊢
  refine ⟨hafter.2, horderly.lacks ?_, rfl, horderly.rooted.leads, fun location hother ↦ ?_⟩
  · rw [FileSystem.entryAt?_removeAll, if_pos (by simp [Store.Orderly.ownFiles])]
  · exact FileSystem.lookup_removeAll fun file hfile ↦ hother file (hown file hfile)

theorem Agree.of_lacks (h : Agree home (· ≠ table) store twin) (hstore : store.Lacks home table)
    (htwin : twin.Lacks home table) : Agree home (fun _ ↦ True) store twin where
  config := h.config
  rooted := h.rooted
  rooted' := h.rooted'
  files location _ := by
    by_cases hplace : Store.IsOwnPlace home table location
    · obtain ⟨-, file, hfile, rfl⟩ := hplace
      exact (htwin.files file hfile).trans (hstore.files file hfile).symm
    · exact h.files location fun other hother heq ↦ hplace (heq ▸ hother)
  cache key _ := by
    by_cases hkey : key.1 = table
    · obtain ⟨_, column⟩ := key
      obtain rfl : _ = table := hkey
      rw [htwin.cache, hstore.cache]
    · exact h.cache key hkey

theorem Agree.inseparable (h : Agree home (fun _ ↦ True) store twin) (hstore : store.Neat home) :
    Inseparable store twin where
  files location := by
    rw [FileSystem.lookup, FileSystem.lookup, h.files location fun _ _ ↦ trivial]
  calls call hnamed := by
    cases htable : call.table? with
    | some other => exact (h.call hstore trivial htable hnamed).1
    | none =>
      obtain ⟨e, hrun⟩ := Call.run_of_table?_eq_none htable
      rw [Call.answer, Call.answer, hrun, hrun]
  questions question := h.question trivial
    (Store.listIndexes_of_entryAt? h.config h.rooted h.rooted' fun column ↦ h.files _ fun _ _ ↦ trivial)

theorem Event.tableExists_after {event : Event} (h : store.Neat home)
    (hfits : event.Fits store.config.root) (hother : event.table? ≠ some table) :
    (event.after store).tableExists table = store.tableExists table := by
  cases event with
  | call made =>
    cases hmade : made.table? with
    | some other =>
      have hne : table ≠ other := fun heq ↦ hother (heq ▸ hmade)
      exact (h.others_unchanged hmade hfits).tableExists hne
    | none =>
      obtain ⟨e, hrun⟩ := Call.run_of_table?_eq_none hmade
      rw [Event.after, Call.after, hrun]
  | reopen config =>
    have hpath := Config.rootPath_of_root hfits
    rw [Event.after_reopen h.rooted hfits]
    split
    · rw [Store.tableExists, Store.tablePath, hpath, Store.tableExists, Store.tablePath]
    · rfl

/-- With a store goes one that has the same other tables, and has come about without any event that
was about this one. -/
theorem Grown.exists_without (h : Grown store) (table : String) : ∃ home twin,
    GrownWithout table twin ∧ store.Neat home ∧ twin.Neat home ∧ Agree home (· ≠ table) store twin ∧
      twin.tableExists table = false := by
  induction h with
  | @start config files files' store hstart hempty =>
    obtain ⟨home, hneat⟩ := Store.neat_of_start hstart hempty
    refine ⟨home, store, .start hstart hempty, hneat, hneat, .refl hneat.rooted, ?_⟩
    exact Store.tableExists_of_start hstart hempty table
  | @event store _ event hfits ih =>
    obtain ⟨home, twin, hwithout, hstore, htwin, hagree, habsent⟩ := ih
    have hafter := Event.after_neat hstore hfits
    by_cases habout : event.table? = some table
    · have hframe := (Event.others_unchanged hstore habout hfits).symm
      exact ⟨home, twin, hwithout, hafter, htwin, hframe.trans hagree, habsent⟩
    · have hfits' : event.Fits twin.config.root := hagree.config ▸ hfits
      refine ⟨home, event.after twin, hwithout.event hfits' habout, hafter,
        Event.after_neat htwin hfits', hagree.event hstore htwin hfits, ?_⟩
      rwa [Event.tableExists_after htwin hfits' habout]

theorem Grown.neverHad (h : Grown store) (htable : isName table = true)
    (habsent : store.tableExists table = false) : store.NeverHad table := by
  obtain ⟨home, twin, hwithout, hstore, htwin, hagree, habsent'⟩ := h.exists_without table
  have hall := hagree.of_lacks (hstore.lacks_of_tableExists htable habsent)
    (htwin.lacks_of_tableExists htable habsent')
  refine ⟨twin, hwithout, fun later hfits ↦ ?_⟩
  obtain ⟨hneat, hagree'⟩ := hall.events hstore htwin hfits
  exact hagree'.inseparable hneat

/-- Dropping a table takes away its file, those of its indexes and no other, and its indexes in memory.
The indexes of a table are those that are listed, and a name without a table has none, in the directory
or in memory. No later event shows whether there had ever been a table of that name. -/
theorem Grown.dropped_traceless (h : Grown store) : ∃ home, store.Stands home ∧
    (∀ table call, Call.Drops table call → store.tableExists table = true →
      (∃ result, call.answer store = .ok result) ∧
        Store.Differs home (Store.IsOwnFile table) store (call.after store) ∧
          (call.after store).Lacks home table ∧ (call.after store).NeverHad table) ∧
    (∀ table, store.files.entryAt? home (tableFile table) = none →
      store.Lacks home table ∧ (isName table = true → store.NeverHad table)) ∧
    ∀ table column, isName table = true → isName column = true →
      ∃ columns, store.listIndexes table = .ok columns ∧
        (store.hasIndex table column = true ↔ column ∈ columns) := by
  obtain ⟨home, hstore⟩ := h.neat
  refine ⟨home, hstore.rooted.leads, fun table call hcall hexists ↦ ?_,
    fun table hnone ↦ ⟨hstore.lacks hnone, fun htable ↦ h.neverHad htable ?_⟩,
    fun table column htable hcolumn ↦ ?_⟩
  · obtain ⟨hanswer, hlacks, hdiffers⟩ := hstore.drop hcall hexists
    have htable : isName table = true := (Bool.and_eq_true_iff.mp hexists).1
    have hnamed := Call.isNamed_of_table? hcall.table?_eq htable
    refine ⟨hanswer, hdiffers, hlacks, (h.call hnamed).neverHad htable ?_⟩
    rw [(hstore.after hnamed).tableExists_eq htable, hlacks.files _ (.inl rfl)]
    rfl
  · rw [hstore.tableExists_eq htable, hnone]
    rfl
  · obtain ⟨columns, hcolumns⟩ := hstore.exists_listIndexes table
    exact ⟨columns, hcolumns, hstore.hasIndex_iff htable hcolumn hcolumns⟩

theorem Store.tableExists_of_rowCount {count : Nat} (h : store.rowCount table = .ok count) :
    store.tableExists table = true := by
  obtain ⟨found, hdocument, -⟩ := bind_eq_ok.mp h
  obtain ⟨⟨⟩, hname, hdocument⟩ := bind_eq_ok.mp hdocument
  obtain ⟨⟨⟩, hfile, -⟩ := bind_eq_ok.mp hdocument
  rw [Store.tableExists, Contents.checkName_eq_ok.mp hname, ensure_eq_ok.mp hfile, Bool.and_self]

theorem Grown.dropped_traceless_indexed : Grown Reachable.ByNames.indexed ∧
    Reachable.ByNames.indexed.tableExists "t" = true ∧
    (Reachable.ByNames.indexed.cache.lookup ("t", "n")).isSome = true ∧
    ∃ home, ((Call.run (.dropTable "t")).after Reachable.ByNames.indexed).Lacks home "t" ∧
      ((Call.run (.dropTable "t")).after Reachable.ByNames.indexed).NeverHad "t" := by
  have hgrown : Grown Reachable.ByNames.indexed := by
    refine Grown.opened.calls ?_
    rintro call (_ | ⟨_, _ | ⟨_, ⟨⟩⟩⟩) <;> trivial
  obtain ⟨-, hcount, hcached⟩ := Reachable.ByNames.indexed_eq
  have hexists := Store.tableExists_of_rowCount (toOption_eq_some.mp hcount)
  obtain ⟨home, -, hdropped, -⟩ := Grown.dropped_traceless hgrown
  obtain ⟨-, -, hlacks, hnever⟩ := hdropped "t" _ .statement hexists
  exact ⟨hgrown, hexists, hcached, home, hlacks, hnever⟩

end

end TableStore
