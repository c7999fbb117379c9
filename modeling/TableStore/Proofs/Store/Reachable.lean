import TableStore.Proofs.Store.Keeps

namespace TableStore

open FileSystem (Location Rooted)
open Store (tableFile indexFile isName)

/-- What a client asks a store to do. Questions, which change nothing, are left out. -/
inductive Call
  | execute (text : String)
  | run (statement : Statement)
  | createTable (table : String) (schema : Schema)
  | dropTable (table : String)
  | insert (table : String) (row : Row)
  | update (table : String) (position : Nat) (row : Row)
  | delete (table : String) (position : Nat)
  | read (table : String) (id : Int64)
  | scan (table : String) (predicate : Predicate)
  | query (table : String) (predicate : Predicate)
  | queryColumns (table : String) (columns : List String) (predicate : Predicate)
  | createIndex (table column : String)
  | dropIndex (table column : String)
  | tableIndex (table column : String)
  | index (table column : String)

namespace Call

def Result : Call → Type
  | .execute _ | .run _ => Outcome
  | .createTable .. | .dropTable _ | .insert .. | .update .. | .delete .. => Unit
  | .createIndex .. | .dropIndex .. => Unit
  | .read .. => Option Row
  | .scan .. => List (Nat × Row)
  | .query .. | .queryColumns .. => List Row
  | .tableIndex .. | .index .. => BTree

def operation : (call : Call) → Operation call.Result
  | .execute text => Database.execute text
  | .run statement => Database.run statement
  | .createTable table schema => Operation.createTable table schema
  | .dropTable table => Operation.dropTable table
  | .insert table row => Operation.insert table row
  | .update table position row => Operation.update table position row
  | .delete table position => Operation.delete table position
  | .read table id => Operation.read table id
  | .scan table predicate => Operation.scan table predicate
  | .query table predicate => Operation.query table predicate
  | .queryColumns table columns predicate => Operation.queryColumns table columns predicate
  | .createIndex table column => Operation.createIndex table column
  | .dropIndex table column => Operation.dropIndex table column
  | .tableIndex table column => Operation.tableIndex table column
  | .index table column => Operation.index table column

def after (store : Store) (call : Call) : Store := (call.operation.run store).2

/-- The filter that the caller gives. -/
def predicate? : Call → Option Predicate
  | .scan _ predicate | .query _ predicate | .queryColumns _ _ predicate => some predicate
  | _ => none

end Call

/-- A property of the operations that statements are made of, and of the four others, is one of every
call. The name of a table is not checked by the last of them. -/
theorem Closed.call {P : {α : Type} → Operation α → Prop} (h : Closed P) {call : Call}
    (hread : ∀ table id, P (Operation.read table id))
    (hdropIndex : ∀ table column, P (Operation.dropIndex table column))
    (htableIndex : ∀ table column, P (Operation.tableIndex table column))
    (hscan : ∀ table predicate, call.predicate? = some predicate → P (Operation.scan table predicate))
    (hindex : ∀ table column, call = .index table column → P (Operation.index table column)) :
    P call.operation := by
  cases call with
  | execute text => exact h.execute text
  | run statement => exact h.run statement
  | createTable table schema => exact h.createTable table schema
  | dropTable table => exact h.dropTable table
  | insert table row => exact h.insert table row
  | update table position row => exact h.update table position row
  | delete table position => exact h.delete table position
  | read table id => exact hread table id
  | scan table predicate => exact hscan table predicate rfl
  | query table predicate => exact (h.on table).query (hscan table predicate rfl)
  | queryColumns table columns predicate =>
    exact (h.on table).queryColumns (hscan table predicate rfl) columns
  | createIndex table column => exact h.createIndex table column
  | dropIndex table column => exact hdropIndex table column
  | tableIndex table column => exact htableIndex table column
  | index table column => exact hindex table column rfl

/-- The stores that calls lead to from an empty root directory. Such a store can be opened again with
other settings, as long as its tables have fewer rows than there are nonnegative words. -/
inductive Reachable : Store → Prop
  | start {config : Config} {files files' : FileSystem} {store : Store}
      (hstart : Store.start config files = (.ok store, files'))
      (hempty : files'.list config.rootPath = .ok []) : Reachable store
  | call {store : Store} (h : Reachable store) (call : Call) : Reachable (call.after store)
  | reopen {config : Config} {store store' : Store} {files' : FileSystem} (h : Reachable store)
      (hroot : config.root = store.config.root)
      (hsize : ∀ table count, store.rowCount table = .ok count → count < Nat.pow 2 63)
      (hstart : Store.start config store.files = (.ok store', files')) : Reachable store'

namespace Store

def rows (store : Store) (table : String) : Except Error (Schema × List Row) := do
  let (document, schema) ← store.document table
  return (schema, ← store.decodeRows document schema)

theorem start_eq_ok {config : Config} {files files' : FileSystem} {store : Store}
    (h : start config files = (.ok store, files')) : config.fault? = none ∧
      files.createDirectories config.rootPath = (files', none) ∧ store = ⟨config, files', []⟩ := by
  rw [start] at h
  split at h
  · cases h
  · rename_i hfault
    split at h
    · rename_i hfiles
      obtain ⟨hstore, rfl⟩ := Prod.mk.inj h
      exact ⟨hfault, hfiles, (Except.ok.inj hstore).symm⟩
    · cases h

end Store

namespace FileSystem

theorem rooted_of_list_nil {files : FileSystem} {root : Path} (h : files.list root = .ok []) :
    ∃ home, Rooted files root home ∧ ∀ name, files.entryAt? home name = none := by
  obtain ⟨⟨home, entry⟩, hfind, h⟩ := bind_eq_ok.mp h
  obtain ⟨⟨⟩, hentry, h⟩ := bind_eq_ok.mp h
  have hnames := Except.ok.inj h
  obtain ⟨found, hfound, hway⟩ := bind_eq_ok.mp hfind
  obtain rfl := names_eq_ok hfound
  obtain ⟨location, hwalk, hlast⟩ := bind_eq_ok.mp hway
  have hnone : ∀ name, files.entryAt? home name = none := by
    intro name
    rw [← Option.not_isSome_iff_eq_none, ← mem_names_iff, hnames]
    exact List.not_mem_nil
  cases hlookup : files.lookup location with
  | none => simp [hlookup] at hlast
  | some other =>
    rw [hlookup] at hlast
    obtain ⟨⟨⟩, -, hlast⟩ := bind_eq_ok.mp hlast
    obtain ⟨rfl, rfl⟩ := Prod.mk.inj (Except.ok.inj hlast)
    refine ⟨location, ⟨hfound, hwalk, ?_, ?_, ?_⟩, hnone⟩
    · cases other with
      | directory => exact decide_eq_true hlookup
      | text s => cases hentry
      | binary bytes => cases hentry
    · rw [hnames]
      exact List.nodup_nil
    · intro name entry' hentry'
      rw [show files.entries.lookup (location ++ [name]) = none from hnone name] at hentry'
      cases hentry'

end FileSystem

theorem Contents.consistent_none : Contents.Consistent fun _ ↦ none := by
  refine ⟨?_, ?_⟩
  · intro name table htable
    cases htable
  · intro name table htable
    cases htable

theorem Holds.empty {config : Config} {home : Location} {files : FileSystem}
    (hrooted : Rooted files config.rootPath home)
    (hnone : ∀ name, files.entryAt? home name = none) :
    Holds config home (fun _ ↦ none) ⟨config, files, []⟩ where
  rooted := hrooted
  reach hfile := by simp [hnone] at hfile
  only hfile := by simp [hnone] at hfile
  tables _ := by simp [hnone]
  indexes _ _ := by simp [hnone, Contents.index?]
  settings := rfl
  cache _ _ hcached := by simp at hcached
  loaded _ _ htree := by simp [Contents.index?] at htree

section

variable {config : Config} {home : Location} {contents : Contents} {store : Store}
    {name column : String}
  {table : Table}

theorem Holds.rowCount (h : Holds config home contents store) (hc : contents.Consistent)
    (htable : contents name = some table) : store.rowCount name = .ok table.rows.length := by
  rw [Store.rowCount, h.document_eq hc htable]
  simp [Table.document]

theorem Holds.rows (h : Holds config home contents store) (hc : contents.Consistent)
    (name : String) :
    store.rows name = (contents.table name).map fun table ↦ (table.schema, table.rows) := by
  rw [Store.rows, h.document hc]
  cases htable : contents.table name with
  | error e => rfl
  | ok table =>
    rw [map_ok, ok_bind]
    simp only [Holds.decodeRows table (hc.tables (Contents.table_eq_ok.mp htable).2) store name,
      ok_bind,
      pure_eq_ok, map_ok]

theorem Holds.loadable (h : Holds config home contents store) (hc : contents.Consistent)
    (hsize : ∀ table count, store.rowCount table = .ok count → count < Nat.pow 2 63) {tree : BTree}
    (htree : contents.index? name column = some tree) : tree.Loadable := by
  obtain ⟨table, htable, hlookup⟩ := Option.bind_eq_some_iff.mp htree
  have hindexes := (hc.tables htable).indexes _ (mem_of_lookup hlookup)
  have hcount := hsize name _ (h.rowCount hc htable)
  have hlength : tree.keys.length ≤ table.rows.length := by
    rw [hindexes.keys.length_eq]
    exact List.length_filterMap_le _ _
  exact hindexes.proper.loadable (Nat.lt_of_le_of_lt hlength hcount)

theorem Config.rootPath_of_root {config config' : Config} (h : config.root = config'.root) :
    config.rootPath = config'.rootPath := by
  rw [Config.rootPath, h, Config.rootPath]

theorem Holds.reopen {config' : Config} (h : Holds config home contents store)
    (hc : contents.Consistent) (hroot : config'.root = config.root)
    (hsize : ∀ table count, store.rowCount table = .ok count → count < Nat.pow 2 63) :
    Holds config' home contents ⟨config', store.files, []⟩ := by
  have hpath := Config.rootPath_of_root hroot
  refine ⟨⟨hpath ▸ h.rooted, hpath ▸ h.reach, h.only, h.tables, h.indexes⟩, rfl, ?_, ?_⟩
  · intro name column tree _ _ hcached
    cases hcached
  · intro name column tree _ _ htree
    exact .inr (h.loadable hc hsize htree)

end

namespace Reachable

variable {store : Store}

theorem after_sane (h : store.Sane) (call : Call) : (call.after store).Sane := by
  have hkeeps : Keeps call.operation :=
    Keeps.closed.call Keeps.read Keeps.dropIndex Keeps.tableIndex
      (fun table predicate _ ↦ Keeps.scan table predicate) fun table column _ ↦ Keeps.index table column
  exact hkeeps store h

theorem sane (h : Reachable store) : store.Sane := by
  induction h with
  | start hstart hempty =>
    obtain ⟨hfault, -, rfl⟩ := Store.start_eq_ok hstart
    obtain ⟨home, hrooted, hnone⟩ := FileSystem.rooted_of_list_nil hempty
    exact ⟨_, home, fun _ ↦ none, hfault, Contents.consistent_none, Holds.empty hrooted hnone⟩
  | call h call ih => exact after_sane ih call
  | @reopen config store store' files' h hroot hsize hstart ih =>
    obtain ⟨config', home, contents, -, hc, hstore⟩ := ih
    obtain ⟨hfault, hfiles, rfl⟩ := Store.start_eq_ok hstart
    rw [hstore.settings] at hroot
    rw [Config.rootPath_of_root hroot, hstore.rooted.createDirectories] at hfiles
    obtain rfl := (Prod.mk.inj hfiles).1
    exact ⟨config, home, contents, hfault, hc, hstore.reopen hc hroot hsize⟩

theorem calls (h : Reachable store) (calls : List Call) :
    Reachable (calls.foldl Call.after store) := by
  induction calls generalizing store with
  | nil => exact h
  | cons next rest ih =>
    apply ih
    exact .call h next

def opened : Store := ⟨{}, ⟨[(["data"], .directory)]⟩, []⟩

theorem opened_reachable : Reachable opened := by
  have hstart : Store.start {} .empty = (.ok opened, opened.files) := rfl
  exact .start hstart rfl

theorem opened_holds : ∃ home, Holds {} home (fun _ ↦ none) opened := by
  obtain ⟨home, hrooted, hnone⟩ :=
    @FileSystem.rooted_of_list_nil opened.files ({} : Config).rootPath rfl
  exact ⟨home, Holds.empty hrooted hnone⟩

def integers : Schema := ⟨[{ name := "n", type := .int }], by simp⟩

def sample : Store :=
  [.createTable "t" integers, .createIndex "t" "n", .insert "t" (Row.empty.set "n" (.int 2))].foldl
    Call.after opened

theorem sample_reachable : Reachable sample := opened_reachable.calls _

end Reachable

end TableStore
