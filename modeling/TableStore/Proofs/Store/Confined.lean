import TableStore.Proofs.Store.Steps

namespace TableStore

open FileSystem (reach Leads Location IsFileName)
open Store (tableFile indexFile isName isName_of_eq_true isFileName_tableFile isFileName_indexFile)

/-- The path of the store leads to a directory. -/
def Store.Stands (store : Store) (home : Location) : Prop :=
  Leads store.files store.config.rootPath home

/-- A store that differs from another in some files of its directory only. -/
structure Store.Differs (home : Location) (own : String → Prop) (before after : Store) : Prop where
  config : after.config = before.config
  stands : after.Stands home
  same : ∀ location, (∀ file, own file → location ≠ home ++ [file]) →
    after.files.lookup location = before.files.lookup location

def Store.IsIndexFile (table file : String) : Prop := ∃ column, file = indexFile table column

/-- The file of a table, or of an index over one of its columns. -/
def Store.IsOwnFile (table file : String) : Prop :=
  file = tableFile table ∨ Store.IsIndexFile table file

/-- An operation that changes some files of the directory only, whether it succeeds or fails. -/
def Confined (own : String → Prop) {α : Type} (op : Operation α) : Prop :=
  ∀ (store : Store) (home : Location), store.Stands home →
    Store.Differs home own store (op.run store).2

section

variable {home : Location} {own : String → Prop} {before middle after store store' : Store}
  {table column file : String}

namespace Store.Differs

theorem of_files_eq (h : before.Stands home) (hfiles : after.files = before.files)
    (hconfig : after.config = before.config) : Differs home own before after := by
  refine ⟨hconfig, ?_, fun _ _ ↦ by rw [hfiles]⟩
  rwa [Stands, hfiles, hconfig]

theorem trans (h : Differs home own before middle) (h' : Differs home own middle after) :
    Differs home own before after where
  config := h'.config.trans h.config
  stands := h'.stands
  same location hother := (h'.same location hother).trans (h.same location hother)

theorem mono {own' : String → Prop} (h : Differs home own before after)
    (hown : ∀ file, own file → own' file) : Differs home own' before after where
  config := h.config
  stands := h.stands
  same location hother := h.same location fun file hfile ↦ hother file (hown file hfile)

end Store.Differs

/-- A file of the directory is written as a whole, or nothing is changed. -/
theorem Operation.run_write_or (h : store.Stands home) (hfile : IsFileName file) (text : String) :
    (∃ e, (write (store.config.rootPath.join file) text).run store = (.error e, store)) ∨
      reach store.config.rootPath file = .ok () ∧
        store.files.isDirectory (home ++ [file]) = false ∧
        (write (store.config.rootPath.join file) text).run store =
          (.ok (), { store with files := store.files.put (home ++ [file]) (.text text) }) := by
  rw [write, run_changeFiles, FileSystem.write, Leads.target_join h hfile]
  cases reach store.config.rootPath file with
  | error fault => exact .inl ⟨_, rfl⟩
  | ok _ =>
    cases store.files.isDirectory (home ++ [file]) with
    | true => exact .inl ⟨_, rfl⟩
    | false => exact .inr ⟨rfl, rfl, rfl⟩

theorem Store.Differs.put (h : store.Stands home) (hown : own file)
    (hdirectory : store.files.isDirectory (home ++ [file]) = false) (text : String) :
    Differs home own store
      { store with files := store.files.put (home ++ [file]) (.text text) } where
  config := rfl
  stands := Leads.of_lookup_eq h hdirectory fun location hne ↦ FileSystem.lookup_put location _ hne
  same location hother := FileSystem.lookup_put location _ (hother file hown)

namespace Confined

variable {α β : Type}

theorem of_quiet {op : Operation α} (h : Quiet op) : Confined own op := by
  intro store home hstands
  exact .of_files_eq hstands (h store).1 (h store).2

theorem mono {own' : String → Prop} {op : Operation α} (h : Confined own op)
    (hown : ∀ file, own file → own' file) : Confined own' op :=
  fun store home hstands ↦ (h store home hstands).mono hown

theorem of_run {op : Operation α} {r : Except Error α} (h : Confined own op)
    (hstands : store.Stands home) (hrun : op.run store = (r, store')) :
    Store.Differs home own store store' := by
  have hdiffers := h store home hstands
  rwa [hrun] at hdiffers

theorem bind {op : Operation α} {f : α → Operation β} (h : Confined own op)
    (hf : ∀ {store a store'}, op.run store = (.ok a, store') → Confined own (f a)) :
    Confined own (op >>= f) := by
  intro store home hstands
  have hfirst := h store home hstands
  rw [Operation.run_bind]
  rcases hrun : op.run store with ⟨r, middle⟩
  rw [hrun] at hfirst
  cases r with
  | error e => exact hfirst
  | ok a => exact hfirst.trans (hf hrun middle home hfirst.stands)

theorem forM {xs : List α} {f : α → Operation Unit} (hf : ∀ x, Confined own (f x)) :
    Confined own (xs.forM f) := by
  induction xs with
  | nil => exact of_quiet (Quiet.pure ())
  | cons x xs ih => exact bind (hf x) fun _ ↦ ih

theorem write (hfile : IsFileName file) {op : Operation Unit} {text : Store → String}
    (hop : ∀ store : Store, op.run store =
      (Operation.write (store.config.rootPath.join file) (text store)).run store) :
    Confined (· = file) op := by
  intro store home hstands
  rw [hop]
  rcases Operation.run_write_or hstands hfile (text store) with ⟨e, hrun⟩ | ⟨-, hdirectory, hrun⟩
  · refine .of_files_eq hstands ?_ ?_ <;> exact congrArg _ (congrArg Prod.snd hrun)
  · rw [hrun]
    refine .put hstands ?_ hdirectory (text store)
    rfl

theorem writeTable {document : TableDocument} (htable : isName document.name = true) :
    Confined (· = tableFile document.name) (Operation.writeTable document) :=
  write (isFileName_tableFile (isName_of_eq_true htable)) (Operation.run_writeTable document)

theorem writeIndex (htable : isName table = true) (hcolumn : isName column = true)
    (tree : BTree) : Confined (· = indexFile table column) (Operation.writeIndex table column tree) :=
  write (isFileName_indexFile (isName_of_eq_true htable) (isName_of_eq_true hcolumn))
    (Operation.run_writeIndex table column tree)

theorem createTable (htable : isName table = true) (schema : Schema) :
    Confined (· = tableFile table) (Operation.createTable table schema) := by
  refine bind (of_quiet (Quiet.ofResult _)) fun _ ↦ bind (of_quiet (Quiet.ofResult _)) fun _ ↦ ?_
  refine bind (of_quiet (Quiet.ask _)) fun _ ↦ ?_
  exact @writeTable (.new table schema) htable

theorem createIndex (htable : isName table = true) (hcolumn : isName column = true) :
    Confined (· = indexFile table column) (Operation.createIndex table column) := by
  refine bind (of_quiet (Quiet.ask _)) fun _ ↦ bind (of_quiet (Quiet.ofResult _)) fun _ ↦ ?_
  refine bind (of_quiet (Quiet.ask _)) fun _ ↦ bind (of_quiet (Quiet.ask _)) fun {_ tree _} _ ↦ ?_
  exact bind (writeIndex htable hcolumn tree) fun _ ↦ of_quiet (Quiet.remember table column tree)

theorem changeIndex (htable : isName table = true) (column : String)
    (change : BTree → Except BTree.Fault BTree) :
    Confined (Store.IsIndexFile table) (Operation.changeIndex table column change) := by
  refine bind (of_quiet (Quiet.index table column)) fun {store tree store'} hindex ↦ ?_
  obtain ⟨⟨⟩, hcolumn, -⟩ := Operation.run_ask_bind_eq_ok.mp hindex
  have hcolumn' := Contents.checkName_eq_ok.mp hcolumn
  refine bind (of_quiet (Quiet.ofResult _)) fun {_ tree' _} _ ↦ ?_
  refine bind (of_quiet (Quiet.remember table column tree')) fun _ ↦ ?_
  exact mono (writeIndex htable hcolumn' tree') fun _ hfile ↦ ⟨column, hfile⟩

end Confined

end

end TableStore
