import TableStore.Proofs.BTree.RoundTrip
import TableStore.Proofs.Directories
import TableStore.Proofs.Store.RowChange

namespace TableStore

open FileSystem (Leads Location IsFileName Furnishes)
open Store (tableFile indexFile isName isName_of_eq_true isFileName_tableFile isFileName_indexFile)

/-- A document that a store has written for a table. -/
structure TableDocument.Belongs (document : TableDocument) (table : String) : Prop where
  name : document.name = table
  columns : ∀ column ∈ document.columns, isName column.name = true
  records : ∀ record ∈ document.records, record.Stored

/-- A text that a store writes into a file with this name. -/
structure OwnText (file text : String) : Prop where
  tree : ∀ table column, isName table = true → isName column = true →
    file = indexFile table column → ∃ tree : BTree, tree.Proper ∧ text = tree.text
  document : ∀ table, isName table = true → file = tableFile table →
    ∃ document : TableDocument, document.Belongs table ∧ text = document.text

def Tended (files : FileSystem) (home : Location) : Prop :=
  ∀ file text, files.entryAt? home file = some (.text text) → OwnText file text

/-- A store over directories in which only stores have written. -/
structure Store.Sturdy (homes : List Location) (store : Store) : Prop where
  config : store.config.fault? = none
  home : ∃ home ∈ homes, store.Stands home
  tended : ∀ home ∈ homes, Tended store.files home
  cache : ∀ {table column tree}, isName table = true → isName column = true →
    store.cache.lookup (table, column) = some tree → tree.Proper

section

variable {files files' : FileSystem} {homes : List Location} {home moved : Location}
  {store : Store} {table column file text : String} {tree : BTree} {schema : Schema}

theorem ownText_tree (htree : tree.Proper) :
    OwnText (indexFile table column) tree.text where
  tree _ _ _ _ _ := ⟨tree, htree, rfl⟩
  document _ hother heq :=
    absurd heq.symm (Store.tableFile_ne_indexFile (isName_of_eq_true hother).noDot)

theorem ownText_document {document : TableDocument} (htable : isName table = true)
    (h : document.Belongs table) :
    OwnText (tableFile table) document.text where
  tree _ _ _ _ heq := absurd heq (Store.tableFile_ne_indexFile (isName_of_eq_true htable).noDot)
  document _ _ heq := ⟨document, Store.tableFile_inj heq ▸ h, rfl⟩

namespace Tended

theorem put (h : Tended files home) (htext : OwnText file text) :
    Tended (files.put (moved ++ [file]) (.text text)) home := by
  intro other text' hentry
  rw [FileSystem.entryAt?, FileSystem.lookup_entries_put] at hentry
  split at hentry
  · rename_i hplace
    obtain ⟨-, heq⟩ := List.append_inj' hplace rfl
    obtain rfl := List.singleton_inj.mp heq
    cases hentry
    exact htext
  · exact h other text' hentry

theorem remove (h : Tended files home) : Tended (files.remove moved) home := by
  intro file text hentry
  rw [FileSystem.entryAt?, FileSystem.lookup_entries_remove] at hentry
  split at hentry
  · cases hentry
  · exact h file text hentry

theorem furnish (h : Tended files home) (hfurnishes : Furnishes files files') :
    Tended files' home :=
  fun file text hentry ↦ h file text (hfurnishes.texts _ _ hentry)

end Tended

theorem FileSystem.entryAt?_of_read (hleads : Leads files store.config.rootPath home)
    (hfile : IsFileName file) (h : files.read (store.config.rootPath.join file) = .ok text) :
    files.entryAt? home file = some (.text text) := by
  rw [FileSystem.read, hleads.find_join hfile] at h
  cases hreach : FileSystem.reach store.config.rootPath file with
  | error fault => simp [hreach] at h
  | ok _ =>
    cases hentry : files.entryAt? home file with
    | none => simp [hreach, hentry] at h
    | some entry => cases entry <;> simp_all

namespace Store.Sturdy

theorem document (h : store.Sturdy homes) {document : TableDocument}
    (hdocument : store.document table = .ok (document, schema)) :
    isName table = true ∧ document.Belongs table ∧ schema.columns = document.columns := by
  obtain ⟨home, hhome, hstands⟩ := h.home
  obtain ⟨⟨⟩, hname, hdocument⟩ := bind_eq_ok.mp hdocument
  obtain ⟨⟨⟩, -, hdocument⟩ := bind_eq_ok.mp hdocument
  obtain ⟨text, hread, hdocument⟩ := bind_eq_ok.mp hdocument
  have htable := Contents.checkName_eq_ok.mp hname
  have hentry := FileSystem.entryAt?_of_read hstands
    (isFileName_tableFile (isName_of_eq_true htable)) (mapError_eq_ok.mp hread)
  obtain ⟨own, hown, rfl⟩ := (h.tended home hhome _ _ hentry).document table htable rfl
  simp only [Store.tableOfText, TableDocument.ofText?_text hown.records] at hdocument
  split at hdocument
  · cases hdocument
  · rename_i hschema
    cases hdocument
    exact ⟨htable, hown, Schema.columns_of_ofColumns hschema⟩

theorem readIndex (h : store.Sturdy homes) (htable : isName table = true)
    (hcolumn : isName column = true) (hread : store.readIndex table column = .ok tree) :
    tree.Proper := by
  obtain ⟨home, hhome, hstands⟩ := h.home
  obtain ⟨⟨⟩, -, hread⟩ := bind_eq_ok.mp hread
  obtain ⟨text, htext, hread⟩ := bind_eq_ok.mp hread
  have hentry := FileSystem.entryAt?_of_read hstands
    (isFileName_indexFile (isName_of_eq_true htable) (isName_of_eq_true hcolumn))
    (mapError_eq_ok.mp htext)
  obtain ⟨own, hown, rfl⟩ := (h.tended home hhome _ _ hentry).tree table column htable hcolumn rfl
  rw [Store.treeOfText, BTree.ofText?_text_eq hown.degree_lt] at hread
  split at hread
  · cases hread
  · rename_i found hfound
    split at hfound
    · obtain rfl := Option.some.inj hfound
      split at hread
      · cases hread
      · exact Except.ok.inj hread ▸ hown
    · cases hfound

theorem remembering (h : store.Sturdy homes)
    (htree : isName table = true → isName column = true → tree.Proper) :
    (store.remembering table column tree).Sturdy homes := by
  refine ⟨h.config, h.home, h.tended, fun {other column' tree'} hother hcolumn' hcached ↦ ?_⟩
  rw [Store.lookup_remembering] at hcached
  split at hcached
  · rename_i hkey
    obtain ⟨rfl, rfl⟩ := Prod.mk.inj hkey
    exact Option.some.inj hcached ▸ htree hother hcolumn'
  · exact h.cache hother hcolumn' hcached

theorem write (h : store.Sturdy homes) (hfile : IsFileName file) (htext : OwnText file text) :
    ((Operation.write (store.config.rootPath.join file) text).run store).2.Sturdy homes := by
  obtain ⟨home, hhome, hstands⟩ := h.home
  rcases Operation.run_write_or hstands hfile text with ⟨e, hrun⟩ | ⟨-, hdirectory, hrun⟩
  · rw [hrun]
    exact h
  · rw [hrun]
    have hstands' : Leads (store.files.put (home ++ [file]) (.text text)) store.config.rootPath home :=
      hstands.of_lookup_eq hdirectory fun location hne ↦ FileSystem.lookup_put location _ hne
    exact ⟨h.config, ⟨home, hhome, hstands'⟩, fun other hother ↦ (h.tended other hother).put htext,
      h.cache⟩

theorem removeFile (h : store.Sturdy homes) (path : Path) :
    ((Operation.removeFile path).run store).2.Sturdy homes := by
  rw [Operation.removeFile, Operation.run_changeFiles]
  cases hremove : store.files.removeFile path with
  | error fault => exact h
  | ok files =>
    obtain ⟨home, hhome, hstands⟩ := h.home
    have hleads := (FileSystem.sameDirectories_removeFile hremove).leads hstands
    obtain ⟨found, -, hremove⟩ := bind_eq_ok.mp hremove
    obtain ⟨⟨⟩, -, hremove⟩ := bind_eq_ok.mp hremove
    obtain rfl := Except.ok.inj hremove
    exact ⟨h.config, ⟨home, hhome, hleads⟩, fun other hother ↦ (h.tended other hother).remove,
      h.cache⟩

end Store.Sturdy

end

end TableStore
