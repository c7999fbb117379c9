import TableStore.Proofs.Store.RowChange
import TableStore.Proofs.Store.Stocked

namespace TableStore

open FileSystem (Location)

/-- The first of some rows that has an id. -/
def Row.first? (id : Int64) (rows : List Row) : Option Row :=
  rows.find? fun row ↦ row.get? "Id" = some (.int id)

theorem Row.find?_hasId (id : Int64) (rows : List Row) :
    rows.find? (Store.hasId id) = Row.first? id rows := by
  have hsame : Store.hasId id = fun row : Row ↦ decide (row.get? "Id" = some (.int id)) := by
    funext row
    exact decide_eq_decide.mpr (@Row.key?_eq_some "Id" row id)
  rw [hsame, Row.first?]

variable {config : Config} {home : Location} {contents contents' : Contents} {name : String}
  {table : Table} {store : Store} {change : RowChange}

theorem Answers.read (hc : contents.Consistent) (htable : contents name = some table)
    (hindex : (table.indexes.lookup "Id").isSome = true) (id : Int64) :
    Answers config home contents (Operation.read name id) (.ok (Row.first? id table.rows)) := by
  obtain ⟨tree, htree⟩ := Option.isSome_iff_exists.mp hindex
  have hindexes := (hc.tables htable).indexes _ (mem_of_lookup htree)
  have hfound : contents.indexOf name "Id" = .ok tree := by
    apply Contents.indexOf_of_some (by decide)
    rw [Contents.index?_of_some htable, htree]
  have hcontains : Answers config home contents (Operation.onTree (tree.contains id))
      (.ok (decide (id ∈ tree.keys))) := by
    rw [hindexes.proper.toSound.contains]
    exact Answers.ofResult _
  apply Runs.bind_ok (Answers.ask fun store hstore ↦ hstore.document_eq hc htable)
  apply Runs.bind_ok (hfound ▸ Answers.index (hc.named htable) "Id")
  apply Runs.bind_ok hcontains
  by_cases hmem : id ∈ tree.keys
  · rw [if_pos (decide_eq_true hmem), ← Row.find?_hasId]
    apply Runs.bind_ok (Answers.ask fun store _ ↦ Holds.decodeRows table (hc.tables htable) store name)
    exact Answers.pure _
  · have hnone : Row.first? id table.rows = none := by
      apply List.find?_eq_none.mpr
      intro row hrow hid
      exact hmem (hindexes.mem_keys_iff.mpr ⟨row, hrow, of_decide_eq_true hid⟩)
    rw [if_neg (by simpa using hmem), hnone]
    exact Answers.pure _

namespace RowChange

def next (change : RowChange) (contents : Contents) (name : String) : Except Error Contents :=
  match change with
  | .insert row => contents.insert name row
  | .update position row => contents.update name position row
  | .delete position => contents.delete name position

theorem carries (hc : contents.Consistent) (change : RowChange) (name : String) :
    Carries config home contents (change.operation name) (change.next contents name) := by
  cases change with
  | insert row => exact .insert hc name row
  | update position row => exact .update hc name position row
  | delete position => exact .delete hc name position

theorem consistent_next (hc : contents.Consistent) (h : change.next contents name = .ok contents') :
    contents'.Consistent := by
  cases change with
  | insert row => exact hc.insert h
  | update position row => exact hc.update h
  | delete position => exact hc.delete h

theorem next_eq_ok (htable : contents name = some table)
    (h : change.next contents name = .ok contents') :
    ∃ edits, contents' = contents.set name
      (table.change (change.onRows table.schema table.rows) edits) := by
  cases change with
  | insert row =>
    obtain ⟨found, record, hfound, -, rfl⟩ := Contents.insert_eq_ok h
    obtain rfl := Option.some.inj ((Contents.table_eq_ok.mp hfound).2.symm.trans htable)
    exact ⟨_, rfl⟩
  | update position row =>
    obtain ⟨found, old, record, hfound, -, -, rfl⟩ := Contents.update_eq_ok h
    obtain rfl := Option.some.inj ((Contents.table_eq_ok.mp hfound).2.symm.trans htable)
    exact ⟨_, rfl⟩
  | delete position =>
    obtain ⟨found, old, hfound, -, rfl⟩ := Contents.delete_eq_ok h
    obtain rfl := Option.some.inj ((Contents.table_eq_ok.mp hfound).2.symm.trans htable)
    exact ⟨_, rfl⟩

end RowChange

namespace Reachable

/-- With an index over its ids, a table gives for an id the first row that has it, and nothing if no
row has it. So it does when rows were changed, whether the change was made or refused. -/
theorem read_eq_first? (h : Reachable store) (hindex : store.hasIndex name "Id" = true) :
    ∃ schema rows, store.rows name = .ok (schema, rows) ∧
      (∀ id, ((Operation.read name id).run store).1 = .ok (Row.first? id rows)) ∧
      ∀ (change : RowChange) result after, (change.operation name).run store = (result, after) →
        ∃ rows', after.rows name = .ok (schema, rows') ∧
          (result = .ok () → rows' = change.onRows schema rows) ∧
          (∀ e, result = .error e → rows' = rows) ∧
          ∀ id, ((Operation.read name id).run after).1 = .ok (Row.first? id rows') := by
  obtain ⟨config, home, contents, -, hc, hstore⟩ := h.sane
  rw [hstore.hasIndex hc] at hindex
  obtain ⟨tree, htree⟩ := Option.isSome_iff_exists.mp hindex
  obtain ⟨table, htable, hlookup⟩ := Option.bind_eq_some_iff.mp htree
  have hname := hc.named htable
  have hindexed : (table.indexes.lookup "Id").isSome = true := by rw [hlookup]; rfl
  refine ⟨table.schema, table.rows, (hstore.holdsRows hc htable).rows_eq hname,
    fun id ↦ (Answers.read hc htable hindexed id store hstore).1, fun change result after hrun ↦ ?_⟩
  obtain ⟨hresult, hafter⟩ := (change.carries hc name).runs store hstore
  rw [hrun] at hresult hafter
  cases hnext : change.next contents name with
  | error e =>
    rw [hnext] at hresult hafter
    obtain rfl : result = .error e := hresult
    exact ⟨table.rows, (hafter.holdsRows hc htable).rows_eq hname, nofun, fun _ _ ↦ rfl,
      fun id ↦ (Answers.read hc htable hindexed id after hafter).1⟩
  | ok contents' =>
    rw [hnext] at hresult hafter
    obtain rfl : result = .ok () := hresult
    have hc' := change.consistent_next hc hnext
    obtain ⟨edits, rfl⟩ := change.next_eq_ok htable hnext
    have htable' := Contents.set_self contents name
      (table.change (change.onRows table.schema table.rows) edits)
    have hindexed' : ((table.change (change.onRows table.schema table.rows) edits).indexes.lookup
        "Id").isSome = true := by
      rw [Table.change, Table.lookup_edit, hlookup]
      rfl
    refine ⟨_, (hafter.holdsRows hc' htable').rows_eq hname, fun _ ↦ rfl, fun e he ↦ ?_,
      fun id ↦ (Answers.read hc' htable' hindexed' id after hafter).1⟩
    cases he

theorem read_eq_first?_twice : ∃ store after, Reachable store ∧ store.hasIndex "t" "Id" = true ∧
    store.rows "t" = .ok (numbered, [numberedRow 7 1]) ∧
    ((RowChange.insert (numberedRow 7 2)).operation "t").run store = (.ok (), after) ∧
    after.rows "t" = .ok (numbered, [numberedRow 7 1, numberedRow 7 2]) ∧
    ((Operation.read "t" 7).run after).1 = .ok (some (numberedRow 7 1)) ∧
    ((Operation.read "t" 8).run after).1 = .ok none := by
  obtain ⟨store, hstore⟩ := Stocked.numbered [(7, 1)]
  have hkeys : ∀ column ∈ ["Id"], ∃ key, (numberedRow 7 2).get? column = some (.int key) :=
    fun column hcolumn ↦ ⟨7, by rw [List.mem_singleton.mp hcolumn]; rfl⟩
  obtain ⟨after, hrun, -⟩ := hstore.insert (keeps_numberedRow 7 2).encoded hkeys
  have hindex := hstore.hasIndex (show "Id" ∈ ["Id"] by decide)
  obtain ⟨schema, rows, hfound, -, hchanged⟩ := read_eq_first? hstore.1 hindex
  obtain ⟨rfl, rfl⟩ := Prod.mk.inj (Except.ok.inj (hstore.rows_eq.symm.trans hfound))
  obtain ⟨rows', hafter, hok, -, hread⟩ := hchanged (.insert (numberedRow 7 2)) _ _ hrun
  obtain rfl := hok rfl
  exact ⟨store, after, hstore.1, hindex, hfound, hrun, hafter, hread 7, hread 8⟩

end Reachable

end TableStore
