import TableStore.Proofs.BTree.Query
import TableStore.Proofs.Hint
import TableStore.Proofs.Store.Steps

namespace TableStore

open FileSystem (Location)
open Store (isName)

variable {config : Config} {home : Location} {contents contents' : Contents} {name : String}
    {table : Table}

theorem Runs.get_bind {α : Type} {f : Store → Operation α} {op : Operation α}
    {result : Except Error α} (h : ∀ store, Holds config home contents store → f store = op)
    (hop : Runs config home contents op result contents') :
    Runs config home contents (get >>= f) result contents' := by
  intro store hstore
  rw [Operation.run_bind, Operation.run_get]
  simp only [h store hstore]
  exact hop store hstore

theorem Holds.plan {store : Store} (h : Holds config home contents store) (hc : contents.Consistent)
    (htable : contents name = some table) (hint : Option IndexHint) :
    store.plan name hint = table.plan hint := by
  cases hint with
  | none => rfl
  | some hint =>
    have hindex : store.hasIndex name hint.column = (table.indexes.lookup hint.column).isSome := by
      rw [h.hasIndex hc, Contents.index?_of_some htable]
    rw [Store.plan, hindex]
    rfl

theorem Answers.candidates (hc : contents.Consistent) (htable : contents name = some table)
    (hint : Option IndexHint) :
    Answers config home contents (Operation.candidates name (table.plan hint))
      (.ok (table.isCandidate (table.plan hint))) := by
  cases hplan : table.plan hint with
  | full => exact Answers.pure _
  | index column low high =>
    have hsome : (table.indexes.lookup column).isSome = true := by
      cases hint with
      | none => cases hplan
      | some hint =>
        rw [Table.plan] at hplan
        split at hplan
        · rename_i hsome
          split at hplan
          · cases hplan
            exact hsome
          · cases hplan
        · cases hplan
    obtain ⟨tree, htree⟩ := Option.isSome_iff_exists.mp hsome
    have hindexed : contents.index? name column = some tree := by
      rw [Contents.index?_of_some htable, htree]
    have hindex := @Answers.index config home contents name (hc.named htable) column
    rw [Contents.indexOf_of_some (hc.isName_column hindexed).2 hindexed] at hindex
    rw [Operation.candidates, Table.isCandidate, htree]
    exact Runs.bind_ok hindex (Answers.pure _)

theorem Answers.scan (hc : contents.Consistent) (name : String) (predicate : Predicate) :
    Answers config home contents (Operation.scan name predicate) (contents.scan name predicate) := by
  rw [Operation.scan, Contents.scan]
  apply Answers.bind (Answers.ask fun store hstore ↦ hstore.document hc name)
  intro table htable
  have htable' := (Contents.table_eq_ok.mp htable).2
  apply Runs.bind_ok
    (Answers.ask fun store _ ↦ Holds.decodeRows table (hc.tables htable') store name)
  apply Runs.get_bind
  · intro store hstore
    rw [hstore.plan hc htable' predicate.hint]
  · exact Runs.bind_ok (Answers.candidates hc htable' predicate.hint) (Answers.ofResult _)

theorem Answers.query (hc : contents.Consistent) (name : String) (predicate : Predicate) :
    Answers config home contents (Operation.query name predicate)
      ((contents.scan name predicate).map fun found ↦ found.map Prod.snd) := by
  rw [Operation.query]
  cases hscan : contents.scan name predicate with
  | error e => exact Runs.bind_error (hscan ▸ Answers.scan hc name predicate)
  | ok found => exact Runs.bind_ok (hscan ▸ Answers.scan hc name predicate) (Answers.pure _)

namespace Table

variable {predicate : Predicate}

theorem Consistent.range_eq (h : table.Consistent) {column : String} {tree : BTree}
    (htree : table.indexes.lookup column = some tree) {row : Row} (hrow : row ∈ table.rows)
    (low high : Int64) :
    ∃ key, row.get? column = some (.int key) ∧
      (key ∈ tree.range low high ↔ low ≤ key ∧ key ≤ high) := by
  have hindexes := h.indexes _ (mem_of_lookup htree)
  obtain ⟨key, hkey⟩ := hindexes.total row hrow
  refine ⟨key, hkey, ?_⟩
  have hmem : key ∈ tree.keys := hindexes.mem_keys_iff.mpr ⟨row, hrow, hkey⟩
  rw [hindexes.proper.toSound.range_eq_filter, List.mem_filter]
  simp [hmem]

/-- A row that a plan leaves out is one that the predicate does not accept. -/
theorem Consistent.accepts_of_not_candidate (h : table.Consistent)
    (hpredicate : predicate.HintHolds) {row : Row} (hrow : row ∈ table.rows)
    (hnot : table.isCandidate (table.plan predicate.hint) row = false) :
    predicate.accepts row = .ok false := by
  cases hhint : predicate.hint with
  | none =>
    rw [hhint] at hnot
    cases hnot
  | some hint =>
    rw [hhint, plan] at hnot
    cases htree : table.indexes.lookup hint.column with
    | none => simp [htree, isCandidate] at hnot
    | some tree =>
      cases hrange : hint.comparison.keyRange? hint.value with
      | none => simp [htree, hrange, isCandidate] at hnot
      | some range =>
        obtain ⟨low, high⟩ := range
        obtain ⟨key, hkey, hin⟩ := h.range_eq htree hrow low high
        rw [hpredicate hhint hkey]
        simp only [htree, hrange, Option.isSome_some, if_true, isCandidate, Option.map_some,
          Option.getD_some, Operation.holdsKey, hkey, Option.bind_some, Value.int?, Option.any_some,
          decide_eq_false_iff_not] at hnot
        congr 1
        rw [← Bool.not_eq_true, hint.comparison.holds_iff]
        rintro ⟨low', high', hrange', hbounds⟩
        rw [hrange] at hrange'
        obtain ⟨rfl, rfl⟩ := Prod.mk.inj (Option.some.inj hrange')
        exact hnot (hin.mpr hbounds)

end Table

theorem filterRows_eq_full {ε : Type} {isCandidate : Row → Bool} {accepts : Row → Except ε Bool}
    {rows : List Row} (h : ∀ row ∈ rows, isCandidate row = false → accepts row = .ok false)
    (position : Nat) :
    Operation.filterRows isCandidate accepts position rows =
      Operation.filterRows (fun _ ↦ true) accepts position rows := by
  induction rows generalizing position with
  | nil => rfl
  | cons row rows ih =>
    have hrest := ih (fun other hother ↦ h other (List.mem_cons_of_mem _ hother)) (position + 1)
    rw [Operation.filterRows, Operation.filterRows, hrest]
    cases hcandidate : isCandidate row with
    | true => rfl
    | false =>
      rw [h row (by simp) hcandidate]
      simp

theorem filterRows_mapError {ε ε' : Type} (isCandidate : Row → Bool) (accepts : Row → Except ε Bool)
    (f : ε → ε') (position : Nat) (rows : List Row) :
    Operation.filterRows isCandidate (fun row ↦ (accepts row).mapError f) position rows =
      (Operation.filterRows isCandidate accepts position rows).mapError f := by
  induction rows generalizing position with
  | nil => rfl
  | cons row rows ih =>
    rw [Operation.filterRows, Operation.filterRows]
    split
    · cases accepts row with
      | error e => rfl
      | ok b =>
        rw [mapError_ok, ok_bind, ok_bind, ih]
        cases Operation.filterRows isCandidate accepts (position + 1) rows <;> rfl
    · exact ih (position + 1)

/-- A filter finds the rows that a condition is true of, with their positions, if it can judge all
rows. Else it fails as the condition does on the first row that it cannot judge. -/
theorem filterRows_eq {ε : Type} (accepts : Row → Except ε Bool) (position : Nat) (rows : List Row) :
    Operation.filterRows (fun _ ↦ true) accepts position rows =
      (rows.mapM accepts).map fun _ ↦ ((rows.zipIdx position).filter fun entry ↦
        (accepts entry.1).toOption = some true).map Prod.swap := by
  induction rows generalizing position with
  | nil => rfl
  | cons row rows ih =>
    rw [Operation.filterRows, if_pos rfl, List.mapM_cons, ih]
    cases haccepts : accepts row with
    | error e => rfl
    | ok b =>
      rw [ok_bind, ok_bind, List.zipIdx_cons]
      cases rows.mapM accepts with
      | error e => rfl
      | ok judged => cases b <;> simp [haccepts, Except.toOption]

theorem map_filterRows {ε : Type} (accepts : Row → Except ε Bool) (position : Nat)
    (rows : List Row) :
    (Operation.filterRows (fun _ ↦ true) accepts position rows).map (fun found ↦ found.map Prod.snd) =
      (rows.mapM accepts).map fun _ ↦ rows.filter fun row ↦ (accepts row).toOption = some true := by
  have hrows : (((rows.zipIdx position).filter fun entry ↦
      (accepts entry.1).toOption = some true).map Prod.swap).map Prod.snd =
        rows.filter fun row ↦ (accepts row).toOption = some true := by
    rw [List.map_map, ← List.zipIdx_map_fst position rows, List.filter_map, List.zipIdx_map_fst]
    rfl
  rw [filterRows_eq]
  cases rows.mapM accepts with
  | error e => rfl
  | ok judged => rw [map_ok, map_ok, map_ok, hrows]

theorem Contents.Consistent.scan_eq (hc : contents.Consistent) (name : String)
    {predicate : Predicate} (h : predicate.HintHolds) :
    contents.scan name predicate = contents.scan name { predicate with hint := none } := by
  rw [Contents.scan, Contents.scan]
  cases htable : contents.table name with
  | error e => rfl
  | ok table =>
    have htable' := hc.tables (Contents.table_eq_ok.mp htable).2
    rw [ok_bind, ok_bind,
      filterRows_eq_full fun row hrow hnot ↦ htable'.accepts_of_not_candidate h hrow hnot]
    rfl

theorem Contents.Consistent.scan_eq_filterRows (hc : contents.Consistent)
    (htable : contents name = some table) {predicate : Predicate} (h : predicate.HintHolds) :
    contents.scan name predicate =
      Operation.filterRows (fun _ ↦ true) predicate.accepts 0 table.rows := by
  rw [hc.scan_eq name h, Contents.scan, hc.table_eq_ok.mpr htable]
  rfl

theorem Contents.Consistent.scan_ofExpr (hc : contents.Consistent)
    (htable : contents name = some table) (e : Expr) : contents.scan name (.ofExpr e) =
      (Operation.filterRows (fun _ ↦ true) e.evaluate 0 table.rows).mapError .condition := by
  rw [hc.scan_eq_filterRows htable (Predicate.ofExpr_hintHolds e), ← filterRows_mapError]
  rfl

end TableStore
