import Mathlib.Data.List.Forall2
import TableStore.Proofs.Json.Parsed
import TableStore.Proofs.Store.Stocked

namespace TableStore

open FileSystem (Location)
open Json (Scalar)

namespace Database

/-- The truth of a condition on a row. No condition is true of every row. -/
def judge (condition : Option Expr) (row : Row) : Except ConditionFault Bool :=
  match condition with
  | none => .ok true
  | some e => e.evaluate row

/-- The rows that a condition is true of, in order. -/
def matching (condition : Option Expr) (rows : List Row) : List Row :=
  rows.filter fun row ↦ (judge condition row).toOption = some true

/-- The items that a selection means. A star means the columns in order, each under its own name. -/
inductive Means (schema : Schema) : Selection → List SelectItem → Prop
  | all : Means schema .all (schema.names.map fun name ↦ ⟨name, none⟩)
  | items (items : List SelectItem) : Means schema (.items items) items

/-- The object that items select from a row. A name that comes again keeps its first place, and the
last item of the name gives the value. -/
structure Shows (items : List SelectItem) (row : Row) (record : Record) : Prop where
  names : record.map Prod.fst = (items.map SelectItem.outputName).eraseDups
  values : ∀ front item back, items = front ++ item :: back →
    item.outputName ∉ back.map SelectItem.outputName →
    ∃ value s, row.get? item.column = some value ∧ value.encode = .ok s ∧
      record.get? item.outputName = some (.scalar s)

theorem exists_last_item {items : List SelectItem} {name : String}
    (h : name ∈ items.map SelectItem.outputName) :
    ∃ front item back, items = front ++ item :: back ∧ item.outputName = name ∧
      name ∉ back.map SelectItem.outputName := by
  induction items with
  | nil => cases h
  | cons first rest ih =>
    by_cases hrest : name ∈ rest.map SelectItem.outputName
    · obtain ⟨front, item, back, rfl, hitem⟩ := ih hrest
      exact ⟨first :: front, item, back, rfl, hitem⟩
    · exact ⟨[], first, rest, rfl, ((List.mem_cons.mp h).resolve_right hrest).symm, hrest⟩

theorem Shows.unique {items : List SelectItem} {row : Row} {record record' : Record}
    (h : Shows items row record) (h' : Shows items row record') : record = record' := by
  have hnodup : (record.map Prod.fst).Nodup := by
    have hmade := (Record.ofList_mem (items.map fun item ↦ (item.outputName, .scalar .null))).1
    rw [Record.names_ofList, List.map_map] at hmade
    rwa [h.names]
  refine Record.ext_get? hnodup (h.names.trans h'.names.symm) fun name hname ↦ ?_
  rw [h.names, List.mem_eraseDups] at hname
  obtain ⟨front, item, back, hitems, rfl, hlast⟩ := exists_last_item hname
  obtain ⟨value, s, hvalue, hs, hget⟩ := h.values front item back hitems hlast
  obtain ⟨value', s', hvalue', hs', hget'⟩ := h'.values front item back hitems hlast
  obtain rfl := Option.some.inj (hvalue.symm.trans hvalue')
  obtain rfl := Except.ok.inj (hs.symm.trans hs')
  rw [hget, hget']

/-- The objects that are given of those that were made. -/
def visible (distinct : Bool) (records : List Record) : List Record :=
  let named := records.filter fun record ↦ reservedName ∉ record.map Prod.fst
  if distinct then distinctRecords named else named

end Database

theorem Schema.Keeps.exists_cell {schema : Schema} {row : Row} (h : schema.Keeps row)
    {column : Column} (hcolumn : column ∈ schema.columns) :
    ∃ value s, row.get? column.name = some value ∧ column.encode value = .ok s := by
  obtain ⟨hcovers, hcells⟩ := Schema.exists_encodeRow_iff.mp h.encoded
  obtain ⟨value, hvalue⟩ := Option.isSome_iff_exists.mp (hcovers.2 _ (List.mem_map_of_mem hcolumn))
  obtain ⟨s, hs⟩ := hcells column hcolumn
  rw [hvalue] at hs
  exact ⟨value, s, hvalue, hs⟩

namespace Database

variable {schema : Schema} {row : Row} {items : List SelectItem} {rows : List Row}

def shownCell (row : Row) (item : SelectItem) : Scalar :=
  (((row.get? item.column).getD .null).encode).toOption.getD .null

def objectOf (items : List SelectItem) (row : Row) : Record :=
  Record.ofList (items.map fun item ↦ (item.outputName, .scalar (shownCell row item)))

theorem get?_of_keeps (hrow : schema.Keeps row) {item : SelectItem}
    (hitem : item.column ∈ schema.names) :
    ∃ value, row.get? item.column = some value ∧ value.encode = .ok (shownCell row item) := by
  obtain ⟨column, hcolumn, hname⟩ := List.mem_map.mp hitem
  obtain ⟨value, s, hvalue, hs⟩ := hrow.exists_cell hcolumn
  rw [hname] at hvalue
  have hencode := (Column.encode_eq_ok.mp hs).2
  exact ⟨value, hvalue, by rw [shownCell, hvalue, Option.getD_some, hencode]; rfl⟩

theorem project_eq_ok (hrow : schema.Keeps row)
    (hitems : ∀ item ∈ items, item.column ∈ schema.names) :
    project items row = .ok (objectOf items row) := by
  have hmembers : items.mapM (resultMember row) =
      .ok (items.map fun item ↦ (item.outputName, .scalar (shownCell row item))) := by
    rw [mapM_eq_ok, List.map_map]
    refine List.map_congr_left fun item hitem ↦ ?_
    obtain ⟨value, hvalue, hencode⟩ := get?_of_keeps hrow (hitems item hitem)
    rw [resultMember, hvalue, Option.getD_some, hencode]
    rfl
  rw [project, hmembers]
  rfl

theorem shows_objectOf (hrow : schema.Keeps row)
    (hitems : ∀ item ∈ items, item.column ∈ schema.names) :
    Shows items row (objectOf items row) := by
  refine ⟨?_, ?_⟩
  · rw [objectOf, Record.names_ofList, List.map_map]
    rfl
  · rintro front item back rfl hlast
    obtain ⟨value, hvalue, hencode⟩ := get?_of_keeps hrow (hitems item (by simp))
    refine ⟨value, shownCell row item, hvalue, hencode, ?_⟩
    have hfresh : ((back.map fun item ↦
        (item.outputName, Json.scalar (shownCell row item))).reverse).lookup item.outputName = none := by
      apply lookup_eq_none_of_not_mem
      simpa [Function.comp_def] using hlast
    rw [objectOf, Record.get?_ofList, List.map_append, List.map_cons, List.reverse_append,
      List.reverse_cons, List.lookup_append, List.lookup_append, hfresh, lookup_cons_if, if_pos rfl]
    rfl

theorem forall₂_shows (hrows : ∀ row ∈ rows, schema.Keeps row)
    (hitems : ∀ item ∈ items, item.column ∈ schema.names) :
    List.Forall₂ (Shows items) rows (rows.map (objectOf items)) := by
  rw [List.forall₂_map_right_iff, List.forall₂_same]
  exact fun row hrow ↦ shows_objectOf (hrows row hrow) hitems

theorem resultRecords_eq_ok (hrows : ∀ row ∈ rows, schema.Keeps row)
    (hitems : ∀ item ∈ items, item.column ∈ schema.names) (distinct : Bool) :
    resultRecords distinct items rows = .ok (visible distinct (rows.map (objectOf items))) := by
  have hprojected : rows.mapM (project items) = .ok (rows.map (objectOf items)) := by
    rw [mapM_eq_ok, List.map_map]
    exact List.map_congr_left fun row hrow ↦ project_eq_ok (hrows row hrow) hitems
  have hreserved : ∀ record : Record,
      (!isReserved record) = decide (reservedName ∉ record.map Prod.fst) := by
    intro record
    rw [Bool.eq_iff_iff, Bool.not_eq_true', decide_eq_true_eq, isReserved, Record.get?,
      ← Bool.not_eq_true, isSome_lookup_iff]
  rw [resultRecords, hprojected, ok_bind, visible, funext hreserved]
  rfl

end Database

section

open Database

variable {config : Config} {home : Location} {contents : Contents} {name : String} {table : Table}
  {store : Store} {schema : Schema} {selection : Selection} {condition : Option Expr}

theorem Predicate.ofCondition_hintHolds (condition : Option Expr) :
    (ofCondition condition).HintHolds := by
  cases condition with
  | none => exact fun hhint ↦ nomatch hhint
  | some e => exact ofExpr_hintHolds e

theorem Predicate.accepts_ofCondition (condition : Option Expr) :
    (ofCondition condition).accepts = fun row ↦ (judge condition row).mapError .condition := by
  cases condition <;> rfl

theorem Answers.queryCondition (hc : contents.Consistent) (htable : contents name = some table)
    (condition : Option Expr) :
    Answers config home contents (Operation.query name (.ofCondition condition))
      (((table.rows.mapM (judge condition)).mapError .condition).map fun _ ↦
        matching condition table.rows) := by
  have hquery := @Answers.query config home contents hc name (.ofCondition condition)
  rwa [hc.scan_eq_filterRows htable (Predicate.ofCondition_hintHolds condition),
    Predicate.accepts_ofCondition, filterRows_mapError, map_mapError, map_filterRows,
    ← map_mapError] at hquery

theorem Answers.select (hc : contents.Consistent) (htable : contents name = some table)
    (hitems : ∀ item ∈ items table.schema selection, item.column ∈ table.schema.names)
    (hcondition : ∀ column ∈ (condition.map Expr.columns).getD [], column ∈ table.schema.names)
    (distinct : Bool) :
    Answers config home contents (Database.select distinct selection name condition)
      (((table.rows.mapM (judge condition)).mapError .condition).map fun _ ↦ .rows
        (visible distinct ((matching condition table.rows).map
          (objectOf (items table.schema selection))))) := by
  have hkeeps : ∀ row ∈ matching condition table.rows, table.schema.Keeps row :=
    fun row hrow ↦ (hc.tables htable).rows row (List.mem_filter.mp hrow).1
  have hquery := @Answers.queryCondition config home _ _ _ hc htable condition
  apply Runs.bind_ok (Answers.ask fun store hstore ↦ hstore.schema_eq hc htable)
  apply Runs.ofResult_bind (checkColumns_eq_ok.mpr (List.forall_mem_map.mpr hitems))
  apply Runs.ofResult_bind (checkColumns_eq_ok.mpr hcondition)
  cases hjudged : table.rows.mapM (judge condition) with
  | error fault =>
    rw [hjudged] at hquery
    exact Runs.bind_error hquery
  | ok judged =>
    rw [hjudged] at hquery
    apply Runs.bind_ok hquery
    rw [resultRecords_eq_ok hkeeps hitems, mapError_ok]
    exact Runs.ofResult_bind rfl (Answers.pure _)

theorem Quiet.select (distinct : Bool) (selection : Selection) (table : String)
    (condition : Option Expr) : Quiet (Database.select distinct selection table condition) := by
  apply bind (ask _)
  intro schema
  apply bind (ofResult _)
  rintro ⟨⟩
  apply bind (ofResult _)
  rintro ⟨⟩
  apply bind (query _ _)
  intro rows
  exact bind (ofResult _) fun _ ↦ pure _

theorem Reachable.exists_select (h : Reachable store) (hschema : store.schema name = .ok schema)
    (hitems : ∀ item ∈ items schema selection, item.column ∈ schema.names)
    (hcondition : ∀ column ∈ (condition.map Expr.columns).getD [], column ∈ schema.names)
    (distinct : Bool) :
    ∃ rows store', store.rows name = .ok (schema, rows) ∧ (∀ row ∈ rows, schema.Keeps row) ∧
      (select distinct selection name condition).run store =
        (((rows.mapM (judge condition)).mapError .condition).map fun _ ↦ .rows
          (visible distinct ((matching condition rows).map (objectOf (items schema selection)))),
          store') ∧
      store'.files = store.files := by
  obtain ⟨config, home, contents, -, hc, hstore⟩ := h.sane
  obtain ⟨table, htable, rfl⟩ := hstore.schema_eq_ok hc hschema
  have hanswers := @Answers.select config home _ _ _ _ _ hc htable hitems hcondition distinct
  exact ⟨table.rows, _, (hstore.holdsRows hc htable).rows_eq (hc.named htable),
    (hc.tables htable).rows, Prod.ext (hanswers store hstore).1 rfl, (Quiet.select _ _ _ _ store).1⟩

namespace Database

theorem means_items (schema : Schema) (selection : Selection) :
    Means schema selection (items schema selection) := by
  cases selection with
  | all => exact .all
  | items items => exact .items items

/-- A selection gives an object for each row that the condition is true of, in the order of the
rows, and leaves out those with the reserved name. It fails if the condition fails on some row. It
changes no file. -/
theorem select_exact (h : Reachable store) (hschema : store.schema name = .ok schema)
    (hitems : ∀ items, selection = .items items → ∀ item ∈ items, item.column ∈ schema.names)
    (hcondition : ∀ column ∈ (condition.map Expr.columns).getD [], column ∈ schema.names) :
    ∃ selected rows result store', Means schema selection selected ∧
      store.rows name = .ok (schema, rows) ∧
      (run (.select false selection name condition)).run store = (result, store') ∧
      (∀ text, Statement.ofText text = .ok (.select false selection name condition) →
        (execute text).run store = (result, store')) ∧
      store'.files = store.files ∧
      ((∀ row ∈ rows, ∃ b, judge condition row = .ok b) → ∃ records,
        List.Forall₂ (Shows selected) (matching condition rows) records ∧
        result = .ok (.rows (records.filter fun record ↦ reservedName ∉ record.map Prod.fst))) ∧
      ∀ row ∈ rows, ∀ fault, judge condition row = .error fault →
        ∃ first, rows.mapM (judge condition) = .error first ∧ result = .error (.condition first) := by
  have hselected : ∀ item ∈ items schema selection, item.column ∈ schema.names := by
    cases selection with
    | all =>
      intro item hitem
      obtain ⟨name, hname, rfl⟩ := List.mem_map.mp hitem
      exact hname
    | items items => exact hitems items rfl
  obtain ⟨rows, store', hrows, hkeeps, hrun, hfiles⟩ :=
    h.exists_select hschema hselected hcondition false
  refine ⟨_, rows, _, store', means_items schema selection, hrows, hrun,
    fun text hparse ↦ (execute_run hparse store).trans hrun, hfiles,
    fun hjudged ↦ ⟨_, forall₂_shows ?_ hselected, ?_⟩, fun row hrow fault hfault ↦ ?_⟩
  · exact fun row hrow ↦ hkeeps row (List.mem_filter.mp hrow).1
  · obtain ⟨judged, hjudged⟩ := exists_mapM_eq_ok hjudged
    rw [hjudged]
    rfl
  · obtain ⟨first, hfirst⟩ := exists_mapM_eq_error hrow hfault
    exact ⟨first, hfirst, by rw [hfirst]; rfl⟩

/-- Both columns under one name. -/
def joined : List SelectItem := [⟨"Id", some "k"⟩, ⟨"n", some "k"⟩]

theorem shown_idSeven {items : List SelectItem} {records : List Record} {first second : Record}
    (h : List.Forall₂ (Shows items)
      (matching (some idSeven) [numberedRow 7 1, numberedRow 8 2, numberedRow 7 3]) records)
    (hfirst : Shows items (numberedRow 7 1) first)
    (hsecond : Shows items (numberedRow 7 3) second) : records = [first, second] := by
  have hmatching : matching (some idSeven)
      [numberedRow 7 1, numberedRow 8 2, numberedRow 7 3] = [numberedRow 7 1, numberedRow 7 3] := by
    decide
  rw [hmatching] at h
  rcases h with _ | ⟨hfirst', _ | ⟨hsecond', _ | _⟩⟩
  rw [hfirst'.unique hfirst, hsecond'.unique hsecond]

theorem judge_idSeven : ∀ row ∈ [(7, 1), (8, 2), (7, 3)].map fun entry ↦ numberedRow entry.1 entry.2,
    ∃ b, judge (some idSeven) row = .ok b := by
  intro row hrow
  obtain ⟨entry, -, rfl⟩ := List.mem_map.mp hrow
  exact ⟨_, rfl⟩

/-- The rows are found through an index. -/
theorem select_exact_numbered : ∃ store, Reachable store ∧ store.hasIndex "t" "Id" = true ∧
    store.rows "t" = .ok (numbered, [numberedRow 7 1, numberedRow 8 2, numberedRow 7 3]) ∧
    (∃ store', (execute "SELECT Id AS k, n AS k FROM t WHERE Id = 7").run store =
      (.ok (.rows [[("k", .scalar (.number (.integer 1)))], [("k", .scalar (.number (.integer 3)))]]),
        store') ∧ store'.files = store.files) ∧
    ∃ store', (execute "SELECT * FROM t WHERE Id = 7").run store =
      (.ok (.rows [
        [("Id", .scalar (.number (.integer 7))), ("n", .scalar (.number (.integer 1)))],
        [("Id", .scalar (.number (.integer 7))), ("n", .scalar (.number (.integer 3)))]]),
        store') ∧ store'.files = store.files := by
  obtain ⟨store, hstore⟩ := Stocked.numbered [(7, 1), (8, 2), (7, 3)]
  refine ⟨store, hstore.1, hstore.hasIndex (by decide), hstore.rows_eq, ?_, ?_⟩
  · have hparse : Statement.ofText "SELECT Id AS k, n AS k FROM t WHERE Id = 7" =
        .ok (.select false (.items joined) "t" (some idSeven)) :=
      toOption_eq_some.mp (by decide +kernel)
    have hshown : ∀ n : Int64, Shows joined (numberedRow 7 n)
        [("k", .scalar (.number (.integer n.toInt)))] :=
      fun n ↦ shows_objectOf (keeps_numberedRow 7 n) (by decide)
    have hcolumns : ∀ items, Selection.items joined = .items items →
        ∀ item ∈ items, item.column ∈ numbered.names := by
      rintro _ ⟨⟩
      decide
    obtain ⟨_, rows, result, store', ⟨⟩, hrows, -, hexecute, hfiles, hjudged, -⟩ :=
      @select_exact _ _ _ _ (some idSeven) hstore.1 hstore.schema_eq hcolumns (by decide)
    obtain ⟨-, rfl⟩ := Prod.mk.inj (Except.ok.inj (hstore.rows_eq.symm.trans hrows))
    obtain ⟨records, hshows, rfl⟩ := hjudged judge_idSeven
    obtain rfl := shown_idSeven hshows (hshown 1) (hshown 3)
    exact ⟨store', hexecute _ hparse, hfiles⟩
  · have hparse : Statement.ofText "SELECT * FROM t WHERE Id = 7" =
        .ok (.select false .all "t" (some idSeven)) :=
      toOption_eq_some.mp (by decide +kernel)
    have hshown : ∀ n : Int64, Shows [⟨"Id", none⟩, ⟨"n", none⟩] (numberedRow 7 n)
        [("Id", .scalar (.number (.integer 7))), ("n", .scalar (.number (.integer n.toInt)))] :=
      fun n ↦ shows_objectOf (keeps_numberedRow 7 n) (by decide)
    obtain ⟨_, rows, result, store', ⟨⟩, hrows, -, hexecute, hfiles, hjudged, -⟩ :=
      @select_exact _ _ _ .all (some idSeven) hstore.1 hstore.schema_eq (by simp) (by decide)
    obtain ⟨-, rfl⟩ := Prod.mk.inj (Except.ok.inj (hstore.rows_eq.symm.trans hrows))
    obtain ⟨records, hshows, rfl⟩ := hjudged judge_idSeven
    obtain rfl := shown_idSeven hshows (hshown 1) (hshown 3)
    exact ⟨store', hexecute _ hparse, hfiles⟩

end Database

end

end TableStore
