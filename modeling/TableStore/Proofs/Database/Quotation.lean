import TableStore.Proofs.Database.Effect
import TableStore.Proofs.Database.Selection
import TableStore.Proofs.Equality
import TableStore.Proofs.Statement.Grammar
import TableStore.Proofs.Token.Spelling

namespace TableStore

open FileSystem (Location)
open Json (Scalar)

theorem Timestamp.text_of_ofText? {s : String} {t : Timestamp} (h : ofText? s = some t) :
    t.text = s := by
  rw [ofText?, Option.filter_eq_some_iff] at h
  exact of_decide_eq_true h.2

namespace Grammar

variable {s : String} {value : Value} {ts : List Token}

theorem Literal.quoted (h : Literal [.string s] value) :
    (∃ t, Timestamp.ofText? s = some t ∧ value = .datetime t) ∨
      Timestamp.ofText? s = none ∧ value = .text s := by
  cases h with
  | datetime h => exact .inl ⟨_, h, rfl⟩
  | text h => exact .inr ⟨h, rfl⟩

theorem Literal.eq_of_quoted (h : Literal [.string s] value) (hother : Literal ts value) :
    ts = [.string s] := by
  rcases h.quoted with ⟨t, ht, rfl⟩ | ⟨-, rfl⟩
  · cases hother with
    | datetime h => rw [← Timestamp.text_of_ofText? h, Timestamp.text_of_ofText? ht]
  · cases hother with
    | text h => rfl

theorem Literal.encode_quoted (h : Literal [.string s] value) : value.encode = .ok (.string s) := by
  rcases h.quoted with ⟨t, ht, rfl⟩ | ⟨-, rfl⟩
  · rw [Value.encode, Timestamp.text_of_ofText? ht]
  · rfl

end Grammar

open Grammar (Literal)

theorem Token.spells_string_iff {s : String} (hs : '\'' ∉ s.toList) {word : List Char} :
    Spells (.string s) word ↔ word = '\'' :: (s.toList ++ ['\'']) := by
  constructor
  · intro h
    generalize htoken : Token.string s = token at h
    cases h with
    | string h =>
      obtain rfl := Token.string.inj htoken
      rw [String.toList_ofList]
    | _ => cases htoken
  · rintro rfl
    have hspells := @Spells.string s.toList hs
    rwa [String.ofList_toList] at hspells

namespace Database

variable {column : Column} {s : String} {value fitted : Value}

theorem exists_fit_quoted_iff (htype : column.type = .string ∨ column.type = .datetime)
    (h : Literal [.string s] value) : (∃ fitted, fit column value = .ok fitted) ↔
      (column.type = .datetime → (Timestamp.ofText? s).isSome = true) := by
  rcases htype with htype | htype <;> rcases h.quoted with ⟨t, ht, rfl⟩ | ⟨ht, rfl⟩ <;>
    simp [fit, htype, ht]

theorem encode_fit_quoted (htype : column.type = .string ∨ column.type = .datetime)
    (h : Literal [.string s] value) (hfit : fit column value = .ok fitted) :
    column.encode fitted = .ok (.string s) := by
  rw [Column.encode_eq_ok]
  rcases htype with htype | htype <;> rcases h.quoted with ⟨t, ht, rfl⟩ | ⟨ht, rfl⟩ <;>
    simp only [fit, htype, ht] at hfit
  · obtain rfl := Except.ok.inj hfit
    simp [Column.accepts, Value.type?, Value.encode, htype, Timestamp.text_of_ofText? ht]
  · obtain rfl := Except.ok.inj hfit
    simp [Column.accepts, Value.type?, Value.encode, htype]
  · obtain rfl := Except.ok.inj hfit
    simp [Column.accepts, Value.type?, Value.encode, htype, Timestamp.text_of_ofText? ht]
  · cases hfit

end Database

def Store.cellAt? (store : Store) (name : String) (position : Nat) (column : String) :
    Option Json := do
  let (document, _) ← (store.document name).toOption
  (← document.records[position]?).get? column

section

variable {config : Config} {home : Location} {contents : Contents} {store : Store} {name : String}
  {table : Table} {schema : Schema} {rows : List Row} {row : Row} {position : Nat} {column : Column}
  {s : Scalar}

theorem Schema.Keeps.get?_recordOf (h : schema.Keeps row) (hcolumn : column ∈ schema.columns) :
    ∃ value s, row.get? column.name = some value ∧ column.encode value = .ok s ∧
      (schema.recordOf row).get? column.name = some (.scalar s) := by
  obtain ⟨hrecord, hcells⟩ := cells_of_encodeRow h.encodeRow
  obtain ⟨value, s, hvalue, hs⟩ := h.exists_cell hcolumn
  have hcell := hcells column hcolumn
  rw [hvalue, Option.getD_some, hs] at hcell
  refine ⟨value, s, hvalue, hs, ?_⟩
  rw [hrecord, Record.get?, lookup_map_of_mem schema.nodup hcolumn, ← Except.ok.inj hcell]

theorem Holds.cellAt? (h : Holds config home contents store) (hc : contents.Consistent)
    (htable : contents name = some table) (hrow : table.rows[position]? = some row)
    (column : String) :
    store.cellAt? name position column = (table.schema.recordOf row).get? column := by
  have hrecord : (table.document name).records[position]? = some (table.schema.recordOf row) := by
    rw [Table.document, List.getElem?_map, hrow]
    rfl
  rw [Store.cellAt?, h.document_eq hc htable]
  simp [Except.toOption, hrecord]

end

namespace Database

/-- A statement that puts quoted text into a column, with the positions of the rows that get it. Its
other literals fit their columns, and if it is an update it finds a row. -/
inductive Puts (store : Store) (name : String) (schema : Schema) (rows : List Row) (column s : String) :
    Statement → (Nat → Prop) → Prop
  | insert {columns : Option (List String)} {values : List Value}
    {front back : List (String × Value)} {value : Value}
    (hnames : (columns.getD schema.names).Perm schema.names)
    (hlength : (columns.getD schema.names).length = values.length)
    (hcells : (columns.getD schema.names).zip values = front ++ (column, value) :: back)
    (hvalue : Literal [.string s] value)
    (hothers : ∀ cell ∈ front ++ back,
      Acceptable name schema (fun other ↦ store.hasIndex name other = true) cell) :
    Puts store name schema rows column s (.insert name columns values) fun position ↦
      position = rows.length
  | update {front back : List (String × Value)} {value : Value} {e : Expr}
    (hlast : column ∉ back.map Prod.fst) (hvalue : Literal [.string s] value)
    (hothers : ∀ change ∈ front ++ back,
      Acceptable name schema (fun other ↦ store.hasIndex name other = true) change)
    (hcolumns : ∀ other ∈ e.columns, other ∈ schema.names)
    (hjudged : ∀ row ∈ rows, ∃ b, e.evaluate row = .ok b)
    (hfound : ∃ row ∈ rows, e.evaluate row = .ok true) :
    Puts store name schema rows column s
      (.update name (front ++ (column, value) :: back) (some e)) fun position ↦
        ∃ row, rows[position]? = some row ∧ e.evaluate row = .ok true

end Database

section

open Database

variable {config : Config} {home : Location} {contents : Contents} {store store' : Store}
  {name : String} {table : Table} {schema : Schema} {rows : List Row} {row : Row} {position : Nat}
  {column : Column} {value : Value} {s : String} {statement : Statement} {written : Nat → Prop}

theorem HoldsRows.cellAt? (h : HoldsRows config home contents name schema rows store)
    (hcolumn : column ∈ schema.columns) (hrow : rows[position]? = some row)
    (hvalue : row.get? column.name = some value) {cell : Scalar}
    (hcell : column.encode value = .ok cell) :
    store.cellAt? name position column.name = some (.scalar cell) := by
  obtain ⟨table, rfl, rfl, hc, hstore⟩ := h
  have hkeeps := (hc.tables (Contents.set_self _ _ _)).rows row (List.mem_of_getElem? hrow)
  obtain ⟨value', cell', hvalue', hcell', hrecord⟩ := hkeeps.get?_recordOf hcolumn
  obtain rfl := Option.some.inj (hvalue.symm.trans hvalue')
  obtain rfl := Except.ok.inj (hcell.symm.trans hcell')
  rw [hstore.cellAt? hc (Contents.set_self _ _ _) hrow, hrecord]

theorem Database.fittedChange_of_mem (hcolumn : column ∈ schema.columns) (value : Value) :
    fittedChange name schema (column.name, value) =
      (fit column value).map fun fitted ↦ (column.name, fitted) := by
  rw [fittedChange, Store.checkColumn, Schema.column?_of_mem hcolumn, ok_bind]
  cases fit column value <;> rfl

theorem Database.lookup_fitted {front back fitted : List (String × Value)}
    (hcolumn : column ∈ schema.columns) (hlast : column.name ∉ back.map Prod.fst)
    (h : (front ++ (column.name, value) :: back).mapM (fittedChange name schema) = .ok fitted) :
    ∃ new, fit column value = .ok new ∧ fitted.reverse.lookup column.name = some new := by
  rw [List.mapM_append] at h
  obtain ⟨before, -, h⟩ := bind_eq_ok.mp h
  obtain ⟨rest, hrest, h⟩ := bind_eq_ok.mp h
  obtain rfl := Except.ok.inj h
  rw [List.mapM_cons] at hrest
  obtain ⟨entry, hentry, hrest⟩ := bind_eq_ok.mp hrest
  obtain ⟨after, hafter, hrest⟩ := bind_eq_ok.mp hrest
  obtain rfl := Except.ok.inj hrest
  rw [fittedChange_of_mem hcolumn] at hentry
  obtain ⟨new, hnew, rfl⟩ := map_eq_ok.mp hentry
  have hnone : after.reverse.lookup column.name = none := by
    apply lookup_eq_none_of_not_mem
    have hnames := Schema.names_of_fits (mapM_fittedChange_eq_ok.mp hafter)
    rwa [List.map_reverse, List.mem_reverse, hnames]
  refine ⟨new, hnew, ?_⟩
  rw [List.reverse_append, List.reverse_cons, List.lookup_append, List.lookup_append, hnone,
    lookup_cons_if, if_pos rfl]
  rfl

theorem Table.Consistent.not_mem_columns (h : table.Consistent)
    (hcolumn : column ∈ table.schema.columns)
    (htype : column.type = .string ∨ column.type = .datetime) : column.name ∉ table.columns := by
  intro hmem
  obtain ⟨entry, hentry, hname⟩ := List.mem_map.mp (Table.mem_columns.mp hmem)
  obtain ⟨definition, hdefinition, hname', hint⟩ := (h.indexes entry hentry).typed
  obtain rfl := Schema.eq_of_name hcolumn hdefinition (hname'.trans hname)
  rw [hint] at htype
  rcases htype with htype | htype <;> cases htype

theorem Table.Consistent.acceptable_quoted (h : table.Consistent)
    (hcolumn : column ∈ table.schema.columns)
    (htype : column.type = .string ∨ column.type = .datetime) (hvalue : Literal [.string s] value)
    (hfits : column.type = .datetime → (Timestamp.ofText? s).isSome = true) :
    Acceptable name table.schema (· ∈ table.columns) (column.name, value) := by
  obtain ⟨fitted, hfit⟩ := (exists_fit_quoted_iff htype hvalue).mpr hfits
  refine ⟨(column.name, fitted), by rw [fittedChange_of_mem hcolumn, hfit, map_ok], column, hcolumn,
    rfl, ⟨_, encode_fit_quoted htype hvalue hfit⟩, fun hindexed ↦ ?_⟩
  exact absurd hindexed (h.not_mem_columns hcolumn htype)

namespace Database.Puts

theorem exists_runs (h : Puts store name table.schema table.rows column.name s statement written)
    (hc : contents.Consistent) (hstore : Holds config home contents store)
    (htable : contents name = some table) (hcolumn : column ∈ table.schema.columns)
    (htype : column.type = .string ∨ column.type = .datetime)
    (hfits : column.type = .datetime → (Timestamp.ofText? s).isSome = true) :
    ∃ outcome contents', Runs config home contents (run statement) (.ok outcome) contents' := by
  have hindexed : (fun other ↦ store.hasIndex name other = true) = (· ∈ table.columns) :=
    funext fun other ↦ propext (hstore.hasIndex_iff hc htable)
  have hall : ∀ {front back value}, Literal [.string s] value →
      (∀ cell ∈ front ++ back,
        Acceptable name table.schema (fun other ↦ store.hasIndex name other = true) cell) →
      ∀ cell ∈ front ++ (column.name, value) :: back,
        Acceptable name table.schema (· ∈ table.columns) cell := by
    intro front back value hvalue hothers cell hcell
    rw [hindexed] at hothers
    rcases List.mem_append.mp hcell with hfront | hback
    · exact hothers cell (List.mem_append_left _ hfront)
    · rcases List.mem_cons.mp hback with rfl | hback
      · exact (hc.tables htable).acceptable_quoted hcolumn htype hvalue hfits
      · exact hothers cell (List.mem_append_right _ hback)
  cases h with
  | insert hnames hlength hcells hvalue hothers =>
    obtain ⟨contents', hruns⟩ := @runs_insert config home _ _ _ hc htable _ _ hnames hlength
      (hcells ▸ hall hvalue hothers)
    exact ⟨_, contents', hruns⟩
  | update hlast hvalue hothers hcolumns hjudged hfound =>
    exact runs_update hc htable (hall hvalue hothers) hcolumns hjudged

/-- Where a statement put quoted text, the file has this text. -/
theorem stored (h : Puts store name table.schema table.rows column.name s statement written)
    (hc : contents.Consistent) (hstore : Holds config home contents store)
    (htable : contents name = some table) (hcolumn : column ∈ table.schema.columns)
    (htype : column.type = .string ∨ column.type = .datetime) {outcome : Outcome}
    (hrun : (run statement).run store = (.ok outcome, store')) :
    (column.type = .datetime → (Timestamp.ofText? s).isSome = true) ∧
      (∃ rows', store'.rows name = .ok (table.schema, rows')) ∧
      ∀ position, written position →
        store'.cellAt? name position column.name = some (.scalar (.string s)) := by
  cases h with
  | @insert columns values front back value hnames hlength hcells hvalue hothers =>
    obtain ⟨found, rows', hfound, hleaves, hafter⟩ := leaves_run hc hstore rfl hrun
    obtain rfl := Option.some.inj (htable.symm.trans hfound)
    obtain ⟨cells, row, -, hfitted, hperm, -, rfl⟩ := hleaves
    have hmade : ((columns.getD table.schema.names).zip values).mapM
        (fittedChange name table.schema) = .ok cells := mapM_fittedChange_eq_ok.mpr hfitted
    obtain ⟨entry, hentry, hchange⟩ := exists_of_mapM_eq_ok hmade
      (show (column.name, value) ∈ _ by rw [hcells]; simp)
    rw [fittedChange_of_mem hcolumn] at hchange
    obtain ⟨fitted, hfit, rfl⟩ := map_eq_ok.mp hchange
    refine ⟨(exists_fit_quoted_iff htype hvalue).mp ⟨fitted, hfit⟩,
      ⟨_, hafter.rows_eq (hc.named htable)⟩, ?_⟩
    rintro _ rfl
    have hget : row.get? column.name = some fitted :=
      lookup_of_mem row.nodup (hperm.mem_iff.mpr hentry)
    exact hafter.cellAt? hcolumn List.getElem?_concat_length hget
      (encode_fit_quoted htype hvalue hfit)
  | @update front back value e hlast hvalue hothers hcolumns hjudged hsome =>
    obtain ⟨found, rows', hfound, hleaves, hafter⟩ := leaves_run hc hstore rfl hrun
    obtain rfl := Option.some.inj (htable.symm.trans hfound)
    obtain ⟨_, fitted, ⟨⟩, hfitted, -, rfl⟩ := hleaves
    have hmade : (front ++ (column.name, value) :: back).mapM (fittedChange name table.schema) =
        .ok fitted := mapM_fittedChange_eq_ok.mpr hfitted
    obtain ⟨new, hfit, hlookup⟩ := lookup_fitted hcolumn hlast hmade
    refine ⟨(exists_fit_quoted_iff htype hvalue).mp ⟨new, hfit⟩,
      ⟨_, hafter.rows_eq (hc.named htable)⟩, ?_⟩
    rintro position ⟨row, hrow, htrue⟩
    have hkeeps := (hc.tables htable).rows row (List.mem_of_getElem? hrow)
    obtain ⟨old, -, hold, -⟩ := hkeeps.exists_cell hcolumn
    have hget : (row.merge fitted).get? column.name = some new := by
      rw [Row.get?_merge, hold, hlookup]
      rfl
    refine hafter.cellAt? hcolumn ?_ hget (encode_fit_quoted htype hvalue hfit)
    rw [List.getElem?_map, hrow, Option.map_some, htrue]
    rfl

end Database.Puts

namespace Database

def placed (condition : Option Expr) (rows : List Row) : List (Row × Nat) :=
  rows.zipIdx.filter fun entry ↦ (judge condition entry.1).toOption = some true

theorem matching_eq_map_placed (condition : Option Expr) (rows : List Row) :
    matching condition rows = (placed condition rows).map Prod.fst := by
  have hrows : rows.zipIdx.map Prod.fst = rows := List.zipIdx_map_fst 0 rows
  rw [matching, ← hrows, List.filter_map, hrows]
  rfl

theorem select_column (hc : contents.Consistent) (hstore : Holds config home contents store)
    (htable : contents name = some table) (hcolumn : column ∈ table.schema.columns)
    (hreserved : column.name ≠ reservedName) {condition : Option Expr}
    (hcondition : ∀ other ∈ (condition.map Expr.columns).getD [], other ∈ table.schema.names)
    (hjudged : ∀ row ∈ table.rows, ∃ b, judge condition row = .ok b) :
    ∃ records store', (run (.select false (.items [⟨column.name, none⟩]) name condition)).run store =
      (.ok (.rows records), store') ∧
      List.Forall₂ (fun entry record ↦ ∃ json,
        store.cellAt? name entry.2 column.name = some json ∧ record = [(column.name, json)])
        (placed condition table.rows) records := by
  obtain ⟨judged, hjudged⟩ := exists_mapM_eq_ok hjudged
  have hitems : ∀ item ∈ items table.schema (.items [⟨column.name, none⟩]),
      item.column ∈ table.schema.names := by
    intro item hitem
    obtain rfl := List.mem_singleton.mp hitem
    exact List.mem_map_of_mem hcolumn
  have hanswers :=
    (@Answers.select config home _ _ _ _ _ hc htable hitems hcondition false store hstore).1
  have hobject : ∀ row, objectOf [⟨column.name, none⟩] row =
      [(column.name, .scalar (shownCell row ⟨column.name, none⟩))] := fun _ ↦ rfl
  have hvisible : visible false ((placed condition table.rows).map
      (objectOf [⟨column.name, none⟩] ∘ Prod.fst)) =
        (placed condition table.rows).map (objectOf [⟨column.name, none⟩] ∘ Prod.fst) := by
    refine List.filter_eq_self.mpr fun record hrecord ↦ ?_
    obtain ⟨entry, -, rfl⟩ := List.mem_map.mp hrecord
    simpa [hobject] using Ne.symm hreserved
  rw [hjudged, matching_eq_map_placed, List.map_map, items, hvisible] at hanswers
  refine ⟨_, _, Prod.ext hanswers rfl, ?_⟩
  rw [List.forall₂_map_right_iff, List.forall₂_same]
  intro entry hentry
  have hrow := List.mem_zipIdx_iff_getElem?.mp (List.mem_filter.mp hentry).1
  have hkeeps := (hc.tables htable).rows entry.1 (List.mem_of_getElem? hrow)
  obtain ⟨value, cell, hvalue, hcell, hrecord⟩ := hkeeps.get?_recordOf hcolumn
  have hshown : shownCell entry.1 ⟨column.name, none⟩ = cell := by
    rw [shownCell, hvalue, Option.getD_some, (Column.encode_eq_ok.mp hcell).2]
    rfl
  refine ⟨.scalar cell, by rw [hstore.cellAt? hc htable hrow, hrecord], ?_⟩
  rw [Function.comp_apply, hobject, hshown]

theorem evaluate_eq_quoted (hc : contents.Consistent) (hstore : Holds config home contents store)
    (htable : contents name = some table) (hcolumn : column ∈ table.schema.columns)
    (hvalue : Literal [.string s] value) (hrow : table.rows[position]? = some row) :
    ∃ b, (Expr.binary (.column column.name) .eq (.literal value)).evaluate row = .ok b ∧
      (b = true ↔ store.cellAt? name position column.name = some (.scalar (.string s))) := by
  have hkeeps := (hc.tables htable).rows row (List.mem_of_getElem? hrow)
  obtain ⟨own, cell, hown, hcell, hrecord⟩ := hkeeps.get?_recordOf hcolumn
  have hsame := Value.sameValue_of_encode (Column.encode_eq_ok.mp hcell).2 hvalue.encode_quoted
  have hbeq : cell.sameValue (.string s) = (cell == .string s) := by cases cell <;> rfl
  refine ⟨cell == .string s, ?_, ?_⟩
  · rw [Expr.evaluate]
    simp [Operator.isArithmetic, Expr.operand, Expr.literalOperand, Expr.unnested, Expr.lookup,
      hown, Operator.apply, hsame, hbeq]
  · rw [hstore.cellAt? hc htable hrow, hrecord, beq_iff_eq]
    simp

/-- Quoted text goes into a column for text as it is, and into a column for timestamps if it spells
one. The file then has this text, whatever the text looks like. A selection of the column gives what
the file has, and a comparison with the text finds the rows for which the file has it. -/
theorem quoted_text_survives {s : String} (hs : '\'' ∉ s.toList) :
    (∀ word, Token.Spells (.string s) word ↔ word = '\'' :: (s.toList ++ ['\''])) ∧
    (∀ value, Literal [.string s] value → ∀ ts, Literal ts value → ts = [.string s]) ∧
    ∀ {store : Store} {name : String} {schema : Schema} {rows : List Row} {column : Column},
      Reachable store → store.rows name = .ok (schema, rows) → column ∈ schema.columns →
      (column.type = .string ∨ column.type = .datetime → ∀ {text statement written},
        Puts store name schema rows column.name s statement written →
        Statement.ofText text = .ok statement →
        ((∃ outcome store', (execute text).run store = (.ok outcome, store')) ↔
          (column.type = .datetime → (Timestamp.ofText? s).isSome = true)) ∧
        ∀ outcome store', (execute text).run store = (.ok outcome, store') →
          Reachable store' ∧ (∃ rows', store'.rows name = .ok (schema, rows')) ∧
          ∀ position, written position →
            store'.cellAt? name position column.name = some (.scalar (.string s))) ∧
      (column.name ≠ reservedName → ∀ condition : Option Expr,
        (∀ other ∈ (condition.map Expr.columns).getD [], other ∈ schema.names) →
        (∀ row ∈ rows, ∃ b, judge condition row = .ok b) →
        ∃ records store',
          (run (.select false (.items [⟨column.name, none⟩]) name condition)).run store =
            (.ok (.rows records), store') ∧
          List.Forall₂ (fun entry record ↦ ∃ json,
            store.cellAt? name entry.2 column.name = some json ∧ record = [(column.name, json)])
            (placed condition rows) records) ∧
      ∀ value, Literal [.string s] value → ∀ position row, rows[position]? = some row →
        ∃ b, (Expr.binary (.column column.name) .eq (.literal value)).evaluate row = .ok b ∧
          (b = true ↔ store.cellAt? name position column.name = some (.scalar (.string s))) := by
  refine ⟨fun word ↦ Token.spells_string_iff hs, fun value h ts hother ↦ h.eq_of_quoted hother, ?_⟩
  intro store name schema rows column h hrows hcolumn
  obtain ⟨config, home, contents, -, hc, hstore⟩ := h.sane
  obtain ⟨table, htable, rfl, rfl⟩ := hstore.rows_eq_ok hc hrows
  refine ⟨fun htype text statement written hputs hparse ↦ ⟨⟨?_, ?_⟩, ?_⟩,
    fun hreserved condition ↦ select_column hc hstore htable hcolumn hreserved,
    fun value hvalue position row ↦ evaluate_eq_quoted hc hstore htable hcolumn hvalue⟩
  · rintro ⟨outcome, store', hrun⟩
    rw [execute_run hparse] at hrun
    exact (hputs.stored hc hstore htable hcolumn htype hrun).1
  · intro hfits
    obtain ⟨outcome, contents', hruns⟩ :=
      hputs.exists_runs hc hstore htable hcolumn htype hfits
    rw [execute_run hparse]
    exact ⟨outcome, Operation.exists_run_eq_ok (hruns store hstore).1⟩
  · intro outcome store' hrun
    have hreach : Reachable ((execute text).run store).2 := .call h (.execute text)
    rw [hrun] at hreach
    rw [execute_run hparse] at hrun
    exact ⟨hreach, (hputs.stored hc hstore htable hcolumn htype hrun).2⟩

def notes : Schema where
  columns := [{ name := "Note", type := .string }]
  nodup := by decide

def leapSecond : Timestamp := ⟨2024, 2, 29, 23, 59, 60, by decide⟩

theorem quoted_text_survives_note : ∃ store outcome store', Reachable store ∧
    Timestamp.ofText? "2024-02-29 23:59:60" = some leapSecond ∧
    (execute "INSERT INTO t VALUES ('2024-02-29 23:59:60')").run store = (.ok outcome, store') ∧
    store'.cellAt? "t" 0 "Note" = some (.scalar (.string "2024-02-29 23:59:60")) := by
  have hs : '\'' ∉ "2024-02-29 23:59:60".toList := by decide +kernel
  have htime : Timestamp.ofText? "2024-02-29 23:59:60" = some leapSecond := by decide +kernel
  have hparse : Statement.ofText "INSERT INTO t VALUES ('2024-02-29 23:59:60')" =
      .ok (.insert "t" none [.datetime leapSecond]) :=
    toOption_eq_some.mp (by decide +kernel)
  have hstore := @Stocked.createTable "t" notes (by decide) (by decide) (by decide +kernel)
  have hcolumn : { name := "Note", type := .string } ∈ notes.columns := List.mem_singleton_self _
  have hputs : Puts ((Call.createTable "t" notes).after Reachable.opened) "t" notes [] "Note"
      "2024-02-29 23:59:60" (.insert "t" none [.datetime leapSecond]) fun position ↦ position = 0 :=
    .insert (.refl _) rfl (show _ = [] ++ ("Note", .datetime leapSecond) :: [] from rfl)
      (.datetime htime) (fun _ hcell ↦ absurd hcell List.not_mem_nil)
  obtain ⟨-, -, hsurvives⟩ := quoted_text_survives hs
  obtain ⟨hwrites, -⟩ := hsurvives hstore.1 hstore.rows_eq hcolumn
  obtain ⟨hsucceeds, hstored⟩ := hwrites (.inl rfl) hputs hparse
  obtain ⟨outcome, store', hrun⟩ := hsucceeds.mpr nofun
  obtain ⟨-, -, hcells⟩ := hstored outcome store' hrun
  exact ⟨_, outcome, store', hstore.1, htime, hrun, hcells 0 rfl⟩

end Database

end

end TableStore
