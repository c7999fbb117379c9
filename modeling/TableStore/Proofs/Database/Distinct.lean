import TableStore.Proofs.Database.Selection
import TableStore.Proofs.Equality
import TableStore.Proofs.Json.Compact

namespace TableStore

open Json (Scalar)

section

variable {α : Type} {same same' : α → α → Bool}

/-- The entries that are not the same as one that is kept before them. -/
def firsts (same : α → α → Bool) : List α → List α
  | [] => []
  | x :: xs => x :: (firsts same xs).filter fun y ↦ !same x y

theorem firsts_sublist (same : α → α → Bool) (xs : List α) : (firsts same xs).Sublist xs := by
  induction xs with
  | nil => exact .slnil
  | cons x xs ih => exact (List.filter_sublist.trans ih).cons_cons x

theorem pairwise_firsts (same : α → α → Bool) (xs : List α) :
    (firsts same xs).Pairwise fun x y ↦ same x y = false := by
  induction xs with
  | nil => exact .nil
  | cons x xs ih =>
    refine .cons (fun y hy ↦ ?_) (ih.sublist List.filter_sublist)
    simpa using (List.mem_filter.mp hy).2

theorem exists_mem_firsts {xs : List α} (hrefl : ∀ x ∈ xs, same x x = true)
    (htrans : ∀ x ∈ xs, ∀ y ∈ xs, ∀ z ∈ xs, same x y = true → same y z = true → same x z = true)
    {y : α} (hy : y ∈ xs) : ∃ x ∈ firsts same xs, same x y = true := by
  induction xs with
  | nil => cases hy
  | cons first rest ih =>
    rcases List.mem_cons.mp hy with rfl | hrest
    · exact ⟨y, List.mem_cons_self, hrefl y hy⟩
    · obtain ⟨x, hx, hxy⟩ := ih (fun x hx ↦ hrefl x (List.mem_cons_of_mem _ hx))
        (fun x hx y hy z hz ↦ htrans x (List.mem_cons_of_mem _ hx) y (List.mem_cons_of_mem _ hy) z
          (List.mem_cons_of_mem _ hz)) hrest
      cases hsame : same first x with
      | false => exact ⟨x, List.mem_cons_of_mem _ (List.mem_filter.mpr ⟨hx, by simp [hsame]⟩), hxy⟩
      | true =>
        have hmem := List.mem_cons_of_mem first ((firsts_sublist same rest).mem hx)
        exact ⟨first, List.mem_cons_self,
          htrans first List.mem_cons_self x hmem y hy hsame hxy⟩

end

namespace Database

theorem distinctRecords_map {α : Type} {same : α → α → Bool} {object : α → Record} {xs : List α}
    (h : ∀ x ∈ xs, ∀ y ∈ xs, same x y = true ↔
      (Json.object (object x)).compactText = (Json.object (object y)).compactText) :
    distinctRecords (xs.map object) = (firsts same xs).map object := by
  have hgo : ∀ (xs : List α) (seen : List String),
      (∀ x ∈ xs, ∀ y ∈ xs, same x y = true ↔
        (Json.object (object x)).compactText = (Json.object (object y)).compactText) →
      distinctRecords.go seen (xs.map object) = ((firsts same xs).filter fun x ↦
        (Json.object (object x)).compactText ∉ seen).map object := by
    intro xs
    induction xs with
    | nil => exact fun _ _ ↦ rfl
    | cons x xs ih =>
      intro seen h
      have hrest := fun seen ↦ ih seen fun y hy z hz ↦
        h y (List.mem_cons_of_mem _ hy) z (List.mem_cons_of_mem _ hz)
      have htexts : ∀ y ∈ firsts same xs, same x y = true ↔
          (Json.object (object x)).compactText = (Json.object (object y)).compactText :=
        fun y hy ↦ h x (by simp) y (List.mem_cons_of_mem _ ((firsts_sublist same xs).mem hy))
      rw [List.map_cons, distinctRecords.go, firsts]
      by_cases hseen : (Json.object (object x)).compactText ∈ seen
      · rw [if_pos hseen, hrest, List.filter_cons_of_neg (by simpa using hseen), List.filter_filter]
        congr 1
        refine List.filter_congr fun y hy ↦ ?_
        cases hsame : same x y with
        | false => simp
        | true => simp [← (htexts y hy).mp hsame, hseen]
      · rw [if_neg hseen, hrest, List.filter_cons_of_pos (by simpa using hseen), List.filter_filter,
          List.map_cons]
        congr 2
        refine List.filter_congr fun y hy ↦ ?_
        cases hsame : same x y with
        | false =>
          have hne : (Json.object (object y)).compactText ≠ (Json.object (object x)).compactText :=
            fun heq ↦ by simp [(htexts y hy).mpr heq.symm] at hsame
          simp [hne]
        | true => simp [(htexts y hy).mp hsame]
  rw [distinctRecords, hgo xs [] h]
  simp

end Database

namespace Value

/-- A float that is zero, with either sign. -/
def isZero : Value → Bool
  | .float (.finite x) => x.magnitude.val = 0
  | _ => false

/-- Equality as `=` has it, except that a zero is the same only as the zero with its sign. -/
def merges (value value' : Value) : Bool :=
  (value.sameValue value').toOption = some true && (!value.isZero || value = value')

variable {value value' : Value} {s s' : Scalar} {type : DataType}

/-- Numbers of one type with one value are one number, unless they are the two zeros. -/
theorem eq_of_sameValue {m n : Json.Number} (h : value.encode = .ok (.number m))
    (h' : value'.encode = .ok (.number n)) (htype : ∀ own ∈ value.type?, own = type)
    (htype' : ∀ own ∈ value'.type?, own = type) (hsame : m.sameValue n = true)
    (hzero : value.isZero = true → value = value') : value = value' := by
  rcases encode_eq_number h with ⟨k, rfl, rfl⟩ | ⟨x, rfl, rfl⟩ <;>
    rcases encode_eq_number h' with ⟨l, rfl, rfl⟩ | ⟨y, rfl, rfl⟩
  · simp only [Json.Number.sameValue, Json.Number.toInt64?, Numeral.int64?_toInt,
      beq_iff_eq] at hsame
    rw [hsame]
  · cases (htype _ rfl).trans (htype' _ rfl).symm
  · cases (htype _ rfl).trans (htype' _ rfl).symm
  · simp only [Json.Number.sameValue, Json.Number.toInt64?, Json.Number.toDouble,
      Double.sameNumber, Double.Finite.sameNumber, Bool.and_eq_true, Bool.or_eq_true,
      decide_eq_true_eq] at hsame
    obtain ⟨hmagnitude, hsign | hnone⟩ := hsame
    · obtain ⟨negative, magnitude⟩ := x
      obtain ⟨negative', magnitude'⟩ := y
      obtain rfl : magnitude = magnitude' := hmagnitude
      obtain rfl : negative = negative' := hsign
      rfl
    · exact hzero (by simp [isZero, hnone])

theorem merges_iff (h : value.encode = .ok s) (h' : value'.encode = .ok s')
    (htype : ∀ own ∈ value.type?, own = type) (htype' : ∀ own ∈ value'.type?, own = type) :
    value.merges value' = true ↔ s = s' := by
  have hsame := sameValue_of_encode h h'
  have hmerges : value.merges value' = true ↔
      s.sameValue s' = true ∧ (value.isZero = true → value = value') := by
    rw [merges, hsame]
    cases value.isZero <;> simp [Except.toOption]
  rw [hmerges]
  constructor
  · rintro ⟨hsame, hzero⟩
    cases s with
    | number m =>
      cases s' with
      | number n =>
        obtain rfl := eq_of_sameValue h h' htype htype' hsame hzero
        exact Except.ok.inj (h.symm.trans h')
      | _ => exact eq_of_beq hsame
    | _ => exact eq_of_beq hsame
  · rintro rfl
    have hvalue := (Value.decode?_encode h htype).symm.trans (Value.decode?_encode h' htype')
    exact ⟨sameValue_self h, fun _ ↦ Option.some.inj hvalue⟩

end Value

namespace Database

section

variable {schema : Schema} {row row' : Row} {items : List SelectItem} {rows : List Row}

/-- Two rows merge in a selection if their values in each of its columns do. -/
def merges (items : List SelectItem) (row row' : Row) : Bool :=
  items.all fun item ↦
    ((row.get? item.column).getD .null).merges ((row'.get? item.column).getD .null)

theorem merges_iff_cells (hrow : schema.Keeps row) (hrow' : schema.Keeps row')
    (hitems : ∀ item ∈ items, item.column ∈ schema.names) :
    merges items row row' = true ↔ ∀ item ∈ items, shownCell row item = shownCell row' item := by
  rw [merges, List.all_eq_true]
  refine forall₂_congr fun item hitem ↦ ?_
  obtain ⟨column, hcolumn, hname⟩ := List.mem_map.mp (hitems item hitem)
  obtain ⟨value, s, hvalue, hs⟩ := hrow.exists_cell hcolumn
  obtain ⟨value', s', hvalue', hs'⟩ := hrow'.exists_cell hcolumn
  rw [hname] at hvalue hvalue'
  obtain ⟨haccepts, hencode⟩ := Column.encode_eq_ok.mp hs
  obtain ⟨haccepts', hencode'⟩ := Column.encode_eq_ok.mp hs'
  rw [shownCell, shownCell, hvalue, hvalue', Option.getD_some, Option.getD_some,
    Value.merges_iff hencode hencode' (Column.type_of_accepts haccepts)
      (Column.type_of_accepts haccepts'), hencode, hencode']
  rfl

theorem objectOf_eq_iff (hnames : (items.map SelectItem.outputName).Nodup) :
    objectOf items row = objectOf items row' ↔
      ∀ item ∈ items, shownCell row item = shownCell row' item := by
  have hmembers : ∀ row : Row, objectOf items row =
      items.map fun item ↦ (item.outputName, .scalar (shownCell row item)) := by
    intro row
    apply Record.ofList_of_nodup
    rwa [List.map_map]
  rw [hmembers, hmembers, List.map_inj_left]
  simp

theorem isCell_objectOf (hrow : schema.Keeps row)
    (hitems : ∀ item ∈ items, item.column ∈ schema.names) :
    ∀ member ∈ objectOf items row, Json.IsCell member := by
  intro member hmember
  obtain ⟨item, hitem, rfl⟩ := List.mem_map.mp ((Record.ofList_mem _).2 member hmember)
  obtain ⟨value, -, hencode⟩ := get?_of_keeps hrow (hitems item hitem)
  exact ⟨_, rfl, Value.readable_encode hencode⟩

theorem merges_iff_compactText (hrow : schema.Keeps row) (hrow' : schema.Keeps row')
    (hitems : ∀ item ∈ items, item.column ∈ schema.names)
    (hnames : (items.map SelectItem.outputName).Nodup) :
    merges items row row' = true ↔ (Json.object (objectOf items row)).compactText =
      (Json.object (objectOf items row')).compactText := by
  rw [merges_iff_cells hrow hrow' hitems, ← objectOf_eq_iff hnames]
  constructor
  · exact fun heq ↦ by rw [heq]
  · exact Json.compactText_object_inj (isCell_objectOf hrow hitems) (isCell_objectOf hrow' hitems)

theorem visible_true (hrows : ∀ row ∈ rows, schema.Keeps row)
    (hitems : ∀ item ∈ items, item.column ∈ schema.names)
    (hnames : (items.map SelectItem.outputName).Nodup)
    (hreserved : reservedName ∉ items.map SelectItem.outputName) :
    visible true (rows.map (objectOf items)) =
      (firsts (merges items) rows).map (objectOf items) := by
  have hnamed : ∀ record ∈ rows.map (objectOf items), reservedName ∉ record.map Prod.fst := by
    intro record hrecord
    obtain ⟨row, hrow, rfl⟩ := List.mem_map.mp hrecord
    rw [(shows_objectOf (hrows row hrow) hitems).names, List.mem_eraseDups]
    exact hreserved
  have hall : (rows.map (objectOf items)).filter
      (fun record ↦ decide (reservedName ∉ record.map Prod.fst)) = rows.map (objectOf items) :=
    List.filter_eq_self.mpr fun record hrecord ↦ decide_eq_true (hnamed record hrecord)
  rw [visible, hall, if_pos rfl]
  exact distinctRecords_map fun row hrow row' hrow' ↦
    merges_iff_compactText (hrows row hrow) (hrows row' hrow') hitems hnames

end

variable {name : String} {store : Store} {schema : Schema} {selection : Selection}
  {condition : Option Expr}

/-- A selection of distinct objects, whose names differ, gives the object of the first of the rows
that merge, in the order of the rows. Rows merge if they show as one object. -/
theorem select_distinct (h : Reachable store) (hschema : store.schema name = .ok schema)
    (hitems : ∀ item ∈ items schema selection, item.column ∈ schema.names)
    (hcondition : ∀ column ∈ (condition.map Expr.columns).getD [], column ∈ schema.names)
    (hnames : ((items schema selection).map SelectItem.outputName).Nodup)
    (hreserved : reservedName ∉ (items schema selection).map SelectItem.outputName) :
    ∃ rows result store', store.rows name = .ok (schema, rows) ∧
      (run (.select true selection name condition)).run store = (result, store') ∧
      (∀ text, Statement.ofText text = .ok (.select true selection name condition) →
        (execute text).run store = (result, store')) ∧
      (∀ row ∈ matching condition rows, ∀ row' ∈ matching condition rows,
        merges (items schema selection) row row' = true ↔
          ∃ record, Shows (items schema selection) row record ∧
            Shows (items schema selection) row' record) ∧
      ((∀ row ∈ rows, ∃ b, judge condition row = .ok b) → ∃ kept records,
        kept = firsts (merges (items schema selection)) (matching condition rows) ∧
        List.Forall₂ (Shows (items schema selection)) kept records ∧ result = .ok (.rows records) ∧
        kept.Pairwise (fun row row' ↦ merges (items schema selection) row row' = false) ∧
        ∀ row ∈ matching condition rows, ∃ first ∈ kept,
          merges (items schema selection) first row = true) := by
  obtain ⟨rows, store', hrows, hkeeps, hrun, -⟩ :=
    h.exists_select hschema hitems hcondition true
  have hmatching : ∀ row ∈ matching condition rows, schema.Keeps row :=
    fun row hrow ↦ hkeeps row (List.mem_filter.mp hrow).1
  have hmerges : ∀ row ∈ matching condition rows, ∀ row' ∈ matching condition rows,
      merges (items schema selection) row row' = true ↔
        objectOf (items schema selection) row = objectOf (items schema selection) row' := by
    intro row hrow row' hrow'
    rw [merges_iff_cells (hmatching row hrow) (hmatching row' hrow') hitems, objectOf_eq_iff hnames]
  refine ⟨rows, _, store', hrows, hrun, fun text hparse ↦ (execute_run hparse store).trans hrun,
    fun row hrow row' hrow' ↦ ?_, fun hjudged ↦ ⟨_, _, rfl, forall₂_shows ?_ hitems, ?_,
      pairwise_firsts _ _, fun row hrow ↦ ?_⟩⟩
  · have hshows := shows_objectOf (hmatching row hrow) hitems
    have hshows' := shows_objectOf (hmatching row' hrow') hitems
    rw [hmerges row hrow row' hrow']
    constructor
    · exact fun heq ↦ ⟨_, hshows, heq ▸ hshows'⟩
    · rintro ⟨record, hrecord, hrecord'⟩
      rw [hshows.unique hrecord, hshows'.unique hrecord']
  · exact fun row hrow ↦ hmatching row ((firsts_sublist _ _).mem hrow)
  · obtain ⟨judged, hjudged⟩ := exists_mapM_eq_ok hjudged
    rw [hjudged, visible_true hmatching hitems hnames hreserved]
    rfl
  · refine exists_mem_firsts (fun x hx ↦ (hmerges x hx x hx).mpr rfl)
      (fun x hx y hy z hz hxy hyz ↦ ?_) hrow
    exact (hmerges x hx z hz).mpr
      (((hmerges x hx y hy).mp hxy).trans ((hmerges y hy z hz).mp hyz))

theorem select_distinct_ids : ∃ store store', Reachable store ∧
    store.rows "t" = .ok (numbered, [numberedRow 7 1, numberedRow 8 2, numberedRow 7 3]) ∧
    (execute "SELECT DISTINCT Id FROM t").run store =
      (.ok (.rows [[("Id", .scalar (.number (.integer 7)))],
        [("Id", .scalar (.number (.integer 8)))]]), store') := by
  obtain ⟨store, hstore⟩ := Stocked.numbered [(7, 1), (8, 2), (7, 3)]
  have hparse : Statement.ofText "SELECT DISTINCT Id FROM t" =
      .ok (.select true (.items [⟨"Id", none⟩]) "t" none) :=
    toOption_eq_some.mp (by decide +kernel)
  have hshown : ∀ id n : Int64, Shows [⟨"Id", none⟩] (numberedRow id n)
      [("Id", .scalar (.number (.integer id.toInt)))] :=
    fun id n ↦ shows_objectOf (keeps_numberedRow id n) (by decide)
  obtain ⟨rows, result, store', hrows, -, hexecute, -, hjudged⟩ :=
    @select_distinct _ _ _ (.items [⟨"Id", none⟩]) none hstore.1 hstore.schema_eq (by decide)
      (by decide) (by decide) (by decide)
  obtain ⟨-, rfl⟩ := Prod.mk.inj (Except.ok.inj (hstore.rows_eq.symm.trans hrows))
  obtain ⟨kept, records, hkept, hshows, rfl, -⟩ := hjudged fun row _ ↦ ⟨true, rfl⟩
  have hfirsts : firsts (merges [⟨"Id", none⟩])
      (matching none ([(7, 1), (8, 2), (7, 3)].map fun entry ↦ numberedRow entry.1 entry.2)) =
        [numberedRow 7 1, numberedRow 8 2] := by
    decide
  obtain rfl := hkept.trans hfirsts
  rcases hshows with _ | ⟨hfirst, _ | ⟨hsecond, _ | _⟩⟩
  obtain rfl := hfirst.unique (hshown 7 1)
  obtain rfl := hsecond.unique (hshown 8 2)
  exact ⟨store, store', hstore.1, hrows, hexecute _ hparse⟩

def measured : Schema where
  columns := [{ name := "x", type := .float }]
  nodup := by decide

def measuredRow (x : Double.Finite) : Row := Row.empty.set "x" (.float (.finite x))

/-- The two zeros are equal under `=`, and a selection of distinct objects gives both. -/
theorem exists_zeros_apart : ∃ store store', Reachable store ∧
    store.rows "z" = .ok (measured, [measuredRow (.zero false), measuredRow (.zero true)]) ∧
    Value.sameValue (.float (.finite (.zero false))) (.float (.finite (.zero true))) = .ok true ∧
    (execute "SELECT DISTINCT x FROM z").run store =
      (.ok (.rows [[("x", .scalar (.number (.float (.zero false))))],
        [("x", .scalar (.number (.float (.zero true))))]]), store') := by
  have hkeeps : ∀ x, measured.Keeps (measuredRow x) := fun _ ↦ ⟨rfl, _, rfl⟩
  have hempty := @Stocked.createTable "z" measured (by decide) (by decide) (by decide +kernel)
  obtain ⟨store, hstore⟩ := @Stocked.insertAll _ _ _ _ _ hempty
      [measuredRow (.zero false), measuredRow (.zero true)] fun row hrow ↦ by
    rcases List.mem_pair.mp hrow with rfl | rfl <;> exact ⟨hkeeps _, nofun⟩
  have hparse : Statement.ofText "SELECT DISTINCT x FROM z" =
      .ok (.select true (.items [⟨"x", none⟩]) "z" none) :=
    toOption_eq_some.mp (by decide +kernel)
  obtain ⟨rows, store', hrows, hall, hrun, -⟩ :=
    @Reachable.exists_select _ _ _ (.items [⟨"x", none⟩]) none hstore.1 hstore.schema_eq (by decide)
      (by decide) true
  obtain ⟨-, rfl⟩ := Prod.mk.inj (Except.ok.inj (hstore.rows_eq.symm.trans hrows))
  have hfirsts : firsts (merges [⟨"x", none⟩])
      [measuredRow (.zero false), measuredRow (.zero true)] =
        [measuredRow (.zero false), measuredRow (.zero true)] := by
    decide
  have hvisible := @visible_true _ [⟨"x", none⟩] _ hall (by decide) (by decide) (by decide)
  rw [List.nil_append, hfirsts] at hvisible
  refine ⟨store, store', hstore.1, hrows, by decide, ?_⟩
  rw [execute_run hparse]
  exact hrun.trans (congrArg (fun records ↦ (Except.ok (Outcome.rows records), store')) hvisible)

end Database

end TableStore
