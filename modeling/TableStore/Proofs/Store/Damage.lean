import TableStore.Database
import TableStore.Proofs.Result

namespace TableStore

namespace Error

def isCorrupt : Error → Bool
  | .corrupt .. => true
  | _ => false

def isDamage (e : Error) : Bool := e.isPanic || e.isCorrupt

end Error

theorem Store.lt_of_checkPosition {table : String} {document : TableDocument} {position : Nat}
    (h : checkPosition table document position = .ok ()) : position < document.records.length :=
  of_decide_eq_true (ensure_eq_ok.mp h)

/-- A result that is no error of a kind. -/
def Avoids (kind : Error → Bool) {α : Type} (result : Except Error α) : Prop :=
  ∀ e, result = .error e → kind e = false

namespace Avoids

variable {kind : Error → Bool} {ε α β : Type}

theorem ok (a : α) : Avoids kind (.ok a) := by
  intro e h
  cases h

theorem error {e : Error} (h : kind e = false) : Avoids kind (.error e : Except Error α) :=
  fun _ heq ↦ Except.error.inj heq ▸ h

instance (result : Except Error α) : Decidable (Avoids kind result) :=
  match result with
  | .ok a => .isTrue (ok a)
  | .error e => decidable_of_iff (kind e = false) ⟨error, fun h ↦ h e rfl⟩

theorem exists_error {result : Except Error α} (h : ¬Avoids kind result) :
    ∃ e, result = .error e ∧ kind e = true := by
  cases result with
  | ok a => exact absurd (ok a) h
  | error e => exact ⟨e, rfl, by simpa using fun hkind ↦ h (error hkind)⟩

theorem ne_corrupt {result : Except Error α} (h : Avoids Error.isCorrupt result) (path : Path)
    (reason : Corruption) : result ≠ .error (.corrupt path reason) :=
  fun heq ↦ Bool.noConfusion (h _ heq)

theorem bind {x : Except Error α} {f : α → Except Error β} (h : Avoids kind x)
    (hf : ∀ a, Avoids kind (f a)) : Avoids kind (x >>= f) := by
  cases x with
  | error e => exact error (h e rfl)
  | ok a => exact hf a

theorem map {x : Except Error α} (h : Avoids kind x) (f : α → β) : Avoids kind (x.map f) := by
  cases x with
  | error e => exact error (h e rfl)
  | ok a => exact ok _

theorem mapM {f : α → Except Error β} {xs : List α} (hf : ∀ x, Avoids kind (f x)) :
    Avoids kind (xs.mapM f) := by
  induction xs with
  | nil => exact ok []
  | cons x xs ih =>
    rw [List.mapM_cons]
    exact bind (hf x) fun _ ↦ bind ih fun _ ↦ ok _

theorem forM {f : α → Except Error Unit} {xs : List α} (hf : ∀ x, Avoids kind (f x)) :
    Avoids kind (xs.forM f) := by
  induction xs with
  | nil => exact ok ()
  | cons x xs ih => exact bind (hf x) fun _ ↦ ih

theorem foldlM {f : β → α → Except Error β} {xs : List α} (hf : ∀ b x, Avoids kind (f b x))
    (b : β) : Avoids kind (xs.foldlM f b) := by
  induction xs generalizing b with
  | nil => exact ok b
  | cons x xs ih =>
    rw [List.foldlM_cons]
    exact bind (hf b x) ih

theorem ensure {holds : Bool} {e : Error} (he : kind e = false) :
    Avoids kind (TableStore.ensure holds e) := by
  cases holds with
  | true => exact ok ()
  | false => exact error he

theorem mapError {x : Except ε α} {f : ε → Error} (hf : ∀ e, kind (f e) = false) :
    Avoids kind (x.mapError f) := by
  cases x with
  | error e => exact error (hf e)
  | ok a => exact ok a

theorem mono {kind' : Error → Bool} {result : Except Error α} (h : Avoids kind result)
    (hkind : ∀ e, kind' e = true → kind e = true) : Avoids kind' result := by
  intro e he
  rw [← Bool.not_eq_true]
  exact fun hkind' ↦ Bool.noConfusion ((h e he).symm.trans (hkind e hkind'))

theorem panic {result : Except Error α} (h : Avoids Error.isDamage result) :
    Avoids Error.isPanic result :=
  h.mono fun _ he ↦ Bool.or_eq_true_iff.mpr (.inl he)

theorem corrupt {result : Except Error α} (h : Avoids Error.isDamage result) :
    Avoids Error.isCorrupt result :=
  h.mono fun _ he ↦ Bool.or_eq_true_iff.mpr (.inr he)

variable (store : Store) (table : String)

theorem checkName (name : String) : Avoids Error.isDamage (Store.checkName name) := by
  unfold Store.checkName
  split
  · exact ok ()
  · exact error rfl

theorem checkTable : Avoids Error.isDamage (store.checkTable table) := by
  unfold Store.checkTable
  split
  · exact ok ()
  · exact error rfl

theorem checkColumn (schema : Schema) (name : String) :
    Avoids Error.isDamage (Store.checkColumn table schema name) := by
  unfold Store.checkColumn
  split
  · exact ok _
  · exact error rfl

theorem checkColumns (schema : Schema) (names : List String) :
    Avoids Error.isDamage (Store.checkColumns table schema names) :=
  forM fun name ↦ map (checkColumn table schema name) _

theorem checkIndexable (column : String) (schema : Schema) :
    Avoids Error.isDamage (Store.checkIndexable table column schema) := by
  unfold Store.checkIndexable
  split
  · exact error rfl
  · exact ensure rfl

theorem checkPosition (document : TableDocument) (position : Nat) :
    Avoids Error.isDamage (Store.checkPosition table document position) :=
  ensure rfl

theorem encode (schema : Schema) (row : Row) :
    Avoids Error.isDamage (Store.encode table schema row) :=
  mapError fun fault ↦ by cases fault <;> rfl

theorem indexKey (column : String) (row : Row) :
    Avoids Error.isDamage (Store.indexKey table column row) := by
  unfold Store.indexKey
  split
  · exact ok _
  · exact error rfl

theorem listIndexes : Avoids Error.isDamage (store.listIndexes table) :=
  bind (mapError fun _ ↦ rfl) fun _ ↦ ok _

theorem fit (column : Column) (value : Value) :
    Avoids Error.isDamage (Database.fit column value) := by
  unfold Database.fit
  split
  · exact ok _
  · exact ok _
  · split
    · exact ok _
    · exact error rfl
  · exact ok _

theorem addCell (schema : Schema) (row : Row) (cell : String × Value) :
    Avoids Error.isDamage (Database.addCell table schema row cell) :=
  bind (checkColumn table schema cell.1) fun column ↦ bind (ensure rfl) fun _ ↦
    bind (fit column cell.2) fun _ ↦ ok _

theorem insertedRow (schema : Schema) (columns : Option (List String)) (values : List Value) :
    Avoids Error.isDamage (Database.insertedRow table schema columns values) :=
  bind (ensure rfl) fun _ ↦ foldlM (addCell table schema) Row.empty

theorem fittedChange (schema : Schema) (change : String × Value) :
    Avoids Error.isDamage (Database.fittedChange table schema change) :=
  bind (checkColumn table schema change.1) fun column ↦ bind (fit column change.2) fun _ ↦ ok _

theorem required (condition : Option Expr) :
    Avoids Error.isDamage (Database.required condition) := by
  cases condition with
  | none => exact error rfl
  | some e => exact ok e

theorem filterRows {isCandidate : Row → Bool} {accepts : Row → Except Error Bool}
    (h : ∀ row, Avoids kind (accepts row)) (position : Nat) (rows : List Row) :
    Avoids kind (Operation.filterRows isCandidate accepts position rows) := by
  induction rows generalizing position with
  | nil => exact ok []
  | cons row rows ih =>
    rw [Operation.filterRows]
    split
    · exact bind (h row) fun _ ↦ bind (ih (position + 1)) fun _ ↦ ok _
    · exact ih (position + 1)

theorem readText (path : Path) : Avoids Error.isPanic (store.readText path) :=
  mapError fun _ ↦ rfl

theorem tableOfText (path : Path) (text : String) :
    Avoids Error.isPanic (Store.tableOfText path text) := by
  unfold Store.tableOfText
  split
  · exact error rfl
  · split
    · exact error rfl
    · exact ok _

theorem document : Avoids Error.isPanic (store.document table) :=
  bind (checkName table).panic fun _ ↦ bind (ensure rfl) fun _ ↦
    bind (readText store _) fun text ↦ tableOfText _ text

theorem schema : Avoids Error.isPanic (store.schema table) :=
  bind (document store table) fun _ ↦ ok _

theorem rowCount : Avoids Error.isPanic (store.rowCount table) :=
  bind (document store table) fun _ ↦ ok _

theorem decodeRecord (path : Path) (schema : Schema) (record : Record) :
    Avoids Error.isPanic (Store.decodeRecord path schema record) :=
  mapError fun _ ↦ rfl

theorem decodeRows (document : TableDocument) (schema : Schema) :
    Avoids Error.isPanic (store.decodeRows document schema) :=
  mapM fun record ↦ decodeRecord _ schema record

theorem decodeAt {document : TableDocument} {position : Nat} (schema : Schema)
    (h : position < document.records.length) :
    Avoids Error.isPanic (store.decodeAt table document schema position) := by
  rw [Store.decodeAt, Store.recordAt_eq h]
  exact decodeRecord _ schema _

theorem treeOfText (path : Path) (text : String) :
    Avoids Error.isPanic (Store.treeOfText path text) := by
  unfold Store.treeOfText
  split
  · exact error rfl
  · split
    · exact error rfl
    · exact ok _

theorem readIndex (column : String) : Avoids Error.isPanic (store.readIndex table column) :=
  bind (ensure rfl) fun _ ↦ bind (readText store _) fun text ↦ treeOfText _ text

end Avoids

end TableStore
