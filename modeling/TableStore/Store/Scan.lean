import TableStore.Store.Basic

namespace TableStore

/-- A filter of rows, perhaps with a comparison that every accepted row passes. The filter may fail
with an error of its own, but it comes to an answer. -/
structure Predicate where
  accepts : Row → Except Error Bool
  hint : Option IndexHint
  answers {row : Row} {e : Error} : accepts row = .error e → e.isPanic = false

namespace Predicate

def all : Predicate where
  accepts _ := .ok true
  hint := none
  answers h := by cases h

def compare (hint : IndexHint) : Predicate where
  accepts row := .ok <|
    ((row.get? hint.column).bind Value.int?).any fun key ↦ hint.comparison.holds key hint.value
  hint := some hint
  answers h := by cases h

def ofExpr (e : Expr) : Predicate where
  accepts row := (e.evaluate row).mapError .condition
  hint := e.hint?
  answers {row _} h := by
    cases hrow : e.evaluate row with
    | error fault =>
      rw [hrow] at h
      cases h
      rfl
    | ok b =>
      rw [hrow] at h
      cases h

def ofCondition : Option Expr → Predicate
  | none => all
  | some e => ofExpr e

end Predicate

/-- How the rows to be filtered are found: all of them, or those with keys in a range. -/
inductive ScanPlan
  | full
  | index (column : String) (low high : Int64)
  deriving DecidableEq

def Store.plan (store : Store) (table : String) (hint : Option IndexHint) : ScanPlan :=
  match hint with
  | none => .full
  | some hint =>
    if store.hasIndex table hint.column then
      match hint.comparison.keyRange? hint.value with
      | some (low, high) => .index hint.column low high
      | none => .full
    else .full

namespace Operation

def holdsKey (column : String) (keys : List Int64) (row : Row) : Bool :=
  ((row.get? column).bind Value.int?).any (· ∈ keys)

def candidates (table : String) : ScanPlan → Operation (Row → Bool)
  | .full => return fun _ ↦ true
  | .index column low high => do
    return holdsKey column ((← index table column).range low high)

/-- The candidates that the filter accepts, with their positions, which count from `position`. -/
def filterRows {ε : Type} (isCandidate : Row → Bool) (accepts : Row → Except ε Bool) :
    Nat → List Row → Except ε (List (Nat × Row))
  | _, [] => .ok []
  | position, row :: rest =>
    if isCandidate row then do
      let accepted ← accepts row
      let found ← filterRows isCandidate accepts (position + 1) rest
      return if accepted then (position, row) :: found else found
    else filterRows isCandidate accepts (position + 1) rest

def scan (table : String) (predicate : Predicate) : Operation (List (Nat × Row)) := do
  let (document, schema) ← ask fun store ↦ store.document table
  let rows ← ask fun store ↦ store.decodeRows document schema
  let isCandidate ← candidates table ((← get).plan table predicate.hint)
  ofResult (filterRows isCandidate predicate.accepts 0 rows)

def query (table : String) (predicate : Predicate) : Operation (List Row) := do
  return (← scan table predicate).map Prod.snd

def queryColumns (table : String) (columns : List String) (predicate : Predicate) :
    Operation (List Row) := do
  let schema ← ask fun store ↦ store.schema table
  ofResult (Store.checkColumns table schema columns)
  return (← scan table predicate).map fun (_, row) ↦ row.project columns

end Operation

end TableStore
