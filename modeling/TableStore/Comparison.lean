namespace TableStore

/-- The comparisons of integers that an index can answer. -/
inductive Comparison
  | eq
  | lt
  | le
  | gt
  | ge
  deriving DecidableEq

namespace Comparison

def holds : Comparison → Int64 → Int64 → Bool
  | .eq, left, right => left == right
  | .lt, left, right => left < right
  | .le, left, right => left ≤ right
  | .gt, left, right => right < left
  | .ge, left, right => right ≤ left

/-- The least and the greatest key that compare with `value`, if any key does. -/
def keyRange? (comparison : Comparison) (value : Int64) : Option (Int64 × Int64) :=
  match comparison with
  | .eq => some (value, value)
  | .lt => if value = Int64.minValue then none else some (Int64.minValue, value - 1)
  | .le => some (Int64.minValue, value)
  | .gt => if value = Int64.maxValue then none else some (value + 1, Int64.maxValue)
  | .ge => some (value, Int64.maxValue)

end Comparison

/-- States that a predicate accepts a row only if the integer in `column` compares with `value`. -/
structure IndexHint where
  column : String
  comparison : Comparison
  value : Int64
  deriving DecidableEq

end TableStore
