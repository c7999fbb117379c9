import TableStore.Proofs.Number.Decimal
import TableStore.Proofs.Result
import TableStore.Store.Scan

namespace TableStore

theorem lt_iff_le_pred {a b : Int64} (h : b ≠ Int64.minValue) : a < b ↔ a ≤ b - 1 := by
  have hlow := Int64.minValue_le_toInt b
  have hhigh := Int64.toInt_lt b
  have hmin : Int64.minValue.toInt = -9223372036854775808 := rfl
  have hne : b.toInt ≠ Int64.minValue.toInt := fun heq ↦ h (Int64.toInt_inj.mp heq)
  have hpred : (b - 1).toInt = b.toInt - 1 := by
    rw [Int64.toInt_sub, Int64.toInt_one, Int.bmod_eq_of_le (by omega) (by omega)]
  rw [Int64.lt_iff_toInt_lt, Int64.le_iff_toInt_le, hpred]
  omega

theorem lt_iff_succ_le {a b : Int64} (h : a ≠ Int64.maxValue) : a < b ↔ a + 1 ≤ b := by
  have hlow := Int64.minValue_le_toInt a
  have hhigh := Int64.toInt_lt a
  have hmin : Int64.minValue.toInt = -9223372036854775808 := rfl
  have hmax : Int64.maxValue.toInt = 9223372036854775807 := rfl
  have hne : a.toInt ≠ Int64.maxValue.toInt := fun heq ↦ h (Int64.toInt_inj.mp heq)
  have hsucc : (a + 1).toInt = a.toInt + 1 := by
    rw [Int64.toInt_add, Int64.toInt_one, Int.bmod_eq_of_le (by omega) (by omega)]
  rw [Int64.lt_iff_toInt_lt, Int64.le_iff_toInt_le, hsucc]
  omega

namespace Comparison

theorem exists_range_iff {low high key : Int64} :
    (∃ low' high', some (low, high) = some (low', high') ∧ low' ≤ key ∧ key ≤ high') ↔
      low ≤ key ∧ key ≤ high := by
  constructor
  · rintro ⟨low', high', hrange, hkey⟩
    obtain ⟨rfl, rfl⟩ := Prod.mk.inj (Option.some.inj hrange)
    exact hkey
  · exact fun hkey ↦ ⟨low, high, rfl, hkey⟩

/-- A comparison holds of the keys in its range and of no others. -/
theorem holds_iff (comparison : Comparison) (key value : Int64) :
    comparison.holds key value = true ↔
    ∃ low high, comparison.keyRange? value = some (low, high) ∧ low ≤ key ∧ key ≤ high := by
  cases comparison with
  | eq =>
    rw [keyRange?, exists_range_iff, holds, beq_iff_eq]
    constructor
    · rintro rfl
      exact ⟨Int64.le_refl _, Int64.le_refl _⟩
    · exact fun ⟨hlow, hhigh⟩ ↦ Int64.le_antisymm hhigh hlow
  | lt =>
    by_cases h : value = Int64.minValue
    · simp [holds, keyRange?, h]
    · rw [keyRange?, if_neg h, exists_range_iff, holds, decide_eq_true_eq, lt_iff_le_pred h]
      simp
  | le =>
    rw [keyRange?, exists_range_iff, holds, decide_eq_true_eq]
    simp
  | gt =>
    by_cases h : value = Int64.maxValue
    · simp [holds, keyRange?, h]
    · rw [keyRange?, if_neg h, exists_range_iff, holds, decide_eq_true_eq, lt_iff_succ_le h]
      simp
  | ge =>
    rw [keyRange?, exists_range_iff, holds, decide_eq_true_eq]
    simp

theorem keyRange?_eq_none_iff (comparison : Comparison) (value : Int64) :
    comparison.keyRange? value = none ↔
      comparison = .lt ∧ value = Int64.minValue ∨ comparison = .gt ∧ value = Int64.maxValue := by
  cases comparison <;> simp [keyRange?]

theorem not_holds_of_keyRange?_eq_none {comparison : Comparison} {value : Int64}
    (h : comparison.keyRange? value = none) (key : Int64) : comparison.holds key value = false := by
  rw [Bool.eq_false_iff]
  intro hholds
  obtain ⟨low, high, hrange, -⟩ := (comparison.holds_iff key value).mp hholds
  cases h.symm.trans hrange

end Comparison

namespace Expr

variable {row : Row} {name : String} {key value : Int64} {op : Operator} {comparison : Comparison}

theorem evaluate_unnested (row : Row) (e : Expr) : e.unnested.evaluate row = e.evaluate row := by
  induction e with
  | nested inner ih => exact ih
  | _ => rfl

theorem apply_int (h : op.comparison? = some comparison) :
    op.apply (.int key) (.int value) = .ok (comparison.holds key value) := by
  cases op <;> cases h <;>
    simp [Operator.apply, Operator.comparison?, Value.integer, Value.integer?, Value.sameValue,
      Value.encode, Json.Scalar.sameValue, Json.Number.sameValue, Json.Number.toInt64?,
      Numeral.int64?_toInt, Comparison.holds]

theorem evaluate_of_hint {e : Expr} {hint : IndexHint} (h : e.hint? = some hint)
    (hkey : row.get? hint.column = some (.int key)) :
    e.evaluate row = .ok (hint.comparison.holds key hint.value) := by
  rw [← evaluate_unnested]
  rw [hint?] at h
  cases hshape : e.unnested with
  | binary left op right =>
    rw [hshape] at h
    simp only at h
    cases hleft : left.unnested with
    | column name =>
      cases hright : right.unnested with
      | literal literal =>
        cases literal with
        | int value =>
          rw [hleft, hright] at h
          obtain ⟨comparison, hcomparison, rfl⟩ := Option.map_eq_some_iff.mp h
          have harithmetic : op.isArithmetic = false := by cases op <;> cases hcomparison <;> rfl
          simp only [evaluate, operand, hleft, lookup, literalOperand, hright,
            harithmetic] at hkey ⊢
          rw [hkey]
          exact apply_int hcomparison
        | _ => simp [hleft, hright] at h
      | _ => simp [hleft, hright] at h
    | _ => simp [hleft] at h
  | _ => simp [hshape] at h

/-- Of a row with an integer in the column of its hint, a condition says what the comparison of the hint
says. The comparison holds of the keys in its range and of no others, whatever it compares with; and it
has no range, and holds of no key, where it asks for less than the least or for more than the greatest
integer. -/
theorem hint_exact {e : Expr} {hint : IndexHint} (h : e.hint? = some hint) :
    (∀ row key, row.get? hint.column = some (.int key) →
      e.evaluate row = .ok (hint.comparison.holds key hint.value)) ∧
    ∀ value,
      (∀ key, hint.comparison.holds key value = true ↔
        ∃ low high, hint.comparison.keyRange? value = some (low, high) ∧ low ≤ key ∧ key ≤ high) ∧
      (hint.comparison.keyRange? value = none ↔
        hint.comparison = .lt ∧ value = Int64.minValue ∨
          hint.comparison = .gt ∧ value = Int64.maxValue) ∧
      (hint.comparison.keyRange? value = none → ∀ key, hint.comparison.holds key value = false) :=
  ⟨fun _ _ hkey ↦ evaluate_of_hint h hkey, fun value ↦
    ⟨fun key ↦ hint.comparison.holds_iff key value, hint.comparison.keyRange?_eq_none_iff value,
      Comparison.not_holds_of_keyRange?_eq_none⟩⟩

/-- `((a) < (-9223372036854775808))` -/
def belowLeast : Expr :=
  .nested (.binary (.nested (.column "a")) .lt (.nested (.literal (.int Int64.minValue))))

theorem hint_exact_least :
    belowLeast.hint? = some ⟨"a", .lt, Int64.minValue⟩ ∧
    belowLeast.evaluate (.ofList [("a", .int Int64.minValue)]) = .ok false ∧
    Comparison.lt.keyRange? Int64.minValue = none ∧
    (∀ key, Comparison.lt.holds key Int64.minValue = false) ∧
    ∀ key, Comparison.lt.holds key 5 = true ↔
      ∃ low high, Comparison.lt.keyRange? 5 = some (low, high) ∧ low ≤ key ∧ key ≤ high := by
  have hhint : belowLeast.hint? = some ⟨"a", .lt, Int64.minValue⟩ := rfl
  obtain ⟨hevaluate, hrange⟩ := hint_exact hhint
  obtain ⟨-, hnone, hnever⟩ := hrange Int64.minValue
  have hempty := hnone.mpr (.inl ⟨rfl, rfl⟩)
  exact ⟨hhint, hevaluate (.ofList [("a", .int Int64.minValue)]) _ rfl, hempty, hnever hempty,
    (hrange 5).1⟩

end Expr

/-- A predicate says what its hint says of a row with an integer in the column of the hint. -/
def Predicate.HintHolds (predicate : Predicate) : Prop :=
  ∀ {hint}, predicate.hint = some hint → ∀ {row key}, row.get? hint.column = some (.int key) →
    predicate.accepts row = .ok (hint.comparison.holds key hint.value)

theorem Predicate.ofExpr_hintHolds (e : Expr) : (ofExpr e).HintHolds := by
  intro hint hhint row key hkey
  change (e.evaluate row).mapError Error.condition = _
  rw [Expr.evaluate_of_hint hhint hkey, mapError_ok]

theorem Predicate.compare_hintHolds (hint : IndexHint) : (compare hint).HintHolds := by
  intro other hother row key hkey
  obtain rfl := Option.some.inj hother
  simp [compare, hkey, Value.int?]

end TableStore
