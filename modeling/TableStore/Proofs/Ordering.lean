import TableStore.Evaluation
import TableStore.Proofs.Number.Rounding
import TableStore.Proofs.Number.Spelled
import TableStore.Proofs.Result

namespace TableStore

theorem Numeral.toInt_clamp (i : Int) :
    (clamp i).toInt = max Int64.minValue.toInt (min i Int64.maxValue.toInt) := by
  have hbounds : Int64.minValue.toInt ≤ Int64.maxValue.toInt := by decide
  rw [clamp]
  split
  · omega
  · split
    · omega
    · rename_i hlow hhigh
      have hfits := Int.not_lt.mp hlow
      have hfits' := Int.not_lt.mp hhigh
      have hback : (Int64.ofInt i).toInt = i := int64?_eq_some.mp (if_pos ⟨hfits, hfits'⟩)
      omega

theorem Numeral.clamp_toInt (n : Int64) : clamp n.toInt = n := by
  have hmin := n.minValue_le_toInt
  have hmax := n.toInt_le
  rw [← Int64.toInt_inj, toInt_clamp]
  omega

namespace Comparison

/-- The order of integers that a comparison asks for. -/
def Orders : Comparison → Int → Int → Prop
  | .eq, i, j => i = j
  | .lt, i, j => i < j
  | .le, i, j => i ≤ j
  | .gt, i, j => j < i
  | .ge, i, j => j ≤ i

instance (comparison : Comparison) (i j : Int) : Decidable (comparison.Orders i j) :=
  match comparison with
  | .eq => inferInstanceAs (Decidable (i = j))
  | .lt => inferInstanceAs (Decidable (i < j))
  | .le => inferInstanceAs (Decidable (i ≤ j))
  | .gt => inferInstanceAs (Decidable (j < i))
  | .ge => inferInstanceAs (Decidable (j ≤ i))

theorem holds_iff_orders (comparison : Comparison) (m n : Int64) :
    comparison.holds m n = true ↔ comparison.Orders m.toInt n.toInt := by
  cases comparison with
  | eq => rw [holds, Orders, beq_iff_eq, Int64.toInt_inj]
  | lt => rw [holds, Orders, decide_eq_true_iff, Int64.lt_iff_toInt_lt]
  | le => rw [holds, Orders, decide_eq_true_iff, Int64.le_iff_toInt_le]
  | gt => rw [holds, Orders, decide_eq_true_iff, Int64.lt_iff_toInt_lt]
  | ge => rw [holds, Orders, decide_eq_true_iff, Int64.le_iff_toInt_le]

theorem orders_congr {i j k l : Int} (comparison : Comparison) (hle : i ≤ j ↔ k ≤ l)
    (hge : j ≤ i ↔ l ≤ k) : comparison.Orders i j ↔ comparison.Orders k l := by
  cases comparison <;> simp only [Orders] <;> omega

end Comparison

namespace Value

/-- The integer that the orderings read a value as, however large it is. -/
inductive Reads : Value → Int → Prop
  | int (n : Int64) : Reads (.int n) n.toInt
  | float {x : Double.Finite} {i : Int} (h : x.RoundsTo i) : Reads (.float (.finite x)) i
  | bool (b : Bool) : Reads (.bool b) (if b then 1 else 0)
  | text {s : String} {core : List Char} {i : Int} (htrim : Text.Trims s.toList core)
    (h : Numeral.Spells core i) : Reads (.text s) i

variable {v w : Value} {i j : Int} {m n : Int64}

theorem Reads.unique (h : v.Reads i) (h' : v.Reads j) : i = j := by
  cases h with
  | int => cases h'; rfl
  | float h =>
    cases h' with
    | float h' => exact h.unique Double.resolution_pos h'
  | bool => cases h'; rfl
  | text htrim h =>
    cases h' with
    | text htrim' h' =>
      rw [← htrim.trim_eq h.ne_nil h.not_blank] at h
      rw [← htrim'.trim_eq h'.ne_nil h'.not_blank] at h'
      exact h.unique h'

theorem integer_eq_ok : v.integer = .ok n ↔ v.integer? = some n := by
  rw [integer]
  cases v.integer? with
  | none => exact ⟨nofun, nofun⟩
  | some m => rw [Except.ok.injEq, Option.some.injEq]

theorem integer_eq_error (h : ∀ n, v.integer ≠ .ok n) : v.integer = .error (.noInteger v) := by
  rw [integer] at h ⊢
  cases hv : v.integer? with
  | none => rfl
  | some n => exact absurd (by rw [hv]) (h n)

theorem integer?_float {x : Double.Finite} (h : x.RoundsTo i) :
    (Value.float (.finite x)).integer? = some (Numeral.clamp i) := by
  rw [integer?, Double.Finite.roundsTo_iff.mp h]

theorem Reads.integer?_eq (h : v.Reads n.toInt) : v.integer? = some n := by
  generalize hn : n.toInt = i at h
  cases h with
  | int m => rw [integer?, Int64.toInt_inj.mp hn]
  | float h => rw [integer?_float h, ← hn, Numeral.clamp_toInt]
  | bool b =>
    rw [integer?, Option.some.injEq, ← Int64.toInt_inj, hn]
    cases b <;> rfl
  | text htrim h =>
    rw [integer?, htrim.trim_eq h.ne_nil h.not_blank, Numeral.signed?_eq_some, hn]
    exact h

theorem reads_of_integer? (h : v.integer? = some n) : v.Reads n.toInt ∨
    ∃ x i, v = .float (.finite x) ∧ x.RoundsTo i ∧ n = Numeral.clamp i := by
  cases v with
  | int m =>
    obtain rfl := Option.some.inj h
    exact .inl (.int m)
  | float x =>
    cases x with
    | finite x =>
      obtain rfl := Option.some.inj h
      exact .inr ⟨x, _, rfl, x.roundsTo_toIntHalfEven, rfl⟩
    | _ => cases h
  | bool b =>
    obtain rfl := Option.some.inj h
    cases b with
    | false => exact .inl (.bool false)
    | true => exact .inl (.bool true)
  | text s => exact .inl (.text (Text.trims_trim _) (Numeral.signed?_eq_some.mp h))
  | _ => cases h

theorem integer_eq_ok_iff : v.integer = .ok n ↔ ∃ i, v.Reads i ∧ (n.toInt = i ∨
    (∃ x, v = .float x) ∧ n.toInt = max Int64.minValue.toInt (min i Int64.maxValue.toInt)) := by
  rw [integer_eq_ok]
  constructor
  · intro h
    rcases reads_of_integer? h with hread | ⟨x, i, rfl, hround, rfl⟩
    · exact ⟨n.toInt, hread, .inl rfl⟩
    · exact ⟨i, .float hround, .inr ⟨⟨_, rfl⟩, Numeral.toInt_clamp i⟩⟩
  · rintro ⟨i, h, rfl | ⟨⟨x, rfl⟩, hn⟩⟩
    · exact h.integer?_eq
    · cases h with
      | float h =>
        rw [integer?_float h, Option.some.injEq, ← Int64.toInt_inj, Numeral.toInt_clamp, hn]

/-- What a value is taken for is the integer of 64 bits closest to what it reads as. -/
theorem Reads.toInt_eq (h : v.Reads i) (hm : v.integer = .ok m) :
    m.toInt = max Int64.minValue.toInt (min i Int64.maxValue.toInt) := by
  have hlow := m.minValue_le_toInt
  have hhigh := m.toInt_le
  obtain ⟨i', h', hm⟩ := integer_eq_ok_iff.mp hm
  obtain rfl := h.unique h'
  rcases hm with hm | ⟨-, hm⟩ <;> omega

theorem Reads.orders_iff (hv : v.Reads i) (hw : w.Reads j) (hm : v.integer = .ok m)
    (hn : w.integer = .ok n) (happart : m = n → i = j) (comparison : Comparison) :
    comparison.Orders m.toInt n.toInt ↔ comparison.Orders i j := by
  have hi := hv.toInt_eq hm
  have hj := hw.toInt_eq hn
  have hsame : m.toInt = n.toInt → i = j := fun h ↦ happart (Int64.toInt_inj.mp h)
  exact comparison.orders_congr (by omega) (by omega)

end Value

/-- On the row, a condition asks for this comparison of these two values. -/
structure Expr.Compares (row : Row) (left : Expr) (op : Operator) (right : Expr)
    (comparison : Comparison) (v w : Value) : Prop where
  ordering : op.comparison? = some comparison
  ne_eq : comparison ≠ .eq
  left : operand row left (left.evaluate row) = .ok v
  right : literalOperand op right = .ok w

theorem Operator.isArithmetic_eq_false {op : Operator} {comparison : Comparison}
    (h : op.comparison? = some comparison) : op.isArithmetic = false := by
  cases op <;> first | rfl | cases h

theorem Operator.apply_of_comparison? {op : Operator} {comparison : Comparison}
    (h : op.comparison? = some comparison) (hne : comparison ≠ .eq) (v w : Value) :
    op.apply v w = do return comparison.holds (← v.integer) (← w.integer) := by
  cases op <;> cases h <;> first | rfl | exact absurd rfl hne

section

variable {row : Row} {left right : Expr} {op : Operator} {comparison : Comparison} {v w : Value}

theorem Expr.Compares.evaluate_eq (h : Expr.Compares row left op right comparison v w) :
    Expr.evaluate row (.binary left op right) =
      do return comparison.holds (← v.integer) (← w.integer) := by
  rw [evaluate, Operator.isArithmetic_eq_false h.ordering, Bool.not_false, ensure_true, ok_bind,
    h.left, ok_bind, h.right, ok_bind, Operator.apply_of_comparison? h.ordering h.ne_eq]

theorem Expr.Compares.evaluate_eq_ok {m n : Int64}
    (h : Expr.Compares row left op right comparison v w) (hm : v.integer = .ok m)
    (hn : w.integer = .ok n) : Expr.evaluate row (.binary left op right) =
      .ok (decide (comparison.Orders m.toInt n.toInt)) := by
  rw [h.evaluate_eq, hm, ok_bind, hn, ok_bind, pure_eq_ok, Except.ok.injEq, Bool.eq_iff_iff,
    comparison.holds_iff_orders, decide_eq_true_iff]

end

/-- A value is taken for the integer that it reads as, or is an error if there is none of 64 bits; but
a float is taken for the closest integer of 64 bits. So an ordering answers as for the exact integers
unless two different ones were taken for the same, and an operand that is no integer is its error. -/
theorem Value.orderings_exact (v : Value) :
    (∀ n, v.integer = .ok n ↔ ∃ i, v.Reads i ∧ (n.toInt = i ∨
      (∃ x, v = .float x) ∧ n.toInt = max Int64.minValue.toInt (min i Int64.maxValue.toInt))) ∧
    ((∀ n, v.integer ≠ .ok n) → v.integer = .error (.noInteger v)) ∧
    ∀ row left op right comparison w, Expr.Compares row left op right comparison v w →
      (∀ m n, v.integer = .ok m → w.integer = .ok n →
        Expr.evaluate row (.binary left op right) =
          .ok (decide (comparison.Orders m.toInt n.toInt)) ∧
        ∀ i j, v.Reads i → w.Reads j → (m = n → i = j) →
          Expr.evaluate row (.binary left op right) = .ok (decide (comparison.Orders i j))) ∧
      ((∀ m, v.integer ≠ .ok m) →
        Expr.evaluate row (.binary left op right) = .error (.noInteger v)) ∧
      ∀ m, v.integer = .ok m → (∀ n, w.integer ≠ .ok n) →
        Expr.evaluate row (.binary left op right) = .error (.noInteger w) := by
  refine ⟨fun n ↦ integer_eq_ok_iff, integer_eq_error, ?_⟩
  intro row left op right comparison w h
  refine ⟨fun m n hm hn ↦ ⟨h.evaluate_eq_ok hm hn, fun i j hi hj happart ↦ ?_⟩,
    fun hv ↦ ?_, fun m hm hw ↦ ?_⟩
  · rw [h.evaluate_eq_ok hm hn, decide_eq_decide.mpr (hi.orders_iff hj hm hn happart comparison)]
  · rw [h.evaluate_eq, integer_eq_error hv, error_bind]
  · rw [h.evaluate_eq, hm, ok_bind, integer_eq_error hw, error_bind]

/-- The double `2.5`, a half that goes to the even neighbour below. -/
def Double.Finite.twoAndHalf : Finite := ⟨false, ⟨1024 * runLength + Nat.pow 2 50, by decide⟩⟩

theorem Value.orderings_exact_half :
    (Value.float (.finite .twoAndHalf)).integer = .ok 2 ∧
    Expr.evaluate .empty (.binary (.literal (.float (.finite .twoAndHalf))) .le (.literal (.int 2))) =
      .ok true ∧
    Expr.evaluate .empty
      (.binary (.literal (.float (.finite .twoAndHalf))) .lt (.literal (.text "4x"))) =
        .error (.noInteger (.text "4x")) ∧
    Expr.evaluate .empty (.binary (.literal (.text "4x")) .lt (.literal (.int 2))) =
      .error (.noInteger (.text "4x")) := by
  have hrounds : Double.Finite.twoAndHalf.RoundsTo 2 :=
    Double.Finite.roundsTo_iff.mpr (by decide +kernel)
  have hleft := Value.Reads.float hrounds
  have hright := Value.Reads.int 2
  have hnone : ∀ n, (Value.text "4x").integer ≠ .ok n := by
    rw [show (Value.text "4x").integer = .error (.noInteger (.text "4x")) by decide +kernel]
    exact nofun
  obtain ⟨hinteger, -, hfloat⟩ := Value.orderings_exact (.float (.finite .twoAndHalf))
  obtain ⟨-, -, htext⟩ := Value.orderings_exact (.text "4x")
  have htwo := (hinteger 2).mpr ⟨2, hleft, .inl rfl⟩
  obtain ⟨hle, -, -⟩ := hfloat .empty (.literal (.float (.finite .twoAndHalf))) .le
    (.literal (.int 2)) .le (.int 2) ⟨rfl, nofun, rfl, rfl⟩
  obtain ⟨-, -, hlt⟩ := hfloat .empty (.literal (.float (.finite .twoAndHalf))) .lt
    (.literal (.text "4x")) .lt (.text "4x") ⟨rfl, nofun, rfl, rfl⟩
  obtain ⟨-, hlt', -⟩ := htext .empty (.literal (.text "4x")) .lt (.literal (.int 2)) .lt (.int 2)
    ⟨rfl, nofun, rfl, rfl⟩
  exact ⟨htwo, (hle 2 2 htwo rfl).2 2 2 hleft hright fun _ ↦ rfl, hlt 2 htwo hnone, hlt' hnone⟩

/-- The double `2 ^ 63`, one more than the greatest integer of 64 bits. -/
def Double.Finite.beyondWord : Finite := ⟨false, ⟨1086 * runLength, by decide⟩⟩

/-- It is no error to order it, and it is at most the greatest integer of 64 bits. -/
theorem Value.exists_integer_clamped :
    Double.Finite.beyondWord.RoundsTo 9223372036854775808 ∧
    (∀ n : Int64, n.toInt ≠ 9223372036854775808) ∧
    ¬Comparison.le.Orders 9223372036854775808 Int64.maxValue.toInt ∧
    (Value.float (.finite .beyondWord)).integer = .ok Int64.maxValue ∧
    Expr.evaluate (.ofList [("f", .float (.finite .beyondWord))])
      (.binary (.column "f") .le (.literal (.int Int64.maxValue))) = .ok true := by
  refine ⟨Double.Finite.roundsTo_iff.mpr (by decide +kernel), fun n hn ↦ ?_, by decide,
    by decide +kernel, by decide +kernel⟩
  have hmax := n.toInt_lt
  omega

end TableStore
