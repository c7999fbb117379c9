import TableStore.Evaluation
import TableStore.Proofs.Json.Number
import TableStore.Proofs.Number.Denotation
import TableStore.Proofs.Result

namespace TableStore

open Json (Scalar)

theorem Double.sameNumber_comm (x y : Double) : x.sameNumber y = y.sameNumber x := by
  cases x <;> cases y <;> simp only [Double.sameNumber, Double.Finite.sameNumber_comm, Bool.beq_comm]

theorem Json.Number.sameValue_comm (m n : Json.Number) : m.sameValue n = n.sameValue m := by
  cases hm : m.toInt64? <;> cases hn : n.toInt64? <;>
    simp only [sameValue, hm, hn, Double.sameNumber_comm, Bool.beq_comm]

theorem Json.Scalar.sameValue_comm (s t : Scalar) : s.sameValue t = t.sameValue s := by
  cases s <;> cases t <;>
    simp only [Scalar.sameValue, Json.Number.sameValue_comm, Bool.beq_comm]

theorem Json.Scalar.eq_of_sameValue {s t : Scalar} (h : s.sameValue t = true)
    (hs : ∀ n, s ≠ .number n) : s = t := by
  cases s with
  | number n => exact absurd rfl (hs n)
  | _ => exact eq_of_beq h

namespace Value

variable {a b c : Value} {s t : Scalar}

theorem encode_eq_number {value : Value} {n : Json.Number} (h : value.encode = .ok (.number n)) :
    (∃ k : Int64, value = .int k ∧ n = .integer k.toInt) ∨
      ∃ x, value = .float (.finite x) ∧ n = .float x := by
  cases value with
  | int k => exact .inl ⟨k, rfl, (Scalar.number.inj (Except.ok.inj h)).symm⟩
  | float x =>
    cases x with
    | finite x => exact .inr ⟨x, rfl, (Scalar.number.inj (Except.ok.inj h)).symm⟩
    | nan => cases h
    | infinite negative => cases h
  | _ => cases Except.ok.inj h

theorem sameValue_self {value : Value} (h : value.encode = .ok s) : s.sameValue s = true := by
  cases s with
  | number n =>
    rcases encode_eq_number h with ⟨k, -, rfl⟩ | ⟨x, -, rfl⟩
    · simp [Scalar.sameValue, Json.Number.sameValue, Json.Number.toInt64?, Numeral.int64?_toInt]
    · simp [Scalar.sameValue, Json.Number.sameValue, Json.Number.toInt64?, Json.Number.toDouble,
        Double.sameNumber, Double.Finite.sameNumber]
  | _ => exact beq_self_eq_true _

theorem sameValue_of_encode (ha : a.encode = .ok s) (hb : b.encode = .ok t) :
    a.sameValue b = .ok (s.sameValue t) := by
  rw [sameValue, ha, ok_bind, hb, ok_bind]
  rfl

theorem sameValue_eq_true_iff : a.sameValue b = .ok true ↔
    ∃ s t, a.encode = .ok s ∧ b.encode = .ok t ∧ s.sameValue t = true := by
  constructor
  · intro h
    obtain ⟨s, hs, h⟩ := bind_eq_ok.mp h
    obtain ⟨t, ht, h⟩ := bind_eq_ok.mp h
    exact ⟨s, t, hs, ht, Except.ok.inj h⟩
  · rintro ⟨s, t, hs, ht, h⟩
    rw [sameValue_of_encode hs ht, h]

theorem sameValue_symm (h : a.sameValue b = .ok true) : b.sameValue a = .ok true := by
  obtain ⟨s, t, hs, ht, h⟩ := sameValue_eq_true_iff.mp h
  exact sameValue_eq_true_iff.mpr ⟨t, s, ht, hs, by rw [Scalar.sameValue_comm, h]⟩

theorem sameValue_refl (h : a.encode = .ok s) : a.sameValue a = .ok true := by
  rw [sameValue_of_encode h h, sameValue_self h]

/-- The number of units at which a number is compared with a float. -/
inductive Rounds : Value → Int → Prop
  | int {n : Int64} {x : Double.Finite} (h : Double.ofInt n.toInt = .finite x) :
    Rounds (.int n) x.signedUnits
  | float (x : Double.Finite) : Rounds (.float (.finite x)) x.signedUnits

theorem exists_rounds {n : Json.Number} (h : a.encode = .ok (.number n)) : ∃ k, a.Rounds k := by
  rcases encode_eq_number h with ⟨m, rfl, -⟩ | ⟨x, rfl, -⟩
  · obtain ⟨x, hx⟩ := Double.exists_ofInt m
    exact ⟨x.signedUnits, .int hx⟩
  · exact ⟨x.signedUnits, .float x⟩

theorem sameValue_int_iff (m n : Int64) :
    (Value.int m).sameValue (.int n) = .ok true ↔ m = n := by
  simp [Value.sameValue, encode, Scalar.sameValue, Json.Number.sameValue, Json.Number.toInt64?,
    Numeral.int64?_toInt]

theorem sameValue_number_float {m : Json.Number} (h : a.encode = .ok (.number m))
    (x : Double.Finite) :
    a.sameValue (.float (.finite x)) = .ok (m.toDouble.sameNumber (.finite x)) := by
  rw [sameValue_of_encode h rfl, Scalar.sameValue, Json.Number.sameValue]
  cases m.toInt64? <;> rfl

theorem Rounds.sameValue_float_iff {k : Int} (ha : a.Rounds k) (x : Double.Finite) :
    a.sameValue (.float (.finite x)) = .ok true ↔ k = x.signedUnits := by
  cases ha with
  | int h =>
    rw [← Double.Finite.sameNumber_iff, sameValue_number_float rfl, Json.Number.toDouble, h,
      Double.sameNumber, Except.ok.injEq]
  | float y =>
    rw [← Double.Finite.sameNumber_iff, sameValue_number_float rfl, Json.Number.toDouble,
      Double.sameNumber, Except.ok.injEq]

theorem Rounds.eq_of_sameValue {j k : Int} (ha : a.Rounds j) (hb : b.Rounds k)
    (h : a.sameValue b = .ok true) : j = k := by
  cases hb with
  | float y => exact (ha.sameValue_float_iff y).mp h
  | int hy =>
    cases ha with
    | float x =>
      exact (((Rounds.int hy).sameValue_float_iff x).mp (sameValue_symm h)).symm
    | int hx =>
      obtain rfl := (sameValue_int_iff _ _).mp h
      obtain rfl := Double.finite.inj (hx.symm.trans hy)
      rfl

theorem exists_rounds_of_sameValue {j : Int} (ha : a.Rounds j) (h : a.sameValue b = .ok true) :
    ∃ k, b.Rounds k := by
  obtain ⟨s, t, hs, ht, hsame⟩ := sameValue_eq_true_iff.mp h
  cases t with
  | number n => exact exists_rounds ht
  | _ =>
    rw [Scalar.sameValue_comm] at hsame
    obtain rfl := Scalar.eq_of_sameValue hsame nofun
    cases ha <;> cases Except.ok.inj hs

/-- Numbers that are the same as one number are so unless both are compared exactly. -/
theorem Rounds.sameValue_trans {i : Int} (ha : a.Rounds i) (h : a.sameValue b = .ok true)
    (h' : b.sameValue c = .ok true) : a.sameValue c = .ok true ∨
      ∃ m x n, m ≠ n ∧ a = .int m ∧ b = .float (.finite x) ∧ c = .int n := by
  obtain ⟨j, hb⟩ := exists_rounds_of_sameValue ha h
  obtain ⟨k, hc⟩ := exists_rounds_of_sameValue hb h'
  have hround := (ha.eq_of_sameValue hb h).trans (hb.eq_of_sameValue hc h')
  cases hc with
  | float z => exact .inl ((ha.sameValue_float_iff z).mpr hround)
  | @int n z hz =>
    cases ha with
    | float x =>
      have hback := ((Rounds.int hz).sameValue_float_iff x).mpr hround.symm
      exact .inl (sameValue_symm hback)
    | @int m x hx =>
      cases hb with
      | float y =>
        by_cases hmn : m = n
        · exact .inl ((sameValue_int_iff m n).mpr hmn)
        · exact .inr ⟨m, y, n, hmn, rfl, rfl, rfl⟩
      | int hy =>
        obtain rfl := (sameValue_int_iff _ _).mp h
        exact .inl h'

/-- What is the same as one value is the same, but for two integers that round to one double. -/
theorem sameValue_trans (h : a.sameValue b = .ok true) (h' : b.sameValue c = .ok true) :
    a.sameValue c = .ok true ∨
      ∃ m x n, m ≠ n ∧ a = .int m ∧ b = .float (.finite x) ∧ c = .int n := by
  obtain ⟨s, t, hs, ht, hsame⟩ := sameValue_eq_true_iff.mp h
  by_cases hnumber : ∃ n, s = .number n
  · obtain ⟨n, rfl⟩ := hnumber
    obtain ⟨i, ha⟩ := exists_rounds hs
    exact ha.sameValue_trans h h'
  · obtain rfl := Scalar.eq_of_sameValue hsame fun n hn ↦ hnumber ⟨n, hn⟩
    obtain ⟨t', u, ht', hu, hsame'⟩ := sameValue_eq_true_iff.mp h'
    obtain rfl := Except.ok.inj (ht.symm.trans ht')
    exact .inl (sameValue_eq_true_iff.mpr ⟨s, u, hs, hu, hsame'⟩)

theorem sameValue_int_float_iff {n : Int64} (hn : ∃ x : Double.Finite, x.Denotes n.toInt)
    (x : Double.Finite) :
    (Value.int n).sameValue (.float (.finite x)) = .ok true ↔ x.Denotes n.toInt := by
  obtain ⟨w, hw⟩ := hn
  obtain ⟨y, hround, hy⟩ := hw.ofInt
  rw [(Rounds.int hround).sameValue_float_iff, hy, eq_comm]
  rfl

/-- Not an integer that has to be rounded. -/
def IsExact (value : Value) : Prop :=
  ∀ n, value = .int n → ∃ x : Double.Finite, x.Denotes n.toInt

theorem sameValue_trans_of_exact (ha : a.IsExact) (hc : c.IsExact) (h : a.sameValue b = .ok true)
    (h' : b.sameValue c = .ok true) : a.sameValue c = .ok true := by
  rcases sameValue_trans h h' with hsame | ⟨m, x, n, hne, rfl, rfl, rfl⟩
  · exact hsame
  · have hm := (sameValue_int_float_iff (ha m rfl) x).mp h
    have hn := (sameValue_int_float_iff (hc n rfl) x).mp (sameValue_symm h')
    have heq : m.toInt * Double.resolution = n.toInt * Double.resolution := hm.symm.trans hn
    have hpos : (Double.resolution : Int) ≠ 0 :=
      Int.natCast_ne_zero.mpr (Nat.ne_of_gt Double.resolution_pos)
    exact absurd (Int64.toInt_inj.mp (Int.eq_of_mul_eq_mul_right hpos heq)) hne

theorem equivalence_of_exact :
    Equivalence fun a b : {value : Value // (∃ s, value.encode = .ok s) ∧ value.IsExact} ↦
      a.val.sameValue b.val = .ok true where
  refl := by
    rintro ⟨a, ⟨s, hs⟩, -⟩
    exact sameValue_refl hs
  symm := sameValue_symm
  trans := by
    intro a b c
    exact sameValue_trans_of_exact a.property.2 c.property.2

/-- Values with a stored form can be compared, with one answer in both directions, and each is the
same as itself. What is the same as one value is the same, unless two integers round to one float. So
this is an equivalence of all values but the integers that no double denotes. Just for the others it
tells which floats have the value of an integer. All integers up to `2 ^ 53` are among them. -/
theorem sameValue_equivalence (ha : ∃ s, a.encode = .ok s) (hb : ∃ t, b.encode = .ok t)
    (n : Int64) :
    a.sameValue a = .ok true ∧
    (∃ same, a.sameValue b = .ok same ∧ b.sameValue a = .ok same) ∧
    (a.sameValue b = .ok true → ∀ c, b.sameValue c = .ok true →
      (a.sameValue c = .ok true ↔
        ¬∃ k x m, k ≠ m ∧ a = .int k ∧ b = .float (.finite x) ∧ c = .int m)) ∧
    (Equivalence fun v w : {value : Value // (∃ s, value.encode = .ok s) ∧ value.IsExact} ↦
      v.val.sameValue w.val = .ok true) ∧
    ((∃ x : Double.Finite, x.Denotes n.toInt) ↔ ∀ x : Double.Finite,
      (Value.int n).sameValue (.float (.finite x)) = .ok true ↔ x.Denotes n.toInt) ∧
    (n.toInt.natAbs ≤ Nat.pow 2 53 → ∃ x : Double.Finite, x.Denotes n.toInt) := by
  obtain ⟨s, hs⟩ := ha
  obtain ⟨t, ht⟩ := hb
  refine ⟨sameValue_refl hs, ⟨s.sameValue t, sameValue_of_encode hs ht, ?_⟩,
    fun hab c hbc ↦ ⟨?_, fun hnot ↦ (sameValue_trans hab hbc).resolve_right hnot⟩,
    equivalence_of_exact, ⟨sameValue_int_float_iff, fun hall ↦ ?_⟩, Double.Finite.exists_denotes⟩
  · rw [sameValue_of_encode ht hs, Scalar.sameValue_comm]
  · rintro hac ⟨k, x, m, hne, rfl, -, rfl⟩
    exact hne ((sameValue_int_iff k m).mp hac)
  · obtain ⟨x, hx⟩ := Double.exists_ofInt n
    exact ⟨x, (hall x).mp (((Rounds.int hx).sameValue_float_iff x).mpr rfl)⟩

/-- The double `2 ^ 53`, after which not all integers are doubles. -/
def firstGap : Double.Finite := ⟨false, ⟨1076 * Double.runLength, by decide⟩⟩

theorem sameValue_equivalence_gap :
    (∃ s, (Value.float (.finite firstGap)).encode = .ok s) ∧
    (∃ t, (Value.int 9007199254740991).encode = .ok t) ∧
    (9007199254740991 : Int64).toInt.natAbs ≤ Nat.pow 2 53 ∧
    (Value.int 9007199254740991).sameValue (.float (.finite firstGap)) ≠ .ok true := by
  have hfloat : ∃ s, (Value.float (.finite firstGap)).encode = .ok s := ⟨_, rfl⟩
  have hint : ∃ t, (Value.int 9007199254740991).encode = .ok t := ⟨_, rfl⟩
  have hsize : (9007199254740991 : Int64).toInt.natAbs ≤ Nat.pow 2 53 := by decide
  obtain ⟨-, -, -, -, hexact, hdenoted⟩ := sameValue_equivalence hfloat hint 9007199254740991
  refine ⟨hfloat, hint, hsize, fun hsame ↦ ?_⟩
  have hvalue := (hexact.mp (hdenoted hsize) firstGap).mp hsame
  exact absurd hvalue (by decide +kernel)

/-- Two integers are the same as one float and not as each other. One of them is not its value. -/
theorem exists_sameValue_rounded :
    firstGap.Denotes 9007199254740992 ∧ ¬firstGap.Denotes 9007199254740993 ∧
    (Value.int 9007199254740993).sameValue (.float (.finite firstGap)) = .ok true ∧
    (Value.float (.finite firstGap)).sameValue (.int 9007199254740992) = .ok true ∧
    (Value.int 9007199254740993).sameValue (.int 9007199254740992) = .ok false := by
  decide +kernel

end Value

end TableStore
