import TableStore.Proofs.Number.Double

namespace TableStore.Double

theorem runLength_pos : 0 < runLength := by decide

theorem resolution_eq : resolution = Nat.pow 2 1074 := by decide +kernel

theorem roundHalfEven_le (n d : Nat) : roundHalfEven n d ≤ n / d + 1 := by
  simp only [roundHalfEven]
  split <;> omega

namespace Finite

/-- The denoted number in units of `1 / resolution`. -/
def signedUnits (x : Finite) : Int := if x.negative then -x.units else x.units

/-- The double is exactly this integer. -/
def Denotes (x : Finite) (n : Int) : Prop := x.signedUnits = n * resolution

instance (x : Finite) (n : Int) : Decidable (x.Denotes n) := decEq _ _

variable {x y : Finite} {n : Int}

theorem natAbs_signedUnits (x : Finite) : x.signedUnits.natAbs = x.units := by
  rw [signedUnits]
  split <;> omega

theorem units_congr (h : x.magnitude = y.magnitude) : x.units = y.units := by
  rw [units, units, h]

theorem magnitude_of_units (h : x.units = y.units) : x.magnitude = y.magnitude := by
  have hx := ofRatio_units ⟨false, x.magnitude⟩
  have hy := ofRatio_units ⟨false, y.magnitude⟩
  have hsame : units ⟨false, x.magnitude⟩ = units ⟨false, y.magnitude⟩ := h
  rw [hsame] at hx
  exact (Finite.mk.inj (Double.finite.inj (hx.symm.trans hy))).2

theorem units_eq_zero_iff : x.units = 0 ↔ x.magnitude.val = 0 := by
  constructor
  · intro hzero
    exact Decidable.byContradiction fun hne ↦ Nat.ne_of_gt (units_pos hne) hzero
  · intro hzero
    simp [units, hzero]

theorem sameNumber_iff : x.sameNumber y = true ↔ x.signedUnits = y.signedUnits := by
  simp only [sameNumber, Bool.and_eq_true, Bool.or_eq_true, decide_eq_true_eq]
  constructor
  · rintro ⟨hmagnitude, hsign | hzero⟩
    · rw [signedUnits, signedUnits, hsign, units_congr hmagnitude]
    · have hx := units_eq_zero_iff.mpr hzero
      simp [signedUnits, ← units_congr hmagnitude, hx]
  · intro h
    have hunits : x.units = y.units := by
      rw [← natAbs_signedUnits x, h, natAbs_signedUnits]
    refine ⟨magnitude_of_units hunits, ?_⟩
    rw [← units_eq_zero_iff]
    rw [signedUnits, signedUnits, hunits] at h
    cases hx : x.negative <;> cases hy : y.negative <;> simp [hx, hy] at h ⊢ <;> omega

theorem sameNumber_comm (x y : Finite) : x.sameNumber y = y.sameNumber x := by
  rw [Bool.eq_iff_iff, sameNumber_iff, sameNumber_iff, eq_comm]

theorem Denotes.units_eq (h : x.Denotes n) : x.units = resolution * n.natAbs := by
  rw [← natAbs_signedUnits x, h, Int.natAbs_mul, Int.natAbs_natCast, Nat.mul_comm]

theorem denotes_of_units (hsign : x.negative = decide (n < 0))
    (hunits : x.units = n.natAbs * resolution) : x.Denotes n := by
  rw [Denotes, signedUnits, hsign, hunits, Int.natCast_mul]
  by_cases hneg : n < 0
  · rw [if_pos (decide_eq_true hneg), ← Int.neg_mul, show -(n.natAbs : Int) = n by omega]
  · rw [if_neg (by simpa using hneg), show (n.natAbs : Int) = n by omega]

theorem Denotes.ofInt (h : x.Denotes n) : ∃ y, ofInt n = .finite y ∧ y.Denotes n := by
  have hround := ofRatio_mul resolution_pos (decide (n < 0)) n.natAbs 1
  rw [Nat.mul_one, ← h.units_eq] at hround
  refine ⟨⟨decide (n < 0), x.magnitude⟩, ?_, ?_⟩
  · rw [Double.ofInt, ← hround]
    exact ofRatio_units ⟨decide (n < 0), x.magnitude⟩
  · exact denotes_of_units rfl (h.units_eq.trans (Nat.mul_comm _ _))

theorem exists_units (negative : Bool) {place run : Nat} (hplace : place < runLength)
    (hrun : run + 1 < 2047) :
    ∃ x : Finite, x.negative = negative ∧ x.units = (runLength + place) * Nat.pow 2 run := by
  have hlt : (run + 1) * runLength + place < magnitudes := by
    have hmul : (run + 2) * runLength ≤ 2047 * runLength := Nat.mul_le_mul_right _ (by omega)
    rw [Nat.add_mul] at hmul ⊢
    simp only [magnitudes]
    omega
  have hdiv : ((run + 1) * runLength + place) / runLength = run + 1 := by
    rw [Nat.mul_comm, Nat.mul_add_div runLength_pos, Nat.div_eq_of_lt hplace, Nat.add_zero]
  have hmod : ((run + 1) * runLength + place) % runLength = place := by
    rw [Nat.mul_comm, Nat.mul_add_mod, Nat.mod_eq_of_lt hplace]
  refine ⟨⟨negative, ⟨_, hlt⟩⟩, rfl, ?_⟩
  rw [units_run hdiv, hmod]

theorem exists_units_shifted {m e : Nat} (hpos : 0 < m) (hm : m < Nat.pow 2 53) (hlow : 52 ≤ e)
    (hhigh : e < 1994) (negative : Bool) :
    ∃ x : Finite, x.negative = negative ∧ x.units = m * Nat.pow 2 e := by
  have hne : m ≠ 0 := by omega
  have hlog : m.log2 ≤ 52 := Nat.le_of_lt_succ ((Nat.log2_lt hne).mpr hm)
  have hpow : ∀ j k, Nat.pow 2 (j + k) = Nat.pow 2 j * Nat.pow 2 k := Nat.pow_add 2
  have hsplit : Nat.pow 2 m.log2 * Nat.pow 2 (52 - m.log2) = runLength := by
    rw [← hpow, Nat.add_sub_cancel' hlog]
  have hleast : runLength ≤ m * Nat.pow 2 (52 - m.log2) := by
    rw [← hsplit]
    exact Nat.mul_le_mul_right _ (Nat.log2_self_le hne)
  have hmost : m * Nat.pow 2 (52 - m.log2) < 2 * runLength := by
    have hlt : m < 2 * Nat.pow 2 m.log2 := by
      rw [Nat.mul_comm]
      exact Nat.lt_log2_self
    rw [← hsplit, ← Nat.mul_assoc]
    exact Nat.mul_lt_mul_of_pos_right hlt (Nat.two_pow_pos _)
  obtain ⟨x, hx, hunits⟩ := @exists_units negative (m * Nat.pow 2 (52 - m.log2) - runLength)
    (e - 52 + m.log2) (by omega) (by omega)
  refine ⟨x, hx, ?_⟩
  rw [hunits, Nat.add_sub_cancel' hleast, Nat.mul_assoc, ← hpow]
  congr 2
  omega

/-- Beyond 53 bits the doubles go on with the even numbers. -/
theorem exists_units_mul {m e unit : Nat} (hunit : unit = Nat.pow 2 e) (hm : m ≤ Nat.pow 2 53)
    (hlow : 52 ≤ e) (hhigh : e < 1994) (negative : Bool) :
    ∃ x : Finite, x.negative = negative ∧ x.units = m * unit := by
  subst hunit
  rcases Nat.lt_or_eq_of_le hm with hlt | rfl
  · rcases Nat.eq_zero_or_pos m with rfl | hpos
    · exact ⟨.zero negative, rfl, by rw [Nat.zero_mul, units_eq_zero_iff.mpr rfl]⟩
    · exact exists_units_shifted hpos hlt hlow hhigh negative
  · obtain ⟨x, hx, hunits⟩ := @exists_units negative 0 (e + 1) runLength_pos (by omega)
    refine ⟨x, hx, ?_⟩
    have hnext : Nat.pow 2 (e + 1) = 2 * Nat.pow 2 e := Nat.pow_succ'
    rw [hunits, Nat.add_zero, hnext, ← Nat.mul_assoc]
    rfl

/-- Every integer up to `2 ^ 53`, on both sides of zero, is the value of a double. -/
theorem exists_denotes {n : Int} (hn : n.natAbs ≤ Nat.pow 2 53) : ∃ x : Finite, x.Denotes n := by
  obtain ⟨x, hsign, hunits⟩ :=
    exists_units_mul resolution_eq hn (by decide) (by decide) (decide (n < 0))
  exact ⟨x, denotes_of_units hsign hunits⟩

end Finite

theorem exists_ofRatio {n d k : Nat} (hn : n * resolution / d < Nat.pow 2 k) (hlow : 53 ≤ k)
    (hhigh : k < 2098) (negative : Bool) : ∃ x, ofRatio negative n d = .finite x := by
  have hplace : ∀ q shift, q = n * resolution / d → shift = q.log2 - 52 →
      shift * runLength + roundHalfEven (n * resolution) (d * Nat.pow 2 shift) < magnitudes := by
    intro q shift hq hshift
    have hlog : q < Nat.pow 2 (53 + shift) := by
      refine Nat.lt_of_lt_of_le Nat.lt_log2_self (Nat.pow_le_pow_right (by decide) ?_)
      omega
    have hsteps : shift ≤ k - 53 := by
      by_cases hzero : q = 0
      · simp [hshift, hzero]
      · have hlt := (Nat.log2_lt hzero).mpr (hq ▸ hn)
        omega
    have hquotient : n * resolution / (d * Nat.pow 2 shift) < 2 * runLength := by
      rw [← Nat.div_div_eq_div_mul, ← hq]
      refine (Nat.div_lt_iff_lt_mul (Nat.two_pow_pos shift)).mpr ?_
      exact Nat.lt_of_lt_of_eq hlog (Nat.pow_add 2 53 shift)
    have hround := roundHalfEven_le (n * resolution) (d * Nat.pow 2 shift)
    calc shift * runLength + roundHalfEven (n * resolution) (d * Nat.pow 2 shift)
        ≤ (k - 53) * runLength + 2 * runLength :=
          Nat.add_le_add (Nat.mul_le_mul_right _ hsteps) (Nat.le_trans hround hquotient)
      _ = (k - 53 + 2) * runLength := (Nat.add_mul _ _ _).symm
      _ < magnitudes := Nat.mul_lt_mul_of_pos_right (by omega) runLength_pos
  rw [ofRatio, dif_pos (hplace _ _ rfl rfl)]
  exact ⟨_, rfl⟩

theorem exists_ofInt (n : Int64) : ∃ x, ofInt n.toInt = .finite x := by
  have hn : n.toInt.natAbs < Nat.pow 2 64 := by
    have hmin := Int64.minValue_le_toInt n
    have hmax := Int64.toInt_lt n
    have hlow : Int64.minValue.toInt = -9223372036854775808 := rfl
    have hpow : Nat.pow 2 64 = 18446744073709551616 := rfl
    omega
  have hscaled : ∀ k unit, unit = Nat.pow 2 k →
      n.toInt.natAbs * unit / 1 < Nat.pow 2 (64 + k) := by
    rintro k unit rfl
    rw [Nat.div_one]
    exact Nat.lt_of_lt_of_eq (Nat.mul_lt_mul_of_pos_right hn (Nat.two_pow_pos k))
      (Nat.pow_add 2 64 k).symm
  exact exists_ofRatio (hscaled 1074 resolution resolution_eq) (by decide) (by decide) _

end TableStore.Double
