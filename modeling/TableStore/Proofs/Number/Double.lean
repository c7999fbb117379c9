import TableStore.Number.Double

namespace TableStore

theorem roundHalfEven_mul {k : Nat} (hk : 0 < k) (n d : Nat) :
    roundHalfEven (k * n) (k * d) = roundHalfEven n d := by
  have hlt : ∀ a b : Nat, k * a < k * b ↔ a < b := fun a b ↦ Nat.mul_lt_mul_left hk
  have heq : ∀ a b : Nat, k * a = k * b ↔ a = b := fun a b ↦ Nat.mul_right_inj (by omega)
  simp only [roundHalfEven, Nat.mul_div_mul_left n d hk, Nat.mul_mod_mul_left,
    Nat.mul_left_comm 2 k,
    hlt, heq]

theorem roundHalfEven_mul_self (n : Nat) {d : Nat} (hd : 0 < d) : roundHalfEven (n * d) d = n := by
  simp [roundHalfEven, Nat.mul_div_cancel n hd, hd]

namespace Double

theorem resolution_pos : 0 < resolution := by decide +kernel

theorem ofRatio_mul {k : Nat} (hk : 0 < k) (negative : Bool) (n d : Nat) :
    ofRatio negative (k * n) (k * d) = ofRatio negative n d := by
  simp only [ofRatio, Nat.mul_assoc, Nat.mul_div_mul_left _ _ hk, roundHalfEven_mul hk]

namespace Finite

theorem units_lt_run {x : Finite} (h : x.magnitude.val / runLength = 0) :
    x.units = x.magnitude.val ∧ x.units < runLength := by
  have hunits : x.units = x.magnitude.val := by simp [units, h]
  have hlt := Nat.lt_of_div_eq_zero (by decide : 0 < runLength) h
  exact ⟨hunits, hunits ▸ hlt⟩

theorem units_run {x : Finite} {run : Nat} (h : x.magnitude.val / runLength = run + 1) :
    x.units = (runLength + x.magnitude.val % runLength) * Nat.pow 2 run := by
  simp [units, h]

theorem run_bounds (x : Finite) (run : Nat) :
    Nat.pow 2 (52 + run) ≤ (runLength + x.magnitude.val % runLength) * Nat.pow 2 run ∧
      (runLength + x.magnitude.val % runLength) * Nat.pow 2 run < Nat.pow 2 (53 + run) := by
  have hmod := Nat.mod_lt x.magnitude.val (by decide : 0 < runLength)
  have hpow : ∀ k, Nat.pow 2 (k + run) = Nat.pow 2 k * Nat.pow 2 run := fun k ↦ Nat.pow_add 2 k run
  rw [hpow, hpow]
  refine ⟨Nat.mul_le_mul_right _ (Nat.le_add_right _ _), (Nat.mul_lt_mul_right ?_).mpr ?_⟩
  · exact Nat.two_pow_pos run
  · exact Nat.lt_of_lt_of_eq (Nat.add_lt_add_left hmod runLength) (by decide)

/-- The distance between the doubles next to `x` is two to this power. -/
def shift (x : Finite) : Nat := x.units.log2 - 52

theorem shift_zero {x : Finite} (h : x.magnitude.val / runLength = 0) : x.shift = 0 := by
  obtain ⟨-, hlt⟩ := units_lt_run h
  by_cases hzero : x.units = 0
  · simp [shift, hzero]
  · have hlog := (Nat.log2_lt hzero).mpr hlt
    rw [shift]
    omega

theorem shift_succ {x : Finite} {run : Nat} (h : x.magnitude.val / runLength = run + 1) :
    x.shift = run := by
  obtain ⟨hge, hlt⟩ := x.run_bounds run
  rw [← units_run h] at hge hlt
  have hne : x.units ≠ 0 := by
    have hpow : 0 < Nat.pow 2 (52 + run) := Nat.two_pow_pos (52 + run)
    omega
  have hlow := (Nat.le_log2 hne).mpr hge
  have hhigh := (Nat.log2_lt hne).mpr hlt
  rw [shift]
  omega

theorem place_eq (x : Finite) {r : Nat} (hr : 0 < r) :
    x.shift * runLength + roundHalfEven (x.units * r) (r * Nat.pow 2 x.shift) =
      x.magnitude.val := by
  have hsplit := Nat.div_add_mod x.magnitude.val runLength
  cases h : x.magnitude.val / runLength with
  | zero =>
    have hone : r * Nat.pow 2 0 = r := Nat.mul_one r
    rw [shift_zero h, Nat.zero_mul, Nat.zero_add, (units_lt_run h).1, hone,
      roundHalfEven_mul_self _ hr]
  | succ run =>
    have hassoc : (runLength + x.magnitude.val % runLength) * Nat.pow 2 run * r =
        (runLength + x.magnitude.val % runLength) * (r * Nat.pow 2 run) := by
      rw [Nat.mul_assoc, Nat.mul_comm r]
    have hpos : 0 < r * Nat.pow 2 run := Nat.mul_pos hr (Nat.two_pow_pos run)
    rw [h, Nat.mul_comm, Nat.add_mul, Nat.one_mul] at hsplit
    rw [shift_succ h, units_run h, hassoc, roundHalfEven_mul_self _ hpos, ← Nat.add_assoc]
    exact hsplit

theorem ofRatio_units (x : Finite) : ofRatio x.negative x.units resolution = .finite x := by
  have hplace := x.place_eq resolution_pos
  simp only [shift] at hplace
  simp only [ofRatio, Nat.mul_div_cancel _ resolution_pos, hplace, x.magnitude.isLt, dite_true]

theorem units_pos {x : Finite} (h : x.magnitude.val ≠ 0) : 0 < x.units := by
  cases hrun : x.magnitude.val / runLength with
  | zero =>
    rw [(units_lt_run hrun).1]
    omega
  | succ run =>
    rw [units_run hrun]
    exact Nat.mul_pos (Nat.add_pos_left (by decide) _) (Nat.two_pow_pos run)

theorem units_lt (x : Finite) {k : Nat} (hk : 2098 ≤ k) : x.units < Nat.pow 2 k := by
  cases hrun : x.magnitude.val / runLength with
  | zero =>
    have hlt := (units_lt_run hrun).2
    exact Nat.lt_of_lt_of_le hlt (Nat.pow_le_pow_right (by decide) (by omega))
  | succ run =>
    have hbound : run + 1 < 2047 :=
      hrun ▸ (Nat.div_lt_iff_lt_mul (by decide : 0 < runLength)).mpr x.magnitude.isLt
    rw [units_run hrun]
    exact Nat.lt_of_lt_of_le (x.run_bounds run).2 (Nat.pow_le_pow_right (by decide) (by omega))

end Finite

end Double

end TableStore
