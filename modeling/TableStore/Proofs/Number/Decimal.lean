import TableStore.Number.Layout
import TableStore.Proofs.Number.Double
import TableStore.Proofs.Span

namespace TableStore

namespace Numeral

theorem ofNat_mul_ten {n : Nat} (hn : n ≠ 0) : ofNat (n * 10) = ofNat n ++ ['0'] := by
  have h :=
    Nat.toDigits_append_toDigits (b := 10) (n := n) (d := 0) (by decide) (by omega) (by decide)
  rw [ofNat, ofNat, Nat.mul_comm, ← Nat.add_zero (10 * n), ← h, Nat.toDigits_zero]

theorem ofNat_ne_nil (n : Nat) : ofNat n ≠ [] := Nat.toDigits_ne_nil

theorem length_ofNat_le_iff {n k : Nat} (hk : 0 < k) : (ofNat n).length ≤ k ↔ n < Nat.pow 10 k :=
  Nat.length_toDigits_le_iff (by decide) hk

theorem isDigit_of_mem_ofNat {n : Nat} {c : Char} (h : c ∈ ofNat n) : c.isDigit = true :=
  Nat.isDigit_of_mem_toDigits (by decide) (by decide) h

theorem head_ofNat_of_ten_le {n : Nat} (hn : 10 ≤ n) :
    (ofNat n).head? = (ofNat (n / 10)).head? := by
  rw [ofNat, Nat.toDigits_of_base_le (by decide) hn, List.head?_append, ofNat]
  cases h : Nat.toDigits 10 (n / 10) with
  | nil => exact absurd h Nat.toDigits_ne_nil
  | cons c cs => rfl

theorem head_ofNat_ne_zero {n : Nat} (hn : n ≠ 0) : (ofNat n).head? ≠ some '0' := by
  induction n using Nat.strongRecOn with
  | ind n ih =>
    by_cases hten : 10 ≤ n
    · rw [head_ofNat_of_ten_le hten]
      exact ih (n / 10) (by omega) (by omega)
    · have hdigit : ∀ n < 10, n ≠ 0 → some n.digitChar ≠ some '0' := by decide
      rw [ofNat, Nat.toDigits_of_lt_base (by omega), List.head?_cons]
      exact hdigit n (by omega) hn

theorem value_append_zeros (digits : List Char) (k : Nat) :
    value (digits ++ List.replicate k '0') = value digits * Nat.pow 10 k := by
  change _ = value digits * 10 ^ k
  simp [value, Nat.ofDigitChars_append, Nat.mul_comm]

theorem value_zeros_append (k : Nat) (digits : List Char) :
    value (List.replicate k '0' ++ digits) = value digits := by
  simp [value, Nat.ofDigitChars_append]

def EndsDigits (rest : List Char) : Prop := ∀ c ∈ rest.head?, c.isDigit = false

theorem takeWhile_digits {digits rest : List Char} (hd : ∀ c ∈ digits, c.isDigit = true)
    (hr : EndsDigits rest) : (digits ++ rest).takeWhile Char.isDigit = digits :=
  takeWhile_run hd hr

theorem dropWhile_digits {digits rest : List Char} (hd : ∀ c ∈ digits, c.isDigit = true)
    (hr : EndsDigits rest) : (digits ++ rest).dropWhile Char.isDigit = rest :=
  dropWhile_run hd hr

end Numeral

namespace Decimal

theorem toDouble_zero {x : Decimal} (h : x.digits = 0) :
    x.toDouble = .finite (.zero x.negative) := by
  simp [toDouble, h]

theorem toDouble_of_neg (negative : Bool) {n k : Nat} (hk : 0 < k) (hn : n ≠ 0)
    (hlow : k ≤ (Numeral.ofNat n).length + 330) (hhigh : (Numeral.ofNat n).length ≤ k + 310) :
    toDouble ⟨negative, n, -(k : Int)⟩ = .ofRatio negative n (Nat.pow 10 k) := by
  simp only [toDouble, hn, false_or]
  rw [if_neg (by omega), if_neg (by omega), if_neg (by omega), Int.neg_neg, Int.toNat_natCast]

theorem toDouble_mul_ten (negative : Bool) (n : Nat) (exponent : Int) :
    toDouble ⟨negative, n * 10, exponent⟩ = toDouble ⟨negative, n, exponent + 1⟩ := by
  by_cases hn : n = 0
  · subst hn
    rw [toDouble_zero rfl, toDouble_zero rfl]
  have hlength : ((Numeral.ofNat (n * 10)).length : Int) = (Numeral.ofNat n).length + 1 := by
    simp [Numeral.ofNat_mul_ten hn]
  have hreach : exponent + ((Numeral.ofNat n).length + 1 : Int) =
      exponent + 1 + (Numeral.ofNat n).length := by omega
  have hn' : n * 10 ≠ 0 := by omega
  simp only [toDouble, hlength, hreach, hn, hn', false_or]
  by_cases hlow : exponent + 1 + ((Numeral.ofNat n).length : Int) < -330
  · rw [if_pos hlow, if_pos hlow]
  by_cases hhigh : 310 < exponent + 1 + ((Numeral.ofNat n).length : Int)
  · rw [if_neg hlow, if_neg hlow, if_pos hhigh, if_pos hhigh]
  rw [if_neg hlow, if_neg hlow, if_neg hhigh, if_neg hhigh]
  by_cases hexp : 0 ≤ exponent
  · have hpow : Nat.pow 10 (exponent + 1).toNat = 10 * Nat.pow 10 exponent.toNat := by
      rw [show (exponent + 1).toNat = exponent.toNat + 1 by omega]
      exact Nat.pow_succ'
    rw [if_pos hexp, if_pos (by omega), hpow, Nat.mul_assoc]
  · obtain ⟨k, rfl⟩ : ∃ k : Nat, exponent = -(k + 1 : Int) := ⟨(-exponent - 1).toNat, by omega⟩
    have hk : (-(-(k + 1 : Int))).toNat = k + 1 := by omega
    have hpow : Nat.pow 10 (k + 1) = 10 * Nat.pow 10 k := Nat.pow_succ'
    rw [if_neg hexp, hk, hpow, Nat.mul_comm n 10, Double.ofRatio_mul (by decide)]
    by_cases hzero : k = 0
    · subst hzero
      rw [if_pos (by omega)]
      exact congrArg (fun m ↦ Double.ofRatio negative m 1) (Nat.mul_one n).symm
    · rw [if_neg (by omega), show (-(-(k + 1 : Int) + 1)).toNat = k by omega]

theorem toDouble_mul_pow (negative : Bool) (n k : Nat) (exponent : Int) :
    toDouble ⟨negative, n * Nat.pow 10 k, exponent⟩ = toDouble ⟨negative, n, exponent + k⟩ := by
  induction k generalizing exponent with
  | zero =>
    change toDouble ⟨negative, n * 1, exponent⟩ = _
    simp
  | succ k ih =>
    have hpow : n * Nat.pow 10 (k + 1) = n * Nat.pow 10 k * 10 := (Nat.mul_assoc n _ 10).symm
    rw [hpow, toDouble_mul_ten, ih]
    congr 2
    omega

theorem toDouble_trimmed (fuel : Nat) (x : Decimal) : (x.trimmed fuel).toDouble = x.toDouble := by
  induction fuel generalizing x with
  | zero => rfl
  | succ fuel ih =>
    rw [trimmed]
    split
    · rename_i h
      rw [ih, ← toDouble_mul_ten, Nat.div_mul_cancel (Nat.dvd_of_mod_eq_zero h.2)]
    · rfl

end Decimal

namespace Double.Finite

theorem toDouble_of_onGrid? {tie : Tie} {x : Finite} {exponent : Int} {decimal : Decimal}
    (h : x.onGrid? tie exponent = some decimal) : decimal.toDouble = .finite x := by
  unfold onGrid? at h
  extract_lets n d low high lowFits highFits rest preferHigh at h
  split at h
  · rename_i hhigh
    obtain rfl := Option.some.inj h
    exact hhigh.1
  · split at h
    · rename_i hlow
      obtain rfl := Option.some.inj h
      exact hlow
    · cases h

theorem ofRatio_mul_five_pow (x : Finite) (k : Nat) :
    ofRatio x.negative (x.units * Nat.pow 5 k) (Nat.pow 10 k) =
      ofRatio x.negative x.units (Nat.pow 2 k) := by
  have hpow : Nat.pow 10 k = Nat.pow 5 k * Nat.pow 2 k := Nat.mul_pow 5 2 k
  rw [hpow, Nat.mul_comm x.units, ofRatio_mul]
  exact Nat.pow_pos (by decide)

theorem toDouble_exactDecimal {x : Finite} (hx : x.magnitude.val ≠ 0) :
    x.exactDecimal.toDouble = .finite x := by
  have hpos := units_pos hx
  have hlow : Nat.pow 10 743 ≤ Nat.pow 5 1074 := by decide +kernel
  have hhigh : Nat.pow 2 2098 * Nat.pow 5 1074 ≤ Nat.pow 10 1384 := by decide +kernel
  have hratio := x.ofRatio_mul_five_pow 1074
  rw [exactDecimal]
  generalize Nat.pow 5 1074 = p at hlow hhigh hratio ⊢
  have hppos : 0 < p := Nat.lt_of_lt_of_le (by decide +kernel) hlow
  have hmin : 743 < (Numeral.ofNat (x.units * p)).length := by
    rw [← Nat.not_le, Numeral.length_ofNat_le_iff (by decide), Nat.not_lt]
    exact Nat.le_trans hlow (Nat.le_mul_of_pos_left p hpos)
  have hmax : (Numeral.ofNat (x.units * p)).length ≤ 1384 := by
    rw [Numeral.length_ofNat_le_iff (by decide)]
    exact Nat.lt_of_lt_of_le ((Nat.mul_lt_mul_right hppos).mpr (x.units_lt (Nat.le_refl _))) hhigh
  have hne : x.units * p ≠ 0 := Nat.ne_of_gt (Nat.mul_pos hpos hppos)
  have hscaled :=
    Decimal.toDouble_of_neg x.negative (k := 1074) (by decide) hne (by omega) (by omega)
  rw [hratio, x.ofRatio_units] at hscaled
  exact hscaled

/-- The shortest decimal of a double reads back as it. -/
theorem toDouble_shortest (tie : Tie) (x : Finite) : (x.shortest tie).toDouble = .finite x := by
  rw [shortest]
  split
  · rename_i hzero
    rw [Decimal.toDouble_zero rfl]
    obtain ⟨negative, magnitude⟩ := x
    obtain rfl : magnitude = ⟨0, by decide⟩ := Fin.ext hzero
    rfl
  · rename_i hzero
    split
    · rename_i decimal hfound
      obtain ⟨n, -, hgrid⟩ := List.exists_of_findSome?_eq_some hfound
      rw [Decimal.toDouble_trimmed, toDouble_of_onGrid? hgrid]
    · exact toDouble_exactDecimal hzero

end Double.Finite

end TableStore
