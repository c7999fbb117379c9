import TableStore.Proofs.Number.Decimal
import TableStore.Timestamp

namespace TableStore.Timestamp

open Numeral (EndsDigits takeWhile_digits dropWhile_digits)

theorem padded_two {n : Nat} (hn : n < 100) :
    ∃ tens ones, padded 2 n = [tens, ones] ∧ pair? tens ones = some n := by
  have hall : ∀ n < 100, (padded 2 n).length = 2 ∧
      pair? ((padded 2 n).getD 0 ' ') ((padded 2 n).getD 1 ' ') = some n := by decide
  obtain ⟨hlength, hpair⟩ := hall n hn
  match h : padded 2 n with
  | [] | [_] | _ :: _ :: _ :: _ => simp [h] at hlength
  | [tens, ones] =>
    rw [h] at hpair
    exact ⟨tens, ones, rfl, hpair⟩

theorem isDigit_of_mem_padded {width n : Nat} {c : Char} (h : c ∈ padded width n) :
    c.isDigit = true := by
  rcases List.mem_append.mp h with h | h
  · rw [List.eq_of_mem_replicate h]
    rfl
  · exact Numeral.isDigit_of_mem_ofNat h

theorem padded_ne_nil (width n : Nat) : padded width n ≠ [] := by
  simp [padded, Numeral.ofNat_ne_nil]

theorem nat?_padded (width n : Nat) : Numeral.nat? (padded width n) = some n := by
  have hall : (padded width n).all Char.isDigit = true :=
    List.all_eq_true.mpr fun _ ↦ isDigit_of_mem_padded
  rw [Numeral.nat?, if_pos ⟨padded_ne_nil width n, hall⟩, padded, Numeral.value_zeros_append,
    Numeral.value_ofNat]

theorem splitYear?_padded (n : Nat) {rest : List Char} (hr : EndsDigits rest) :
    splitYear? (padded 4 n ++ rest) = some ((n : Int), rest) := by
  have hdigits : ∀ c ∈ padded 4 n, c.isDigit = true := fun _ ↦ isDigit_of_mem_padded
  have htake := takeWhile_digits hdigits hr
  have hdrop := dropWhile_digits hdigits hr
  have hnat := nat?_padded 4 n
  have hsign : ∀ sign tail, sign.isDigit = false → padded 4 n ++ rest = sign :: tail → False := by
    intro sign tail hsign h
    obtain ⟨c, cs, hcs⟩ := List.exists_cons_of_ne_nil (padded_ne_nil 4 n)
    rw [hcs] at h
    have hc := hdigits c (by simp [hcs])
    rw [(List.cons.inj h).1, hsign] at hc
    contradiction
  rw [splitYear?.eq_3 _ (fun tail ↦ hsign '-' tail rfl) (fun tail ↦ hsign '+' tail rfl), htake,
    hdrop, nat?_padded]
  rfl

theorem splitYear?_yearText (year : Int) {rest : List Char} (hr : EndsDigits rest) :
    splitYear? (yearText year ++ rest) = some (year, rest) := by
  have hdigits : ∀ c ∈ padded 4 year.natAbs, c.isDigit = true := fun _ ↦ isDigit_of_mem_padded
  by_cases hneg : year < 0
  · have hyear : some (-(year.natAbs : Int), rest) = some (year, rest) := by
      rw [show -(year.natAbs : Int) = year by omega]
    rw [← hyear]
    simp [yearText, hneg, splitYear?, takeWhile_digits hdigits hr, dropWhile_digits hdigits hr,
      nat?_padded]
  have hyear : (year.natAbs : Int) = year := by omega
  by_cases hlong : 9999 < year
  · simp [yearText, hneg, hlong, splitYear?, takeWhile_digits hdigits hr,
      dropWhile_digits hdigits hr,
      nat?_padded, hyear]
  · rw [yearText, if_neg hneg, if_neg hlong, splitYear?_padded _ hr, hyear]

theorem fields?_chars (t : Timestamp) : fields? t.chars = some t := by
  obtain ⟨year, month, day, hour, minute, second, valid⟩ := t
  have hvalid := valid
  obtain ⟨-, hmonth, hday, hhour, hminute, hsecond⟩ := hvalid
  have hdays : daysInMonth year month ≤ 31 := by
    simp only [daysInMonth]
    split <;> split <;> decide
  obtain ⟨m, m', hm, hmonth⟩ := padded_two (n := month) (by omega)
  obtain ⟨d, d', hd, hday⟩ := padded_two (n := day) (by omega)
  obtain ⟨h, h', hh, hhour⟩ := padded_two (n := hour) (by omega)
  obtain ⟨n, n', hn, hminute⟩ := padded_two (n := minute) (by omega)
  obtain ⟨s, s', hs, hsecond⟩ := padded_two (n := second) (by omega)
  rw [fields?, chars, splitYear?_yearText _ (by simp [EndsDigits])]
  simp [hm, hd, hh, hn, hs, hmonth, hday, hhour, hminute, hsecond, valid]

theorem ofText?_text (t : Timestamp) : ofText? t.text = some t := by
  have hchars : t.text.toList = t.chars := String.toList_ofList
  simp [ofText?, hchars, fields?_chars]

end TableStore.Timestamp
