import TableStore.Json.Reader
import TableStore.Json.Writer
import TableStore.Proofs.Number.Decimal

namespace TableStore

namespace Json.Reader

open Numeral (EndsDigits takeWhile_digits dropWhile_digits)

/-- What may follow a number without being taken for a part of it. -/
def EndsNumber (rest : List Char) : Prop :=
  ∀ c ∈ rest.head?, c.isDigit = false ∧ c ≠ '.' ∧ c ≠ 'e' ∧ c ≠ 'E'

theorem EndsNumber.endsDigits {rest : List Char} (h : EndsNumber rest) : EndsDigits rest :=
  fun c hc ↦ (h c hc).1

theorem endsDigits_point (cs : List Char) : EndsDigits ('.' :: cs) := by simp [EndsDigits]

theorem endsDigits_mark (cs : List Char) : EndsDigits ('e' :: cs) := by simp [EndsDigits]

theorem whole?_eq {digits rest : List Char} (hd : ∀ c ∈ digits, c.isDigit = true)
    (hne : digits ≠ []) (hzero : 1 < digits.length → digits.head? ≠ some '0')
    (hr : EndsDigits rest) :
    whole? (digits ++ rest) = some (digits, rest) := by
  have hbad : ¬(digits = [] ∨ 1 < digits.length ∧ digits.head? = some '0') := by
    rintro (h | h)
    · exact hne h
    · exact hzero h.1 h.2
  simp only [whole?, takeWhile_digits hd hr, dropWhile_digits hd hr]
  rw [if_neg hbad]

theorem fraction?_none {rest : List Char} (h : ∀ c ∈ rest.head?, c ≠ '.') :
    fraction? rest = some ([], rest) := by
  unfold fraction?
  split
  · exact absurd rfl (h '.' rfl)
  · rfl

theorem fraction?_eq {digits rest : List Char} (hd : ∀ c ∈ digits, c.isDigit = true)
    (hne : digits ≠ [])
    (hr : EndsDigits rest) : fraction? ('.' :: (digits ++ rest)) = some (digits, rest) := by
  simp only [fraction?, takeWhile_digits hd hr, dropWhile_digits hd hr]

theorem exponent?_none {rest : List Char} (h : EndsNumber rest) :
    exponent? rest = some (none, rest) := by
  cases rest with
  | nil => rfl
  | cons c rest =>
    obtain ⟨-, -, he, hE⟩ := h c rfl
    simp [exponent?, he, hE]

def exponentSign (exponent : Int) : Char := if 0 ≤ exponent then '+' else '-'

theorem exponent?_eq (exponent : Int) {rest : List Char} (hr : EndsDigits rest) :
    exponent? ('e' :: exponentSign exponent :: (Numeral.ofNat exponent.natAbs ++ rest)) =
      some (some exponent, rest) := by
  have hd : ∀ c ∈ Numeral.ofNat exponent.natAbs, c.isDigit = true := fun c hc ↦
    Numeral.isDigit_of_mem_ofNat hc
  have hne := Numeral.ofNat_ne_nil exponent.natAbs
  have hvalue := Numeral.value_ofNat exponent.natAbs
  by_cases hsign : 0 ≤ exponent
  · simp only [exponentSign, hsign, if_true, exponent?, true_or, takeWhile_digits hd hr,
      dropWhile_digits hd hr, hvalue, Bool.false_eq_true, if_false]
    rw [show (exponent.natAbs : Int) = exponent by omega]
  · simp only [exponentSign, hsign, if_false, exponent?, true_or, if_true, takeWhile_digits hd hr,
      dropWhile_digits hd hr, hvalue]
    rw [show -(exponent.natAbs : Int) = exponent by omega]

theorem numberValue_float {negative : Bool} {whole fraction : List Char} {exponent : Option Int}
    {x : Double.Finite} (h : fraction ≠ [] ∨ exponent ≠ none)
    (hx : Decimal.toDouble
      ⟨negative, Numeral.value (whole ++ fraction), exponent.getD 0 - fraction.length⟩ =
        .finite x) :
    numberValue negative whole fraction exponent = some (.float x) := by
  have hnot : ¬(fraction = [] ∧ exponent = none) := by
    rintro ⟨hf, he⟩
    rcases h with h | h <;> contradiction
  simp only [numberValue, if_neg hnot, hx]

theorem number?_of_isDigit {c : Char} (hc : c.isDigit = true) (cs : List Char) :
    number? (c :: cs) = unsigned? false (c :: cs) := by
  unfold number?
  split
  · rename_i h
    rw [(List.cons.inj h).1] at hc
    contradiction
  · rfl

/-- Digits before and after a point that spell a decimal up to the exponent after them. -/
structure Spells (whole fraction : List Char) (exponent : Int) (x : Decimal) : Prop where
  whole_digits : ∀ c ∈ whole, c.isDigit = true
  whole_ne_nil : whole ≠ []
  whole_head : 1 < whole.length → whole.head? ≠ some '0'
  fraction_digits : ∀ c ∈ fraction, c.isDigit = true
  toDouble : Decimal.toDouble
    ⟨x.negative, Numeral.value (whole ++ fraction), exponent - fraction.length⟩ = x.toDouble

variable {x : Decimal} {position : Int}

theorem isDigit_of_mem_zeros {k : Nat} {c : Char}
    (h : c ∈ List.replicate k '0') : c.isDigit = true := by
  rw [List.eq_of_mem_replicate h]
  rfl

theorem spells_split (hposition : position = x.exponent + (Numeral.ofNat x.digits).length)
    (hzero : x.digits ≠ 0) {k : Nat} (hk : 0 < k) (hle : k ≤ (Numeral.ofNat x.digits).length) :
    Spells ((Numeral.ofNat x.digits).take k) ((Numeral.ofNat x.digits).drop k) (position - k) x := by
  have hne := Numeral.ofNat_ne_nil x.digits
  refine ⟨fun c hc ↦ Numeral.isDigit_of_mem_ofNat (List.mem_of_mem_take hc), ?_, fun _ ↦ ?_,
    fun c hc ↦ Numeral.isDigit_of_mem_ofNat (List.mem_of_mem_drop hc), ?_⟩
  · simp [List.take_eq_nil_iff, hne]
    omega
  · rw [List.head?_take, if_neg (by omega)]
    exact Numeral.head_ofNat_ne_zero hzero
  · rw [List.take_append_drop, Numeral.value_ofNat, List.length_drop]
    congr 2
    omega

theorem withPoint_spells (hposition : position = x.exponent + (Numeral.ofNat x.digits).length)
    (hzero : x.digits ≠ 0) :
    ∃ whole fraction, Layout.json.withPoint (Numeral.ofNat x.digits) position =
      whole ++ '.' :: fraction ∧
      fraction ≠ [] ∧ Spells whole fraction 0 x := by
  have hne := Numeral.ofNat_ne_nil x.digits
  by_cases hlow : position ≤ 0
  · refine ⟨['0'], List.replicate (-position).toNat '0' ++ Numeral.ofNat x.digits, ?_, by simp [hne], ?_⟩
    · simp [Layout.withPoint, hlow]
    · refine ⟨by simp, by simp, by simp, fun c hc ↦ ?_, ?_⟩
      · rcases List.mem_append.mp hc with hc | hc
        · exact isDigit_of_mem_zeros hc
        · exact Numeral.isDigit_of_mem_ofNat hc
      · have hvalue := Numeral.value_zeros_append (1 + (-position).toNat) (Numeral.ofNat x.digits)
        rw [← List.replicate_append_replicate, List.append_assoc, Numeral.value_ofNat] at hvalue
        rw [show ['0'] = List.replicate 1 '0' from rfl, hvalue]
        congr 2
        simp only [List.length_append, List.length_replicate]
        omega
  by_cases hhigh : (Numeral.ofNat x.digits).length ≤ position.toNat
  · refine ⟨Numeral.ofNat x.digits ++
      List.replicate (position.toNat - (Numeral.ofNat x.digits).length) '0', ['0'], ?_, by simp, ?_⟩
    · simp [Layout.withPoint, hlow, hhigh, Layout.json]
    · refine ⟨fun c hc ↦ ?_, by simp [hne], fun _ ↦ ?_, by simp, ?_⟩
      · rcases List.mem_append.mp hc with hc | hc
        · exact Numeral.isDigit_of_mem_ofNat hc
        · exact isDigit_of_mem_zeros hc
      · rw [List.head?_append, List.head?_eq_some_head hne, Option.some_or,
          ← List.head?_eq_some_head]
        exact Numeral.head_ofNat_ne_zero hzero
      · have hvalue := Numeral.value_append_zeros (Numeral.ofNat x.digits)
          (position.toNat - (Numeral.ofNat x.digits).length + 1)
        rw [← List.replicate_append_replicate, ← List.append_assoc, Numeral.value_ofNat] at hvalue
        rw [show ['0'] = List.replicate 1 '0' from rfl, hvalue, Decimal.toDouble_mul_pow]
        congr 2
        simp only [List.length_replicate]
        omega
  · refine ⟨(Numeral.ofNat x.digits).take position.toNat,
      (Numeral.ofNat x.digits).drop position.toNat,
      ?_, ?_, ?_⟩
    · simp [Layout.withPoint, hlow, hhigh]
    · simp [List.drop_eq_nil_iff, hhigh]
    · have hsplit := spells_split hposition hzero (k := position.toNat) (by omega) (by omega)
      rwa [show position - position.toNat = 0 by omega] at hsplit

def pointed : List Char → List Char
  | [] => []
  | fraction => '.' :: fraction

theorem withExponent_spells (hposition : position = x.exponent + (Numeral.ofNat x.digits).length)
    (hzero : x.digits ≠ 0) :
    ∃ whole fraction, Layout.json.withExponent (Numeral.ofNat x.digits) position =
        whole ++ pointed fraction ++
          'e' :: exponentSign (position - 1) :: Numeral.ofNat (position - 1).natAbs ∧
      Spells whole fraction (position - 1) x := by
  have hpos := List.length_pos_iff.mpr (Numeral.ofNat_ne_nil x.digits)
  refine ⟨(Numeral.ofNat x.digits).take 1, (Numeral.ofNat x.digits).drop 1, ?_,
    spells_split hposition hzero (k := 1) (by decide) hpos⟩
  have hexponent : (if Layout.json.plus = true ∧ 0 ≤ position - 1 then ['+'] else []) ++
      Numeral.ofInt (position - 1) =
        exponentSign (position - 1) :: Numeral.ofNat (position - 1).natAbs := by
    by_cases h : 0 ≤ position - 1
    · rw [exponentSign, if_pos h, if_pos ⟨rfl, h⟩, Numeral.ofInt, if_neg (Int.not_lt.mpr h)]
      rfl
    · rw [exponentSign, if_neg h, if_neg fun hplus ↦ h hplus.2, Numeral.ofInt,
        if_pos (Int.not_le.mp h)]
      rfl
  simp only [Layout.withExponent, hexponent]
  cases (Numeral.ofNat x.digits).drop 1 <;> simp [pointed]

theorem zero_spells (hzero : x.digits = 0) : Spells ['0'] ['0'] 0 x where
  whole_digits := by simp
  whole_ne_nil := by simp
  whole_head := by simp
  fraction_digits := by simp
  toDouble := by rw [Decimal.toDouble_zero rfl, Decimal.toDouble_zero hzero]

section

variable {whole fraction rest : List Char} {exponent : Int} {y : Double.Finite}

theorem Spells.unsigned?_point (h : Spells whole fraction 0 x) (hf : fraction ≠ [])
    (hx : x.toDouble = .finite y) (hr : EndsNumber rest) :
    unsigned? x.negative (whole ++ '.' :: (fraction ++ rest)) = some (some (.float y), rest) := by
  have hvalue : numberValue x.negative whole fraction none = some (.float y) :=
    numberValue_float (.inl hf) (h.toDouble.trans hx)
  simp [unsigned?, whole?_eq h.whole_digits h.whole_ne_nil h.whole_head (endsDigits_point _),
    fraction?_eq h.fraction_digits hf hr.endsDigits, exponent?_none hr, hvalue]

theorem Spells.unsigned?_exponent (h : Spells whole fraction exponent x)
    (hx : x.toDouble = .finite y) (hr : EndsNumber rest) :
    unsigned? x.negative (whole ++ (pointed fraction ++
      'e' :: exponentSign exponent :: (Numeral.ofNat exponent.natAbs ++ rest))) =
        some (some (.float y), rest) := by
  have hvalue : numberValue x.negative whole fraction (some exponent) = some (.float y) :=
    numberValue_float (.inr (by simp)) (h.toDouble.trans hx)
  have hexponent := exponent?_eq exponent hr.endsDigits
  cases fraction with
  | nil =>
    have hfraction := @fraction?_none
      ('e' :: exponentSign exponent :: (Numeral.ofNat exponent.natAbs ++ rest)) (by simp)
    simp [unsigned?, pointed,
      whole?_eq h.whole_digits h.whole_ne_nil h.whole_head (endsDigits_mark _),
      hfraction, hexponent, hvalue]
  | cons c fraction =>
    have hfraction := fraction?_eq h.fraction_digits (by simp)
      (endsDigits_mark (exponentSign exponent :: (Numeral.ofNat exponent.natAbs ++ rest)))
    rw [List.cons_append] at hfraction
    simp [unsigned?, pointed,
      whole?_eq h.whole_digits h.whole_ne_nil h.whole_head (endsDigits_point _),
      hfraction, hexponent, hvalue]

theorem Spells.exists_cons (h : Spells whole fraction exponent x) :
    ∃ c cs, whole = c :: cs ∧ c.isDigit = true := by
  cases whole with
  | nil => exact absurd rfl h.whole_ne_nil
  | cons c cs => exact ⟨c, cs, rfl, h.whole_digits c (by simp)⟩

theorem Spells.number?_eq (h : Spells whole fraction exponent x) (cs : List Char) :
    number? ((if x.negative = true then ['-'] else []) ++ (whole ++ cs)) = unsigned? x.negative (whole ++ cs) := by
  cases hsign : x.negative with
  | true => rfl
  | false =>
    obtain ⟨c, cs', rfl, hc⟩ := h.exists_cons
    exact number?_of_isDigit hc _

/-- A decimal in the layout of JSON is read as the double that it rounds to. -/
theorem number?_decimal (hx : x.toDouble = .finite y) (hr : EndsNumber rest) :
    number? (Layout.json.decimal x ++ rest) = some (some (.float y), rest) := by
  by_cases hzero : x.digits = 0
  · have hspells := zero_spells hzero
    have htext : Layout.json.decimal x =
        (if x.negative = true then ['-'] else []) ++ ['0', '.', '0'] := by
      simp only [Layout.decimal, hzero, true_or, if_true]
      rfl
    rw [htext, List.append_assoc]
    exact (hspells.number?_eq _).trans (hspells.unsigned?_point (by simp) hx hr)
  by_cases hpositional : Layout.json.isPositional (x.exponent + (Numeral.ofNat x.digits).length) = true
  · obtain ⟨whole, fraction, htext, hf, hspells⟩ := withPoint_spells rfl hzero
    simp only [Layout.decimal, hzero, false_or, if_false, hpositional, if_true, htext,
      List.append_assoc]
    exact (hspells.number?_eq _).trans (hspells.unsigned?_point hf hx hr)
  · obtain ⟨whole, fraction, htext, hspells⟩ := withExponent_spells rfl hzero
    simp only [Layout.decimal, hzero, false_or, if_false, hpositional, Bool.false_eq_true, htext,
      List.append_assoc]
    exact (hspells.number?_eq _).trans (hspells.unsigned?_exponent hx hr)

end

def IsWord (n : Int) : Prop := -9223372036854775808 ≤ n ∧ n < Numeral.wordLimit

theorem number?_integer {n : Int} {rest : List Char} (h : IsWord n) (hr : EndsNumber rest) :
    number? (Numeral.ofInt n ++ rest) = some (some (.integer n), rest) := by
  obtain ⟨hmin, hmax⟩ := h
  simp only [Numeral.wordLimit] at hmax
  have hdigits : ∀ c ∈ Numeral.ofNat n.natAbs, c.isDigit = true :=
    fun c hc ↦ Numeral.isDigit_of_mem_ofNat hc
  have hne := Numeral.ofNat_ne_nil n.natAbs
  have hhead : 1 < (Numeral.ofNat n.natAbs).length → (Numeral.ofNat n.natAbs).head? ≠ some '0' := by
    intro hlen
    refine Numeral.head_ofNat_ne_zero fun hzero ↦ ?_
    rw [hzero] at hlen
    exact absurd hlen (by decide)
  have hwhole := whole?_eq hdigits hne hhead hr.endsDigits
  have hfraction := @fraction?_none rest fun c hc ↦ (hr c hc).2.1
  by_cases hsign : n < 0
  · have hvalue : numberValue true (Numeral.ofNat n.natAbs) [] none = some (.integer n) := by
      simp only [numberValue, Numeral.value_ofNat, true_and, if_true, Numeral.wordLimit]
      rw [if_pos (by omega), show -(n.natAbs : Int) = n by omega]
    simp [Numeral.ofInt, hsign, number?, unsigned?, hwhole, hfraction, exponent?_none hr, hvalue]
  · have hvalue : numberValue false (Numeral.ofNat n.natAbs) [] none = some (.integer n) := by
      simp only [numberValue, Numeral.value_ofNat, true_and, if_true, Numeral.wordLimit,
        Bool.false_eq_true, if_false]
      rw [if_pos (by omega), show (n.natAbs : Int) = n by omega]
    have hnumber : number? (Numeral.ofNat n.natAbs ++ rest) =
        unsigned? false (Numeral.ofNat n.natAbs ++ rest) := by
      cases htext : Numeral.ofNat n.natAbs with
      | nil => contradiction
      | cons c cs => exact number?_of_isDigit (hdigits c (by simp [htext])) _
    rw [Numeral.ofInt, if_neg hsign, hnumber]
    simp [unsigned?, hwhole, hfraction, exponent?_none hr, hvalue]

def Readable : Number → Prop
  | .integer n => IsWord n
  | .float _ => True

theorem number?_text {n : Number} {rest : List Char} (h : Readable n) (hr : EndsNumber rest) :
    number? (n.text ++ rest) = some (some n, rest) := by
  cases n with
  | integer n => exact number?_integer h hr
  | float x => exact number?_decimal (x.toDouble_shortest Layout.json.tie) hr

theorem head_of_whole? {cs : List Char} {r : List Char × List Char} (h : whole? cs = some r) :
    ∃ c rest, cs = c :: rest ∧ c.isDigit = true := by
  cases cs with
  | nil => simp [whole?] at h
  | cons c rest =>
    refine ⟨c, rest, rfl, ?_⟩
    by_cases hc : c.isDigit = true
    · exact hc
    · simp [whole?, hc] at h

theorem head_of_number? {cs : List Char} {r : Option Number × List Char} (h : number? cs = some r) :
    ∃ c rest, cs = c :: rest ∧ (c = '-' ∨ c.isDigit = true) := by
  unfold number? at h
  split at h
  · exact ⟨'-', _, rfl, .inl rfl⟩
  · obtain ⟨w, hwhole, -⟩ := Option.bind_eq_some_iff.mp h
    obtain ⟨c, rest, hcs, hc⟩ := head_of_whole? hwhole
    exact ⟨c, rest, hcs, .inr hc⟩

end Json.Reader

end TableStore
