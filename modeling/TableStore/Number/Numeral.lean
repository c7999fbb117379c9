namespace TableStore.Numeral

def ofNat (n : Nat) : List Char := Nat.toDigits 10 n

def ofInt (i : Int) : List Char :=
  if i < 0 then '-' :: ofNat i.natAbs else ofNat i.natAbs

def value (digits : List Char) : Nat := Nat.ofDigitChars 10 digits 0

def nat? (cs : List Char) : Option Nat :=
  if cs ≠ [] ∧ cs.all Char.isDigit then some (value cs) else none

def wordLimit : Nat := 18446744073709551616

def int64? (i : Int) : Option Int64 :=
  if Int64.minValue.toInt ≤ i ∧ i ≤ Int64.maxValue.toInt then some (Int64.ofInt i) else none

def clamp (i : Int) : Int64 :=
  if i < Int64.minValue.toInt then Int64.minValue
  else if Int64.maxValue.toInt < i then Int64.maxValue
  else Int64.ofInt i

def signed? : List Char → Option Int64
  | '-' :: digits => do int64? (-(← nat? digits))
  | '+' :: digits => do int64? (← nat? digits)
  | digits => do int64? (← nat? digits)

theorem value_ofNat (n : Nat) : value (ofNat n) = n :=
  Nat.ofDigitChars_toDigits (by decide) (by decide)

theorem int64?_toInt (i : Int64) : int64? i.toInt = some i := by
  rw [int64?, if_pos ⟨Int64.minValue_le_toInt i, Int64.toInt_le i⟩, Int64.ofInt_toInt]

end TableStore.Numeral
