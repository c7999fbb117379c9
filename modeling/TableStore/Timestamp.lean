import TableStore.Number.Numeral

namespace TableStore

namespace Timestamp

def isLeap (year : Int) : Bool := year % 4 = 0 && (year % 100 ≠ 0 || year % 400 = 0)

def daysInMonth (year : Int) (month : Nat) : Nat :=
  if month = 2 then if isLeap year then 29 else 28
  else if month = 4 ∨ month = 6 ∨ month = 9 ∨ month = 11 then 30
  else 31

/-- A date of the calendar and a time of day. Every minute may end in a leap second. -/
def Valid (year : Int) (month day hour minute second : Nat) : Prop :=
  (-262143 ≤ year ∧ year ≤ 262142) ∧ (1 ≤ month ∧ month ≤ 12) ∧
    (1 ≤ day ∧ day ≤ daysInMonth year month) ∧ hour ≤ 23 ∧ minute ≤ 59 ∧ second ≤ 60

instance (year : Int) (month day hour minute second : Nat) :
    Decidable (Valid year month day hour minute second) := by
  unfold Valid
  infer_instance

end Timestamp

/-- A point in time without a zone, to the second. -/
structure Timestamp where
  year : Int
  month : Nat
  day : Nat
  hour : Nat
  minute : Nat
  second : Nat
  valid : Timestamp.Valid year month day hour minute second
  deriving DecidableEq

namespace Timestamp

def padded (width n : Nat) : List Char :=
  let digits := Numeral.ofNat n
  List.replicate (width - digits.length) '0' ++ digits

/-- Four digits, with a sign outside the years 0 to 9999. -/
def yearText (year : Int) : List Char :=
  if year < 0 then '-' :: padded 4 year.natAbs
  else if 9999 < year then '+' :: padded 4 year.natAbs
  else padded 4 year.natAbs

/-- The layout `YYYY-MM-DD HH:MM:SS`. -/
def chars (t : Timestamp) : List Char :=
  yearText t.year ++ '-' :: (padded 2 t.month ++ '-' :: (padded 2 t.day ++ ' ' ::
    (padded 2 t.hour ++ ':' :: (padded 2 t.minute ++ ':' :: padded 2 t.second))))

def text (t : Timestamp) : String := String.ofList t.chars

def pair? (tens ones : Char) : Option Nat := Numeral.nat? [tens, ones]

def splitYear? (cs : List Char) : Option (Int × List Char) :=
  let (negative, cs) := match cs with
    | '-' :: cs => (true, cs)
    | '+' :: cs => (false, cs)
    | cs => (false, cs)
  (Numeral.nat? (cs.takeWhile Char.isDigit)).map fun n ↦
    (if negative then -(n : Int) else n, cs.dropWhile Char.isDigit)

def fields? (cs : List Char) : Option Timestamp := do
  let (year, cs) ← splitYear? cs
  match cs with
  | ['-', m, m', '-', d, d', ' ', h, h', ':', n, n', ':', s, s'] =>
    let month ← pair? m m'
    let day ← pair? d d'
    let hour ← pair? h h'
    let minute ← pair? n n'
    let second ← pair? s s'
    if valid : Valid year month day hour minute second then
      some ⟨year, month, day, hour, minute, second, valid⟩
    else none
  | _ => none

/-- Reads a timestamp from the one text that spells it. -/
def ofText? (text : String) : Option Timestamp :=
  (fields? text.toList).filter fun t ↦ t.text = text

end Timestamp

end TableStore
