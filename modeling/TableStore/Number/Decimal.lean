import TableStore.Number.Double
import TableStore.Number.Numeral

namespace TableStore

/-- The number `± digits * 10 ^ exponent`. -/
structure Decimal where
  negative : Bool
  digits : Nat
  exponent : Int
  deriving DecidableEq

namespace Decimal

/-- Reads an unsigned decimal: digits, a point with further digits, and an exponent, where one of
the two runs of digits may be empty. -/
def unsigned? (negative : Bool) (cs : List Char) : Option Decimal :=
  let whole := cs.takeWhile Char.isDigit
  let rest := cs.dropWhile Char.isDigit
  let fraction := match rest with
    | '.' :: rest => rest.takeWhile Char.isDigit
    | _ => []
  let rest := match rest with
    | '.' :: rest => rest.dropWhile Char.isDigit
    | _ => rest
  let exponent? : Option Int := match rest with
    | [] => some 0
    | e :: rest =>
      if e = 'e' ∨ e = 'E' then
        match rest with
        | '-' :: digits => (Numeral.nat? digits).map fun n ↦ -(n : Int)
        | '+' :: digits => (Numeral.nat? digits).map fun n ↦ (n : Int)
        | digits => (Numeral.nat? digits).map fun n ↦ (n : Int)
      else none
  if whole = [] ∧ fraction = [] then none
  else exponent?.map fun exponent ↦
    ⟨negative, Numeral.value (whole ++ fraction), exponent - fraction.length⟩

/-- The nearest double. Numbers far outside the range of doubles are settled by their length. -/
def toDouble (x : Decimal) : Double :=
  let length : Int := (Numeral.ofNat x.digits).length
  if x.digits = 0 ∨ x.exponent + length < -330 then .finite (.zero x.negative)
  else if 310 < x.exponent + length then .infinite x.negative
  else if 0 ≤ x.exponent then .ofRatio x.negative (x.digits * Nat.pow 10 x.exponent.toNat) 1
  else .ofRatio x.negative x.digits (Nat.pow 10 (-x.exponent).toNat)

def trimmed : Nat → Decimal → Decimal
  | 0, x => x
  | fuel + 1, x =>
    if x.digits ≠ 0 ∧ x.digits % 10 = 0 then
      trimmed fuel { x with digits := x.digits / 10, exponent := x.exponent + 1 }
    else x

end Decimal

inductive Tie
  | up
  | even
  deriving DecidableEq

namespace Double

/-- Reads a double: a sign, then a decimal or a name of an infinity or of no number. -/
def ofText? (text : String) : Option Double :=
  let (negative, cs) := match text.toList with
    | '-' :: cs => (true, cs)
    | '+' :: cs => (false, cs)
    | cs => (false, cs)
  let name := String.ofList (cs.map Char.toLower)
  if name = "nan" then some .nan
  else if name = "inf" ∨ name = "infinity" then some (.infinite negative)
  else (Decimal.unsigned? negative cs).map Decimal.toDouble

namespace Finite

def exactDecimal (x : Finite) : Decimal := ⟨x.negative, x.units * Nat.pow 5 1074, -1074⟩

/-- The count of digits before the point, zero or negative below one tenth. -/
def position (x : Finite) : Int :=
  (Numeral.ofNat (x.units * Nat.pow 10 400 / resolution)).length - 400

/-- Of the two multiples of `10 ^ exponent` around `x`, the nearer one that reads back as `x`. -/
def onGrid? (tie : Tie) (x : Finite) (exponent : Int) : Option Decimal :=
  let n := if 0 ≤ exponent then x.units else x.units * Nat.pow 10 (-exponent).toNat
  let d := if 0 ≤ exponent then resolution * Nat.pow 10 exponent.toNat else resolution
  let low : Decimal := ⟨x.negative, n / d, exponent⟩
  let high : Decimal := ⟨x.negative, n / d + 1, exponent⟩
  let lowFits := low.toDouble = .finite x
  let highFits := high.toDouble = .finite x
  let rest := n % d
  let preferHigh := d < 2 * rest ∨
    (2 * rest = d ∧ (tie = .up ∨ n / d % 2 = 1))
  if highFits ∧ (preferHigh ∨ ¬lowFits) then some high
  else if lowFits then some low
  else none

/-- The decimal of the fewest digits that reads back as `x`, and of those the nearest. -/
def shortest (tie : Tie) (x : Finite) : Decimal :=
  if x.magnitude.val = 0 then ⟨x.negative, 0, 0⟩
  else
    match (List.range 17).findSome? fun (n : Nat) ↦ x.onGrid? tie (x.position - (n + 1)) with
    | some decimal => decimal.trimmed 20
    | none => x.exactDecimal

end Finite

end Double

end TableStore
