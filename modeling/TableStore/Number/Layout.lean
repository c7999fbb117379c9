import TableStore.Number.Decimal

namespace TableStore

structure Layout where
  /-- The bounds within which the count of digits before the point asks for positional form. -/
  positional : Option (Int × Int)
  /-- An integral number in positional form keeps a zero after the point. -/
  keepsFraction : Bool
  /-- A nonnegative exponent is written with a plus sign. -/
  plus : Bool
  tie : Tie

namespace Layout

/-- Floats in statements: positional from `1e-4` to below `1e16`. -/
def literal : Layout := ⟨some (-3, 16), true, false, .up⟩

/-- Floats in messages: always positional. -/
def plain : Layout := ⟨none, false, false, .up⟩

/-- Floats in JSON: positional from `1e-5` to below `1e16`. -/
def json : Layout := ⟨some (-4, 16), true, true, .even⟩

def isPositional (layout : Layout) (position : Int) : Bool :=
  match layout.positional with
  | none => true
  | some (least, most) => least ≤ position && position ≤ most

def withPoint (layout : Layout) (digits : List Char) (position : Int) : List Char :=
  if position ≤ 0 then
    ['0', '.'] ++ List.replicate (-position).toNat '0' ++ digits
  else
    let whole := position.toNat
    if digits.length ≤ whole then
      digits ++ List.replicate (whole - digits.length) '0' ++
        (if layout.keepsFraction then ['.', '0'] else [])
    else digits.take whole ++ '.' :: digits.drop whole

def withExponent (layout : Layout) (digits : List Char) (position : Int) : List Char :=
  let exponent := position - 1
  let sign := if layout.plus ∧ 0 ≤ exponent then ['+'] else []
  let fraction := match digits.drop 1 with
    | [] => []
    | rest => '.' :: rest
  digits.take 1 ++ fraction ++ 'e' :: (sign ++ Numeral.ofInt exponent)

def decimal (layout : Layout) (x : Decimal) : List Char :=
  let digits := Numeral.ofNat x.digits
  let position := if x.digits = 0 then 1 else x.exponent + digits.length
  let sign := if x.negative then ['-'] else []
  sign ++
    if x.digits = 0 ∨ layout.isPositional position then layout.withPoint digits position
    else layout.withExponent digits position

def finite (layout : Layout) (x : Double.Finite) : List Char :=
  layout.decimal (x.shortest layout.tie)

def double (layout : Layout) : Double → List Char
  | .nan => ['N', 'a', 'N']
  | .infinite negative => (if negative then ['-'] else []) ++ ['i', 'n', 'f']
  | .finite x => layout.finite x

end Layout

end TableStore
