namespace TableStore

/-- The nearest natural number to `n / d`, a half going to the even neighbour. -/
def roundHalfEven (n d : Nat) : Nat :=
  let floor := n / d
  let rest := n % d
  if 2 * rest < d ∨ (2 * rest = d ∧ floor % 2 = 0) then floor else floor + 1

namespace Double

abbrev runLength : Nat := Nat.pow 2 52

/-- The number of nonnegative finite doubles. -/
abbrev magnitudes : Nat := 2047 * runLength

/-- Doubles are multiples of one over this. -/
abbrev resolution : Nat := Nat.pow 2 1074

/-- A finite double: its sign, and the place of its absolute value among the nonnegative finite
doubles in increasing order. -/
structure Finite where
  negative : Bool
  magnitude : Fin magnitudes
  deriving DecidableEq

namespace Finite

/-- The absolute value in units of `1 / resolution`. In the first two runs the doubles are one
unit apart, and the distance doubles with each further run. -/
def units (x : Finite) : Nat :=
  let run := x.magnitude.val / runLength
  if run = 0 then x.magnitude.val
  else (runLength + x.magnitude.val % runLength) * Nat.pow 2 (run - 1)

/-- Equality of the denoted numbers: the two zeros are one number. -/
def sameNumber (x y : Finite) : Bool :=
  x.magnitude = y.magnitude && (x.negative = y.negative || x.magnitude.val = 0)

def toIntHalfEven (x : Finite) : Int :=
  let n : Int := roundHalfEven x.units resolution
  if x.negative then -n else n

def neg (x : Finite) : Finite := { x with negative := !x.negative }

def zero (negative : Bool) : Finite := ⟨negative, ⟨0, by decide⟩⟩

end Finite

end Double

inductive Double
  | nan
  | infinite (negative : Bool)
  | finite (x : Double.Finite)
  deriving DecidableEq

namespace Double

/-- The double nearest to `n / d`, a half going to the even neighbour; infinite from half a step
beyond the greatest finite double. -/
def ofRatio (negative : Bool) (n d : Nat) : Double :=
  let scaled := n * resolution
  let shift := (scaled / d).log2 - 52
  let place := shift * runLength + roundHalfEven scaled (d * Nat.pow 2 shift)
  if h : place < magnitudes then .finite ⟨negative, ⟨place, h⟩⟩ else .infinite negative

def ofInt (i : Int) : Double := ofRatio (decide (i < 0)) i.natAbs 1

def neg : Double → Double
  | .nan => .nan
  | .infinite negative => .infinite !negative
  | .finite x => .finite x.neg

def sameNumber : Double → Double → Bool
  | .finite x, .finite y => x.sameNumber y
  | .infinite x, .infinite y => x == y
  | _, _ => false

end Double

end TableStore
