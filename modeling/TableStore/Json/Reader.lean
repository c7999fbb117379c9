import TableStore.Json.Basic
import TableStore.Number.Decimal

namespace TableStore.Json

/-- What a JSON text spells, before it is known which parts of it are wanted. A number beyond the
doubles and a string with half a surrogate pair are spelled correctly but have no value. -/
inductive Tree
  | leaf (value : Option Scalar)
  | array (items : List Tree)
  | object (members : List (Option String × Tree))

namespace Reader

def isGap (c : Char) : Bool := c = ' ' || c = '\t' || c = '\n' || c = '\r'

def skipGap (cs : List Char) : List Char := cs.dropWhile isGap

/-- The value of a numeral. Without a fraction and an exponent it is an integer if it is a natural
number of 64 bits or a negative integer of 64 bits; all else is a float. -/
def numberValue (negative : Bool) (whole fraction : List Char) (exponent : Option Int) :
    Option Number :=
  let float (digits : List Char) (exponent : Int) : Option Number :=
    match (Decimal.mk negative (Numeral.value digits) exponent).toDouble with
    | .finite x => some (.float x)
    | _ => none
  if fraction = [] ∧ exponent = none then
    let n := Numeral.value whole
    if negative then
      if 0 < n ∧ 2 * n ≤ Numeral.wordLimit then some (.integer (-(n : Int)))
      else float whole 0
    else if n < Numeral.wordLimit then some (.integer n) else float whole 0
  else float (whole ++ fraction) (exponent.getD 0 - fraction.length)

def fraction? : List Char → Option (List Char × List Char)
  | '.' :: cs =>
    match cs.takeWhile Char.isDigit with
    | [] => none
    | digits => some (digits, cs.dropWhile Char.isDigit)
  | cs => some ([], cs)

def exponent? : List Char → Option (Option Int × List Char)
  | [] => some (none, [])
  | mark :: cs =>
    if mark = 'e' ∨ mark = 'E' then
      let (negative, cs) := match cs with
        | '-' :: cs => (true, cs)
        | '+' :: cs => (false, cs)
        | cs => (false, cs)
      match cs.takeWhile Char.isDigit with
      | [] => none
      | digits =>
        let n : Int := Numeral.value digits
        some (some (if negative then -n else n), cs.dropWhile Char.isDigit)
    else some (none, mark :: cs)

def whole? (cs : List Char) : Option (List Char × List Char) :=
  let digits := cs.takeWhile Char.isDigit
  if digits = [] ∨ (1 < digits.length ∧ digits.head? = some '0') then none
  else some (digits, cs.dropWhile Char.isDigit)

def unsigned? (negative : Bool) (cs : List Char) : Option (Option Number × List Char) := do
  let (whole, cs) ← whole? cs
  let (fraction, cs) ← fraction? cs
  let (exponent, cs) ← exponent? cs
  return (numberValue negative whole fraction exponent, cs)

def number? : List Char → Option (Option Number × List Char)
  | '-' :: cs => unsigned? true cs
  | cs => unsigned? false cs

/-- A piece of a string: a character as it is, or a code unit given by four hexadecimal digits. -/
inductive Piece
  | plain (c : Char)
  | unit (code : Nat)

def hexDigit? (c : Char) : Option Nat :=
  if '0' ≤ c ∧ c ≤ '9' then some (c.toNat - '0'.toNat)
  else if 'a' ≤ c ∧ c ≤ 'f' then some (c.toNat - 'a'.toNat + 10)
  else if 'A' ≤ c ∧ c ≤ 'F' then some (c.toNat - 'A'.toNat + 10)
  else none

def shortEscape? : Char → Option Char
  | '"' => some '"'
  | '\\' => some '\\'
  | '/' => some '/'
  | 'b' => some '\x08'
  | 'f' => some '\x0c'
  | 'n' => some '\n'
  | 'r' => some '\r'
  | 't' => some '\t'
  | _ => none

def pieces? : List Char → Option (List Piece × List Char)
  | [] => none
  | '"' :: cs => some ([], cs)
  | '\\' :: 'u' :: a :: b :: c :: d :: cs => do
    let a ← hexDigit? a
    let b ← hexDigit? b
    let c ← hexDigit? c
    let d ← hexDigit? d
    let (pieces, cs) ← pieces? cs
    return (.unit (((a * 16 + b) * 16 + c) * 16 + d) :: pieces, cs)
  | '\\' :: c :: cs => do
    let c ← shortEscape? c
    let (pieces, cs) ← pieces? cs
    return (.plain c :: pieces, cs)
  | c :: cs =>
    if c.toNat < 32 then none
    else do
      let (pieces, cs) ← pieces? cs
      return (.plain c :: pieces, cs)

def isHigh (code : Nat) : Bool := 0xD800 ≤ code && code < 0xDC00

def isLow (code : Nat) : Bool := 0xDC00 ≤ code && code < 0xE000

/-- Joins surrogate pairs. A half that stands alone has no character. -/
def characters? : List Piece → Option (List Char)
  | [] => some []
  | .plain c :: rest => do return c :: (← characters? rest)
  | .unit high :: .unit low :: rest =>
    if isHigh high && isLow low then do
      return Char.ofNat (0x10000 + (high - 0xD800) * 0x400 + (low - 0xDC00)) :: (← characters? rest)
    else if isHigh high || isLow high then none
    else do return Char.ofNat high :: (← characters? (.unit low :: rest))
  | .unit code :: rest =>
    if isHigh code || isLow code then none
    else do return Char.ofNat code :: (← characters? rest)

def string? (cs : List Char) : Option (Option String × List Char) := do
  let (pieces, cs) ← pieces? cs
  return ((characters? pieces).map String.ofList, cs)

def items? {α : Type} (close : Char) (item? : List Char → Option (α × List Char)) :
    Nat → List Char → Option (List α × List Char)
  | 0, _ => none
  | fuel + 1, cs => do
    let (item, cs) ← item? cs
    match skipGap cs with
    | ',' :: cs =>
      let (items, cs) ← items? close item? fuel cs
      return (item :: items, cs)
    | c :: cs => if c = close then some ([item], cs) else none
    | [] => none

def sequence? {α : Type} (close : Char) (item? : List Char → Option (α × List Char))
    (fuel : Nat) (cs : List Char) : Option (List α × List Char) :=
  match skipGap cs with
  | c :: rest => if c = close then some ([], rest) else items? close item? fuel cs
  | [] => none

def member? {α : Type} (value? : List Char → Option (α × List Char)) (cs : List Char) :
    Option ((Option String × α) × List Char) :=
  match skipGap cs with
  | '"' :: cs => do
    let (name, cs) ← string? cs
    match skipGap cs with
    | ':' :: cs =>
      let (value, cs) ← value? cs
      return ((name, value), cs)
    | _ => none
  | _ => none

/-- One value at the front of a text. The fuel bounds the nesting and the count of items; the
length of the text is enough of it. -/
def tree? : Nat → List Char → Option (Tree × List Char)
  | 0, _ => none
  | fuel + 1, cs =>
    match skipGap cs with
    | 'n' :: 'u' :: 'l' :: 'l' :: cs => some (.leaf (some .null), cs)
    | 't' :: 'r' :: 'u' :: 'e' :: cs => some (.leaf (some (.bool true)), cs)
    | 'f' :: 'a' :: 'l' :: 's' :: 'e' :: cs => some (.leaf (some (.bool false)), cs)
    | '"' :: cs => do
      let (value, cs) ← string? cs
      return (.leaf (value.map .string), cs)
    | '[' :: cs => do
      let (items, cs) ← sequence? ']' (tree? fuel) fuel cs
      return (.array items, cs)
    | '\x7b' :: cs => do
      let (members, cs) ← sequence? '\x7d' (member? (tree? fuel)) fuel cs
      return (.object members, cs)
    | cs => do
      let (value, cs) ← number? cs
      return (.leaf (value.map .number), cs)

end Reader

def Tree.ofText? (text : String) : Option Tree := do
  let cs := text.toList
  let (tree, cs) ← Reader.tree? (cs.length + 1) cs
  if Reader.skipGap cs = [] then some tree else none

def maxDepth : Nat := 127

/-- The value that is spelled, within `depth` levels of arrays and objects. Of members with one
name the last gives the value. -/
def Tree.value? : Nat → Tree → Option Json
  | _, .leaf value => value.map .scalar
  | 0, .array _ => none
  | 0, .object _ => none
  | depth + 1, .array items => (items.mapM fun item ↦ value? depth item).map .array
  | depth + 1, .object members => do
    let members ← members.mapM fun (name?, tree) ↦ do
      return (← name?, ← value? depth tree)
    return .object (Record.ofList members)

def ofText? (text : String) : Option Json := do
  (← Tree.ofText? text).value? maxDepth

end TableStore.Json
