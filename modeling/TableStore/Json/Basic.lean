import TableStore.Number.Double
import TableStore.Number.Numeral

namespace TableStore

namespace Json

/-- A JSON number: an integer is kept apart from a float of the same value. -/
inductive Number
  | integer (n : Int)
  | float (x : Double.Finite)
  deriving DecidableEq

inductive Scalar
  | null
  | bool (b : Bool)
  | number (n : Number)
  | string (s : String)
  deriving DecidableEq

end Json

inductive Json
  | scalar (s : Json.Scalar)
  | array (items : List Json)
  | object (members : List (String × Json))

/-- Members of a JSON object in the order in which their names first came. -/
abbrev Record := List (String × Json)

namespace Record

def get? (record : Record) (name : String) : Option Json := record.lookup name

def insert (name : String) (json : Json) : Record → Record
  | [] => [(name, json)]
  | (key, old) :: rest =>
    if key = name then (key, json) :: rest else (key, old) :: insert name json rest

def ofList (members : List (String × Json)) : Record :=
  members.foldl (fun record member ↦ record.insert member.1 member.2) []

end Record

namespace Json.Number

/-- The signed word of an integer. A float has none, whatever its value. -/
def toInt64? : Number → Option Int64
  | .integer n => Numeral.int64? n
  | .float _ => none

def toDouble : Number → Double
  | .integer n => .ofInt n
  | .float x => .finite x

/-- Equality by value, exact between signed words and through doubles otherwise. -/
def sameValue (m n : Number) : Bool :=
  match m.toInt64?, n.toInt64? with
  | some m, some n => m == n
  | _, _ => m.toDouble.sameNumber n.toDouble

end Json.Number

def Json.Scalar.sameValue : Scalar → Scalar → Bool
  | .number m, .number n => m.sameValue n
  | s, t => s == t

end TableStore
