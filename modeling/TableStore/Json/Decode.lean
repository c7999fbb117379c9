import TableStore.Json.Reader

namespace TableStore.Json.Tree

/-- The value of a field, if it is there once; repeating it is an error. -/
def field? (name : String) (members : List (String × Tree)) : Option (Option Tree) :=
  match members.filter fun member ↦ member.1 == name with
  | [] => some none
  | [member] => some (some member.2)
  | _ => none

/-- The values of the named fields in order, `none` where a field is left out. They are those of an
object, in which other fields are passed over, or of an array with the fields in order. -/
def fields? (names : List String) : Tree → Option (List (Option Tree))
  | .object members => do
    let members ← members.mapM fun (name?, tree) ↦ do return (← name?, tree)
    names.mapM fun name ↦ field? name members
  | .array items =>
    if items.length ≤ names.length then
      some (items.map some ++ List.replicate (names.length - items.length) none)
    else none
  | _ => none

def bool? : Tree → Option Bool
  | .leaf (some (.bool b)) => some b
  | _ => none

def string? : Tree → Option String
  | .leaf (some (.string s)) => some s
  | _ => none

def integer? : Tree → Option Int
  | .leaf (some (.number (.integer n))) => some n
  | _ => none

def int64? (tree : Tree) : Option Int64 := do Numeral.int64? (← tree.integer?)

def word? (tree : Tree) : Option Nat := do
  let n ← tree.integer?
  if 0 ≤ n then some n.toNat else none

def items? : Tree → Option (List Tree)
  | .array items => some items
  | _ => none

def required {α : Type} (read : Tree → Option α) : Option Tree → Option α
  | some tree => read tree
  | none => none

def optional {α : Type} (fallback : α) (read : Tree → Option α) : Option Tree → Option α
  | some tree => read tree
  | none => some fallback

end TableStore.Json.Tree
