import TableStore.BTree.Basic
import TableStore.Number.Numeral

namespace TableStore.BTree

inductive Defect
  | degree (degree : Nat)
  | keyCount (keys : List Int64) (least most : Nat)
  | unsorted (keys : List Int64)
  | outOfBounds (keys : List Int64) (low high : Option Int64)
  | leafWithChildren
  | childCount (keys children : Nat)
  | separator (key : Int64)
  | unevenDepth
  deriving DecidableEq

namespace Node

def isAscending : List Int64 → Bool
  | key :: next :: rest => key ≤ next && isAscending (next :: rest)
  | _ => true

def isBetween (low high : Option Int64) (key : Int64) : Bool :=
  low.all (· ≤ key) && high.all (key ≤ ·)

mutual

/-- The depth of the leaves below a node whose keys have to lie between the bounds, or the first
defect. -/
def check (degree : Nat) (isRoot : Bool) (low high : Option Int64) : Node → Except Defect Nat
  | ⟨keys, children, isLeaf⟩ =>
    if ¬isRoot ∧ (keys.length < degree - 1 ∨ 2 * degree - 1 < keys.length) then
      .error (.keyCount keys (degree - 1) (2 * degree - 1))
    else if ¬isAscending keys then .error (.unsorted keys)
    else if ¬keys.all (isBetween low high) then .error (.outOfBounds keys low high)
    else if isLeaf then
      if children.isEmpty then .ok 0 else .error .leafWithChildren
    else if children.length ≠ keys.length + 1 then
      .error (.childCount keys.length children.length)
    else checkAll degree low high none keys children

/-- One more than the common depth of the leaves below children with these separators. -/
def checkAll (degree : Nat) (low high : Option Int64) (depth : Option Nat) :
    List Int64 → List Node → Except Defect Nat
  | _, [] => .ok (depth.getD 0 + 1)
  | [], child :: rest =>
    match child.check degree false low high with
    | .error defect => .error defect
    | .ok d =>
      if depth.any (· ≠ d) then .error .unevenDepth
      else checkAll degree low high (some d) [] rest
  | separator :: keys, child :: rest =>
    if child.maxKey? ≠ some separator then .error (.separator separator)
    else
      match child.check degree false low (some separator) with
      | .error defect => .error defect
      | .ok d =>
        if depth.any (· ≠ d) then .error .unevenDepth
        else checkAll degree (some separator) high (some d) keys rest

end

end Node

def check (tree : BTree) : Except Defect Unit :=
  if tree.degree < 2 ∨ maxDegree < tree.degree then .error (.degree tree.degree)
  else (tree.root.check tree.degree true none none).map fun _ ↦ ()

namespace Defect

def natText (n : Nat) : String := String.ofList (Numeral.ofNat n)

def keyText (key : Int64) : String := String.ofList (Numeral.ofInt key.toInt)

def keysText (keys : List Int64) : String :=
  "[" ++ String.intercalate ", " (keys.map keyText) ++ "]"

def boundText : Option Int64 → String
  | none => "None"
  | some key => "Some(" ++ keyText key ++ ")"

def message : Defect → String
  | .degree n => "minimum degree " ++ natText n ++ " is outside 2..=65536"
  | .keyCount keys least most =>
    "node " ++ keysText keys ++ " holds " ++ natText keys.length ++ " keys, allowed " ++
      natText least ++ "..=" ++ natText most
  | .unsorted keys => "keys " ++ keysText keys ++ " are not sorted"
  | .outOfBounds keys low high =>
    "keys " ++ keysText keys ++ " escape bounds " ++ boundText low ++ "..=" ++ boundText high
  | .leafWithChildren => "leaf node has children"
  | .childCount keys children =>
    "internal node with " ++ natText keys ++ " keys has " ++ natText children ++ " children"
  | .separator k => "separator " ++ keyText k ++ " is not the maximum of its left subtree"
  | .unevenDepth => "leaves are not all at the same depth"

end Defect

end TableStore.BTree
