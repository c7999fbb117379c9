import TableStore.BTree.Basic

namespace TableStore.BTree

namespace Node

/-- The node on the way down to `key` that has `key` among its keys, if there is one within
`height` steps. -/
def find? (key : Int64) : Nat → Node → Except Fault (Option Node)
  | height, node =>
    let i := boundary (· < key) node.keys
    if node.keys[i]? = some key then .ok (some node)
    else if node.isLeaf then .ok none
    else match height with
      | 0 => .error .missingChild
      | height + 1 => do find? key height (← node.child i)

mutual

/-- The leaf keys from `low` to `high`, leaving out the children that their separators exclude. -/
def keysWithin (low high : Int64) : Node → List Int64
  | ⟨keys, children, isLeaf⟩ =>
    if isLeaf then keys.filter fun key ↦ low ≤ key && key ≤ high
    else keysWithinAll low high keys children

def keysWithinAll (low high : Int64) : List Int64 → List Node → List Int64
  | _, [] => []
  | [], child :: rest => child.keysWithin low high ++ keysWithinAll low high [] rest
  | separator :: keys, child :: rest =>
    if separator < low then keysWithinAll low high keys rest
    else child.keysWithin low high ++
      if high < separator then [] else keysWithinAll low high keys rest

end

end Node

def search (tree : BTree) (key : Int64) : Except Fault (Option Node) :=
  tree.root.find? key tree.root.height

def contains (tree : BTree) (key : Int64) : Except Fault Bool :=
  (tree.search key).map Option.isSome

def range (tree : BTree) (low high : Int64) : List Int64 :=
  if low ≤ high then tree.root.keysWithin low high else []

end TableStore.BTree
