import TableStore.BTree.Basic
import TableStore.Ensure
import TableStore.Number.Numeral

namespace TableStore.BTree

namespace Node

def isFull (degree : Nat) (node : Node) : Bool := node.keys.length + 1 = 2 * degree

/-- The halves of a full node and the key that goes between them. A leaf keeps that key as the last
of its left half. -/
def halves (degree : Nat) (node : Node) : Except Fault (Node × Int64 × Node) := do
  let separator ← node.key (degree - 1)
  let right := node.keys.drop degree
  if node.isLeaf then
    return ({ node with keys := node.keys.take degree }, separator, leaf right)
  else if node.children.length < degree then throw .missingChild
  else
    return (⟨node.keys.take (degree - 1), node.children.take degree, false⟩, separator,
      ⟨right, node.children.drop degree, false⟩)

def splitChild (degree i : Nat) (node : Node) : Except Fault Node := do
  let (left, separator, right) ← (← node.child i).halves degree
  return { node with
    keys := node.keys.insertIdx i separator
    children := (node.children.set i left).insertIdx (i + 1) right }

/-- Splits child `i` if it is full, and tells into which child `key` goes then. -/
def makeRoom (degree : Nat) (key : Int64) (i : Nat) (node : Node) : Except Fault (Node × Nat) := do
  let child ← node.child i
  if child.isFull degree then
    let node ← node.splitChild degree i
    let separator ← node.key i
    return (node, if separator < key then i + 1 else i)
  else return (node, i)

/-- Adds a key below a node that is not full, to the right of equal keys. Full nodes on the way
down are split. -/
def insertBelow (degree : Nat) (key : Int64) : Nat → Node → Except Fault Node
  | height, node =>
    let i := boundary (· ≤ key) node.keys
    if node.isLeaf then .ok { node with keys := node.keys.insertIdx i key }
    else match height with
      | 0 => .error .missingChild
      | height + 1 => do
        let (node, i) ← node.makeRoom degree key i
        let child ← insertBelow degree key height (← node.child i)
        return { node with children := node.children.set i child }

end Node

def roomyRoot (tree : BTree) : Except Fault Node :=
  if tree.root.isFull tree.degree then Node.splitChild tree.degree 0 ⟨[], [tree.root], false⟩
  else .ok tree.root

/-- Whether nodes have a capacity, `2 * degree - 1`, that is computed within a machine word. -/
def hasCapacity (tree : BTree) : Bool := 0 < tree.degree && 2 * tree.degree < Numeral.wordLimit

def insert (tree : BTree) (key : Int64) : Except Fault BTree := do
  ensure tree.hasCapacity .capacity
  let root ← tree.roomyRoot
  return { tree with root := ← root.insertBelow tree.degree key root.height }

def ofKeys (degree : Nat) (keys : List Int64) : Except Fault BTree := do
  keys.foldlM insert (← empty degree)

end TableStore.BTree
