import TableStore.BTree.Query

namespace TableStore.BTree

namespace Node

/-- Moves the last key of child `i - 1` to child `i`. Between inner nodes it moves through the
separator, and the last child goes with it. -/
def borrowLeft (i : Nat) (node : Node) : Except Fault Node := do
  let sibling ← node.child (i - 1)
  let child ← node.child i
  let separator ← node.key (i - 1)
  let last ← sibling.key (sibling.keys.length - 1)
  let rest := sibling.keys.dropLast
  if child.isLeaf then
    let newSeparator ← sibling.key (sibling.keys.length - 2)
    if rest = [] then throw .missingKey
    else
      return { node with
        keys := node.keys.set (i - 1) newSeparator
        children := (node.children.set (i - 1) { sibling with keys := rest }).set i
          { child with keys := last :: child.keys } }
  else
    let moved ← sibling.child (sibling.children.length - 1)
    return { node with
      keys := node.keys.set (i - 1) last
      children := (node.children.set (i - 1)
        { sibling with keys := rest, children := sibling.children.dropLast }).set i
        { child with keys := separator :: child.keys, children := moved :: child.children } }

/-- Moves the first key of child `i + 1` to child `i`. Between inner nodes it moves through the
separator, and the first child goes with it. -/
def borrowRight (i : Nat) (node : Node) : Except Fault Node := do
  let child ← node.child i
  let sibling ← node.child (i + 1)
  let separator ← node.key i
  let first ← sibling.key 0
  if child.isLeaf then
    return { node with
      keys := node.keys.set i first
      children := (node.children.set i { child with keys := child.keys ++ [first] }).set (i + 1)
        { sibling with keys := sibling.keys.drop 1 } }
  else
    let moved ← sibling.child 0
    return { node with
      keys := node.keys.set i first
      children := (node.children.set i
        { child with
          keys := child.keys ++ [separator]
          children := child.children ++ [moved] }).set (i + 1)
        { sibling with keys := sibling.keys.drop 1, children := sibling.children.drop 1 } }

/-- Joins child `i + 1` to child `i`. A leaf holds the separator between them already. -/
def merge (i : Nat) (node : Node) : Except Fault Node := do
  let child ← node.child i
  let sibling ← node.child (i + 1)
  let separator ← node.key i
  let middle := if child.isLeaf then [] else [separator]
  return { node with
    keys := node.keys.eraseIdx i
    children := (node.children.set i
      { child with
        keys := child.keys ++ middle ++ sibling.keys
        children := child.children ++ sibling.children }).eraseIdx (i + 1) }

def canLend (degree i : Nat) (node : Node) : Bool :=
  (node.children[i]?).any fun child ↦ degree ≤ child.keys.length

/-- Gives child `i` a key more, from a neighbour that can spare one or by joining it to a
neighbour. The answer tells which child then covers the keys of child `i`. -/
def fill (degree i : Nat) (node : Node) : Except Fault (Node × Nat) :=
  if i ≠ 0 ∧ node.canLend degree (i - 1) then (node.borrowLeft i).map (·, i)
  else if i < node.keys.length then
    if node.canLend degree (i + 1) then (node.borrowRight i).map (·, i)
    else (node.merge i).map (·, i)
  else
    match i with
    | 0 => .error .missingKey
    | i + 1 => (node.merge i).map (·, i)

def topUp (degree i : Nat) (node : Node) : Except Fault (Node × Nat) := do
  let child ← node.child i
  if child.keys.length < degree then node.fill degree i else return (node, i)

/-- Puts `child` in place `i`, with its last leaf key as the separator after it. -/
def replaceChild (node : Node) (i : Nat) (child : Node) : Node :=
  match child.maxKey? with
  | some key => { node with keys := node.keys.set i key, children := node.children.set i child }
  | none => { node with children := node.children.set i child }

/-- Removes one copy of a key below a node, and tells whether there was one. A child with few keys
is filled before the way down goes through it. -/
def eraseBelow (degree : Nat) (key : Int64) : Nat → Node → Except Fault (Node × Bool)
  | height, node =>
    let i := boundary (· < key) node.keys
    if node.isLeaf then
      if node.keys[i]? = some key then .ok ({ node with keys := node.keys.eraseIdx i }, true)
      else .ok (node, false)
    else match height with
      | 0 => .error .missingChild
      | height + 1 => do
        let (node, i) ← node.topUp degree i
        let (child, erased) ← eraseBelow degree key height (← node.child i)
        if erased then return (node.replaceChild i child, true)
        else return ({ node with children := node.children.set i child }, false)

end Node

def lowered (root : Node) : Node :=
  match root.keys, root.children with
  | [], [child] => child
  | _, _ => root

def erase (tree : BTree) (key : Int64) : Except Fault BTree := do
  if ← tree.contains key then
    let (root, _) ← tree.root.eraseBelow tree.degree key tree.root.height
    return { tree with root := lowered root }
  else return tree

end TableStore.BTree
