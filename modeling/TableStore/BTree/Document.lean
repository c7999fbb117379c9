import TableStore.BTree.Check
import TableStore.Json.Decode
import TableStore.Json.Writer

namespace TableStore.BTree

open Json (Tree)

namespace Node

def keyJson (key : Int64) : Json := .scalar (.number (.integer key.toInt))

mutual

def toJson : Node → Json
  | ⟨keys, children, isLeaf⟩ =>
    .object [("Keys", .array (keys.map keyJson)), ("Children", .array (toJsonAll children)),
      ("IsLeaf", .scalar (.bool isLeaf))]

def toJsonAll : List Node → List Json
  | [] => []
  | node :: rest => node.toJson :: toJsonAll rest

end

/-- A node within `depth` levels of arrays and objects, of which it takes two for itself. -/
def ofTree? : Nat → Tree → Option Node
  | depth + 2, tree => do
    match ← tree.fields? ["Keys", "Children", "IsLeaf"] with
    | [keys, children, isLeaf] =>
      let keys ← Tree.required Tree.items? keys
      let keys ← keys.mapM Tree.int64?
      let children ← Tree.required Tree.items? children
      let children ← children.mapM fun child ↦ ofTree? depth child
      let isLeaf ← Tree.required Tree.bool? isLeaf
      return ⟨keys, children, isLeaf⟩
    | _ => none
  | _, _ => none

end Node

def toJson (tree : BTree) : Json :=
  .object [("Degree", .scalar (.number (.integer tree.degree))), ("Root", tree.root.toJson)]

def text (tree : BTree) : String := tree.toJson.prettyText

def ofTree? (tree : Tree) : Option BTree := do
  match ← tree.fields? ["Degree", "Root"] with
  | [degree, root] =>
    let degree ← Tree.required Tree.word? degree
    let root ← Tree.required (Node.ofTree? (Json.maxDepth - 1)) root
    return ⟨degree, root⟩
  | _ => none

def ofText? (text : String) : Option BTree := do ofTree? (← Tree.ofText? text)

end TableStore.BTree
