import TableStore.BTree.Basic
import TableStore.Error
import TableStore.Json.Decode

namespace TableStore

structure Config where
  root : String := "data"
  indexDegree : Nat := 3
  deriving DecidableEq

namespace Config

open Json (Tree)

def ofTree? (tree : Tree) : Option Config := do
  match ← tree.fields? ["root", "index_degree"] with
  | [root, indexDegree] =>
    let root ← Tree.optional "data" Tree.string? root
    let indexDegree ← Tree.optional 3 Tree.word? indexDegree
    return { root, indexDegree }
  | _ => none

def ofText? (text : String) : Option Config := do ofTree? (← Tree.ofText? text)

def fault? (config : Config) : Option ConfigFault :=
  if config.indexDegree < 2 ∨ BTree.maxDegree < config.indexDegree then
    some (.indexDegree config.indexDegree)
  else if config.root = "" then some .emptyRoot
  else none

def rootPath (config : Config) : Path := .ofText config.root

end Config

end TableStore
