namespace TableStore

namespace BTree

/-- A node of a tree. A leaf has no children; another node has one child more than keys. -/
structure Node where
  keys : List Int64
  children : List Node
  isLeaf : Bool

namespace Node

def leaf (keys : List Int64) : Node := ⟨keys, [], true⟩

mutual

def decEq : (m n : Node) → Decidable (m = n)
  | ⟨keys, children, isLeaf⟩, ⟨keys', children', isLeaf'⟩ =>
    if hk : keys = keys' then
      if hl : isLeaf = isLeaf' then
        match decEqAll children children' with
        | .isTrue hc => .isTrue (by rw [hk, hl, hc])
        | .isFalse hc => .isFalse fun h ↦ hc (Node.mk.inj h).2.1
      else .isFalse fun h ↦ hl (Node.mk.inj h).2.2
    else .isFalse fun h ↦ hk (Node.mk.inj h).1

def decEqAll : (ms ns : List Node) → Decidable (ms = ns)
  | [], [] => .isTrue rfl
  | [], _ :: _ => .isFalse nofun
  | _ :: _, [] => .isFalse nofun
  | m :: ms, n :: ns =>
    match decEq m n with
    | .isFalse h => .isFalse fun e ↦ h (List.cons.inj e).1
    | .isTrue h =>
      match decEqAll ms ns with
      | .isTrue hs => .isTrue (by rw [h, hs])
      | .isFalse hs => .isFalse fun e ↦ hs (List.cons.inj e).2

end

instance : DecidableEq Node := decEq

mutual

def height : Node → Nat
  | ⟨_, children, _⟩ => heightBelow children

def heightBelow : List Node → Nat
  | [] => 0
  | child :: rest => max (child.height + 1) (heightBelow rest)

end

mutual

def maxKey? : Node → Option Int64
  | ⟨keys, children, isLeaf⟩ => if isLeaf then keys.getLast? else lastMaxKey? children

def lastMaxKey? : List Node → Option Int64
  | [] => none
  | [node] => node.maxKey?
  | _ :: rest => lastMaxKey? rest

end

mutual

def leafKeys : Node → List Int64
  | ⟨keys, children, isLeaf⟩ => if isLeaf then keys else leafKeysAll children

def leafKeysAll : List Node → List Int64
  | [] => []
  | node :: rest => node.leafKeys ++ leafKeysAll rest

end

end Node

/-- What an operation on a tree relies on and does not find: a child or a key of a node, a degree
that trees may have, or a capacity of nodes that a machine word can hold. -/
inductive Fault
  | missingChild
  | missingKey
  | degree
  | capacity
  deriving DecidableEq

def Fault.message : Fault → String
  | .missingChild => "B-tree node has no such child"
  | .missingKey => "B-tree node has no such key"
  | .degree => "B-tree minimum degree must be within 2..=65536"
  | .capacity => "B-tree nodes have no capacity"

def Node.child (node : Node) (i : Nat) : Except Fault Node :=
  match node.children[i]? with
  | some child => .ok child
  | none => .error .missingChild

def Node.key (node : Node) (i : Nat) : Except Fault Int64 :=
  match node.keys[i]? with
  | some key => .ok key
  | none => .error .missingKey

/-- The place at which `test` stops holding, found by halving. Where the keys that pass the test
come first this is their number. -/
def boundary (test : Int64 → Bool) (keys : List Int64) : Nat := go keys.length keys
where
  go : Nat → List Int64 → Nat
    | _, [] => 0
    | _, [key] => if test key then 1 else 0
    | 0, _ => 0
    | fuel + 1, keys =>
      let half := keys.length / 2
      if (keys[half]?).any test then half + go fuel (keys.drop half)
      else go fuel (keys.take (keys.length - half))

def maxDegree : Nat := 65536

end BTree

/-- A tree whose nodes, the root apart, hold from `degree - 1` to `2 * degree - 1` keys. The leaves
hold all keys of the tree; the keys of other nodes separate their children. -/
structure BTree where
  degree : Nat
  root : BTree.Node
  deriving DecidableEq

namespace BTree

def empty (degree : Nat) : Except Fault BTree :=
  if 2 ≤ degree ∧ degree ≤ maxDegree then .ok ⟨degree, .leaf []⟩ else .error .degree

def isEmpty (tree : BTree) : Bool := tree.root.keys.isEmpty

def keys (tree : BTree) : List Int64 := tree.root.leafKeys

def size (tree : BTree) : Nat := tree.keys.length

end BTree

end TableStore
