import TableStore.BTree.Document
import TableStore.Proofs.BTree.Insert
import TableStore.Proofs.TableDocument

namespace TableStore.BTree

open Json (Tree)

namespace Node

theorem toJsonAll_eq_map (children : List Node) : toJsonAll children = children.map toJson := by
  induction children with
  | nil => rfl
  | cons child rest ih => rw [toJsonAll, ih, List.map_cons]

theorem height_lt_of_mem {child : Node} {children : List Node} (h : child ∈ children) :
    child.height < heightBelow children := by
  induction children with
  | nil => cases h
  | cons other rest ih =>
    rw [heightBelow]
    rcases List.mem_cons.mp h with rfl | h
    · omega
    · have := ih h
      omega

theorem int64?_keyJson (key : Int64) : Tree.int64? (keyJson key).toTree = some key := by
  simp [Tree.int64?, Tree.integer?, keyJson, Json.toTree, Numeral.int64?_toInt]

theorem readable_keyJson (key : Int64) : (keyJson key).Readable :=
  .scalar (@Value.readable_encode (.int key) _ rfl)

theorem readable_toJson (node : Node) : node.toJson.Readable := by
  induction node using induct_children with
  | node keys children isLeaf ih =>
    refine .object fun member hmember ↦ ?_
    simp only [List.mem_cons, List.not_mem_nil, or_false] at hmember
    rcases hmember with rfl | rfl | rfl
    · refine .array fun item hitem ↦ ?_
      obtain ⟨key, -, rfl⟩ := List.mem_map.mp hitem
      exact readable_keyJson key
    · refine .array fun item hitem ↦ ?_
      rw [toJsonAll_eq_map] at hitem
      obtain ⟨child, hchild, rfl⟩ := List.mem_map.mp hitem
      exact ih child hchild
    · exact .scalar trivial

theorem ofTree?_toTree_succ (keys : List Int64) (children : List Node) (isLeaf : Bool)
    (depth : Nat) :
    ofTree? (depth + 2) (toJson ⟨keys, children, isLeaf⟩).toTree =
      (children.mapM fun child ↦ ofTree? depth child.toJson.toTree).map (⟨keys, ·, isLeaf⟩) := by
  have hkeys : keys.mapM (fun key ↦ Tree.int64? (keyJson key).toTree) = some keys :=
    mapM_some_self fun key _ ↦ int64?_keyJson key
  simp [ofTree?, toJson, Json.toTree, Json.toTreeMembers, Json.toTrees_eq_map, toJsonAll_eq_map,
    Tree.fields?, Tree.field?, Tree.required, Tree.bool?, Tree.items?, hkeys, Option.map_eq_bind,
    Function.comp_def]

/-- A node is read back if the reader may go deep enough: two levels for each step down. -/
theorem ofTree?_toTree (node : Node) {depth : Nat} (h : 2 * node.height + 2 ≤ depth) :
    ofTree? depth node.toJson.toTree = some node := by
  induction node using induct_children generalizing depth with
  | node keys children isLeaf ih =>
    obtain ⟨depth, rfl⟩ : ∃ d, depth = d + 2 := ⟨depth - 2, by omega⟩
    have hchildren : children.mapM (fun child ↦ ofTree? depth child.toJson.toTree) =
        some children := by
      refine mapM_some_self fun child hchild ↦ ih child hchild ?_
      have hlt := height_lt_of_mem hchild
      rw [height] at h
      omega
    rw [ofTree?_toTree_succ, hchildren, Option.map_some]

end Node

theorem readable_toJson {tree : BTree} (h : tree.degree < Numeral.wordLimit) :
    tree.toJson.Readable := by
  refine .object fun member hmember ↦ ?_
  simp only [List.mem_cons, List.not_mem_nil, or_false] at hmember
  rcases hmember with rfl | rfl
  · refine .scalar ⟨by omega, ?_⟩
    simp only [Numeral.wordLimit] at h ⊢
    omega
  · exact tree.root.readable_toJson

theorem ofText?_text {tree : BTree} (hdegree : tree.degree < Numeral.wordLimit)
    (hheight : tree.root.height ≤ 62) : ofText? tree.text = some tree := by
  obtain ⟨degree, root⟩ := tree
  have hroot : Node.ofTree? (Json.maxDepth - 1) root.toJson.toTree = some root :=
    root.ofTree?_toTree (by simp only [Json.maxDepth] at hheight ⊢; omega)
  rw [ofText?, text, (readable_toJson hdegree).ofText?_prettyText]
  simp [ofTree?, toJson, Json.toTree, Json.toTreeMembers, Tree.fields?, Tree.field?, Tree.required,
    Tree.word?, Tree.integer?, hroot]

theorem Node.two_pow_le_leastSize {degree : Nat} (hd : 2 ≤ degree) (depth : Nat) {keys : Nat}
    (hk : 1 ≤ keys) : Nat.pow 2 depth ≤ leastSize degree depth keys := by
  induction depth generalizing keys with
  | zero => exact hk
  | succ depth ih =>
    have hpow : Nat.pow 2 (depth + 1) = 2 * Nat.pow 2 depth := Nat.pow_succ'
    rw [leastSize, hpow]
    exact Nat.mul_le_mul (by omega) (ih (by omega))

/-- A tree with fewer keys than there are nonnegative words is never too deep for its file. -/
theorem Proper.height_le {tree : BTree} (h : tree.Proper)
    (hsize : tree.keys.length < Nat.pow 2 63) : tree.root.height ≤ 62 := by
  obtain ⟨depth, hroot⟩ := h.root
  rw [hroot.height_eq]
  cases hleaf : tree.root.isLeaf with
  | true =>
    rw [hroot.isLeaf_iff.mp hleaf]
    omega
  | false =>
    have hpow := Node.two_pow_le_leastSize h.degree.1 depth (h.separated hleaf)
    have hle := Nat.lt_of_le_of_lt (Nat.le_trans hpow hroot.leastSize_le) hsize
    have hlt := (Nat.pow_lt_pow_iff_right (by decide : 1 < 2)).mp hle
    omega

theorem Proper.degree_lt {tree : BTree} (h : tree.Proper) : tree.degree < Numeral.wordLimit := by
  have hdegree := h.degree.2
  simp only [maxDegree, Numeral.wordLimit] at hdegree ⊢
  omega

theorem Proper.ofText?_text {tree : BTree} (h : tree.Proper)
    (hsize : tree.keys.length < Nat.pow 2 63) : ofText? tree.text = some tree :=
  BTree.ofText?_text h.degree_lt (h.height_le hsize)

end TableStore.BTree
