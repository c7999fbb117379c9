import TableStore.Proofs.BTree.Edits

namespace TableStore.BTree

namespace Node

/-- Some leaf is so many steps below the top. -/
inductive LeafAt : Node → Nat → Prop
  | leaf (keys : List Int64) (children : List Node) : LeafAt ⟨keys, children, true⟩ 0
  | inner {keys : List Int64} {children : List Node} {child : Node} {depth : Nat}
    (hchild : child ∈ children) (h : LeafAt child depth) :
    LeafAt ⟨keys, children, false⟩ (depth + 1)

variable {degree depth : Nat} {node : Node}

theorem Sound.leafAt_iff (h : Sound degree depth node) {steps : Nat} :
    node.LeafAt steps ↔ steps = depth := by
  induction depth generalizing node steps with
  | zero =>
    obtain ⟨keys, children, isLeaf⟩ := node
    obtain ⟨rfl, -, -⟩ := sound_leaf_iff.mp h
    constructor
    · rintro ⟨⟩
      rfl
    · rintro rfl
      exact .leaf keys children
  | succ depth ih =>
    obtain ⟨keys, children, isLeaf⟩ := node
    obtain ⟨rfl, hbelow, hsep, -⟩ := sound_inner_iff.mp h
    constructor
    · rintro (_ | ⟨hchild, hleaf⟩)
      rw [(ih (hbelow _ hchild).1).mp hleaf]
    · rintro rfl
      obtain ⟨child, hchild⟩ := List.exists_mem_of_ne_nil children hsep.1
      exact .inner hchild ((ih (hbelow child hchild).1).mpr rfl)

theorem leastSize_eq (hd : 1 ≤ degree) (depth : Nat) :
    leastSize degree depth (degree - 1) = (degree - 1) * Nat.pow degree depth := by
  induction depth with
  | zero => exact (Nat.mul_one _).symm
  | succ depth ih =>
    have hpow : Nat.pow degree (depth + 1) = Nat.pow degree depth * degree := rfl
    rw [leastSize, ih, Nat.sub_add_cancel hd, hpow, Nat.mul_comm degree, Nat.mul_assoc]

end Node

variable {tree : BTree}

theorem Proper.le_size (h : tree.Proper) {depth : Nat}
    (hroot : tree.root.Sound tree.degree (depth + 1)) :
    2 * (tree.degree - 1) * Nat.pow tree.degree depth ≤ tree.size := by
  have hd : 1 ≤ tree.degree := Nat.le_of_succ_le h.degree.1
  have hkeys : 2 ≤ tree.root.keys.length + 1 := Nat.succ_le_succ (h.separated hroot.1)
  calc 2 * (tree.degree - 1) * Nat.pow tree.degree depth
      = 2 * Node.leastSize tree.degree depth (tree.degree - 1) := by
        rw [Node.leastSize_eq hd, Nat.mul_assoc]
    _ ≤ (tree.root.keys.length + 1) * Node.leastSize tree.degree depth (tree.degree - 1) :=
        Nat.mul_le_mul_right _ hkeys
    _ ≤ tree.size := hroot.leastSize_le

theorem Proper.isEmpty_iff (h : tree.Proper) : tree.isEmpty = true ↔ tree.size = 0 := by
  obtain ⟨depth, hroot⟩ := h.root
  rw [isEmpty, List.isEmpty_iff, size, List.length_eq_zero_iff]
  cases depth with
  | zero =>
    obtain ⟨degree, keys, children, isLeaf⟩ := tree
    obtain ⟨rfl, -, -⟩ := Node.sound_leaf_iff.mp hroot
    exact Iff.rfl
  | succ depth =>
    have hpos := h.separated hroot.1
    have hkeys := hroot.leafKeys_ne_nil h.degree.1 hpos
    exact ⟨fun hnil ↦ absurd hnil (List.length_pos_iff.mp hpos), fun hnil ↦ absurd hnil hkeys⟩

namespace Edit

/-- However an empty tree is changed, its leaves are all at one depth, to which the tree grows only with
its keys. It is told to be empty by the keys of its root. -/
theorem run_height {degree : Nat} (hd : 2 ≤ degree ∧ degree ≤ maxDegree) (edits : List Edit) :
    ∃ tree, run degree edits = .ok tree ∧
      (∀ depth, tree.root.LeafAt depth ↔ depth = tree.root.height) ∧
      (1 ≤ tree.root.height →
        2 * (degree - 1) * Nat.pow degree (tree.root.height - 1) ≤ tree.size) ∧
      (tree.isEmpty = true ↔ tree.size = 0) := by
  obtain ⟨tree, hrun, rfl, -, hproper, -, -⟩ := run_eq_ok hd edits
  obtain ⟨depth, hroot⟩ := hproper.root
  refine ⟨tree, hrun, fun steps ↦ ?_, fun hhigh ↦ ?_, hproper.isEmpty_iff⟩
  · rw [hroot.leafAt_iff, hroot.height_eq]
  · rw [hroot.height_eq] at hhigh ⊢
    obtain ⟨below, rfl⟩ := Nat.exists_eq_add_of_le' hhigh
    exact hproper.le_size hroot

/-- Ten keys come, and no level is lost as four of them go again. -/
def thinned : List Edit :=
  [.insert 1, .insert 2, .insert 3, .insert 4, .insert 5, .insert 6, .insert 7, .insert 8,
    .insert 9, .insert 10, .erase 9, .erase 7, .erase 5, .erase 6]

theorem run_height_thinned :
    (2 ≤ 2 ∧ 2 ≤ maxDegree) ∧ ∃ tree, run 2 thinned = .ok tree ∧ tree.root.height = 2 ∧
      (∀ depth, tree.root.LeafAt depth ↔ depth = 2) ∧
      2 * (2 - 1) * Nat.pow 2 (2 - 1) ≤ tree.size ∧ (tree.isEmpty = true ↔ tree.size = 0) := by
  have hd : 2 ≤ 2 ∧ 2 ≤ maxDegree := by decide
  have hheight : (run 2 thinned).toOption.map (fun tree ↦ tree.root.height) = some 2 := by
    decide +kernel
  obtain ⟨tree, hrun, hleaves, hsize, hempty⟩ := run_height hd thinned
  have htwo : tree.root.height = 2 := by
    rw [hrun] at hheight
    exact Option.some.inj hheight
  rw [htwo] at hleaves hsize
  exact ⟨hd, tree, hrun, htwo, hleaves, hsize (by decide), hempty⟩

end Edit

end TableStore.BTree
