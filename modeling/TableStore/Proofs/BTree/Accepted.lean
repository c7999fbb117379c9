import TableStore.Proofs.BTree.Document
import TableStore.Proofs.BTree.Edits

namespace TableStore.BTree

variable {tree : BTree}

/-- The leaf keys of an accepted tree are in order and answer all questions. Every holder that a search
ends at has the key, whether it is a leaf or a node above, and a range has each copy of its keys. -/
theorem queries_of_check_eq_ok (hcheck : tree.check = .ok ()) :
    Ascending tree.keys ∧
    (∀ key, tree.contains key = .ok (decide (key ∈ tree.keys)) ∧
      ∃ found, tree.search key = .ok found ∧ ∀ holder ∈ found, key ∈ holder.keys) ∧
    ∀ low high, tree.range low high = (tree.keys.filter fun key ↦ low ≤ key && key ≤ high) ∧
      (high < low → tree.range low high = []) := by
  have h := sound_of_check_eq_ok hcheck
  obtain ⟨depth, hroot⟩ := h.root
  refine ⟨hroot.ascending, fun key ↦ ⟨h.contains key, ?_⟩, fun low high ↦
    ⟨h.range_eq_filter low high, fun hlt ↦ if_neg (Int64.not_le.mpr hlt)⟩⟩
  obtain ⟨found, hsearch, -, hholders⟩ := h.search key
  exact ⟨found, hsearch, hholders⟩

theorem queries_of_check_eq_ok_run :
    (⟨2, ⟨[3, 3], [.leaf [1, 3], .leaf [3], .leaf [3, 5]], false⟩⟩ : BTree).check = .ok () ∧
      (⟨2, ⟨[3, 3], [.leaf [1, 3], .leaf [3], .leaf [3, 5]], false⟩⟩ : BTree).range 2 3 =
        ([1, 3, 3, 3, 5] : List Int64).filter fun key ↦ 2 ≤ key && key ≤ 3 := by
  have hcheck :
      (⟨2, ⟨[3, 3], [.leaf [1, 3], .leaf [3], .leaf [3, 5]], false⟩⟩ : BTree).check = .ok () := rfl
  obtain ⟨-, -, hrange⟩ := queries_of_check_eq_ok hcheck
  exact ⟨hcheck, (hrange 2 3).1⟩

theorem Sound.exists_only_child (h : tree.Sound) (hwant : ¬tree.root.Fillable tree.degree) :
    ∃ child depth, tree.root = ⟨[], [child], false⟩ ∧ child.Sound tree.degree depth ∧
      child.Filled tree.degree ∧ child.keys.length < tree.degree := by
  obtain ⟨depth, hroot⟩ := h.root
  generalize tree.root = root at hroot hwant
  obtain ⟨keys, children, isLeaf⟩ := root
  rw [Node.Fillable, not_or] at hwant
  obtain rfl : keys = [] := List.length_eq_zero_iff.mp (Nat.eq_zero_of_not_pos hwant.1)
  cases depth with
  | zero =>
    obtain ⟨rfl, rfl, -⟩ := Node.sound_leaf_iff.mp hroot
    simp at hwant
  | succ depth =>
    obtain ⟨rfl, hbelow, hsep, -⟩ := Node.sound_inner_iff.mp hroot
    obtain ⟨child, rfl⟩ := List.length_eq_one_iff.mp hsep.length
    obtain ⟨hchild, hfilled⟩ := hbelow child (by simp)
    exact ⟨child, depth, rfl, hchild, hfilled, by simpa using hwant.2⟩

theorem Sound.keys_ne_nil_of_not_fillable (h : tree.Sound)
    (hwant : ¬tree.root.Fillable tree.degree) : tree.keys ≠ [] := by
  obtain ⟨child, depth, hroot, hchild, hfilled, -⟩ := h.exists_only_child hwant
  have hne := hchild.leafKeys_ne_nil h.degree.1 (hfilled.keys_pos h.degree.1)
  simpa [BTree.keys, hroot] using hne

/-- Where a child of the root is in want, no key can be taken away. -/
theorem Sound.erase_of_not_fillable (h : tree.Sound) (hwant : ¬tree.root.Fillable tree.degree)
    {key : Int64} (hmem : key ∈ tree.keys) : tree.erase key = .error .missingKey := by
  obtain ⟨child, depth, hroot, hchild, -, hpoor⟩ := h.exists_only_child hwant
  have htop : tree.root.topUp tree.degree 0 = .error .missingKey := by
    simp [hroot, Node.topUp, Node.child, hpoor, Node.fill.eq_def]
  have hbelow : tree.root.eraseBelow tree.degree key (depth + 1) = .error .missingKey := by
    rw [hroot] at htop
    rw [hroot, Node.eraseBelow]
    simp [boundary, boundary.go, htop]
  have hheight : tree.root.height = depth + 1 := by
    simp [hroot, Node.height, Node.heightBelow, hchild.height_eq]
  simp [BTree.erase, h.contains key, hmem, hheight, hbelow]

namespace Edit

theorem apply_sound (h : tree.Sound) (hfillable : tree.root.Fillable tree.degree)
    {keys : List Int64} (hkeys : tree.keys.Perm keys) (edit : Edit) :
    ∃ tree', apply tree edit = .ok tree' ∧ tree'.Sound ∧ tree'.root.Fillable tree'.degree ∧
      tree'.keys.Perm (edit.count keys) := by
  cases edit with
  | insert key =>
    obtain ⟨tree', hinsert, -, hsound, hperm, -⟩ := h.insert key
    exact ⟨tree', hinsert, hsound, h.insert_fillable hfillable hinsert, hperm.trans (hkeys.cons key)⟩
  | erase key =>
    obtain ⟨tree', herase, -, hsound, hsame, -⟩ := h.erase hfillable key
    exact ⟨tree', herase, hsound, h.erase_fillable hfillable herase, hsame ▸ hkeys.erase key⟩

theorem foldlM_sound (edits : List Edit) (h : tree.Sound)
    (hfillable : tree.root.Fillable tree.degree) {keys : List Int64}
    (hkeys : tree.keys.Perm keys) :
    ∃ tree', edits.foldlM apply tree = .ok tree' ∧ tree'.Sound ∧
      tree'.keys.Perm (edits.foldl count keys) := by
  induction edits generalizing tree keys with
  | nil => exact ⟨tree, rfl, h, hkeys⟩
  | cons edit edits ih =>
    obtain ⟨tree₁, happly, hsound, hfillable', hperm⟩ := apply_sound h hfillable hkeys edit
    obtain ⟨tree₂, hrest, hsound', hperm'⟩ := ih hsound hfillable' hperm
    exact ⟨tree₂, by simp [happly, hrest], hsound', hperm'⟩

/-- An accepted tree can be changed in every way if no child of its root is in want. Otherwise it
has keys and gives none of them up. -/
theorem foldlM_accepted (hcheck : tree.check = .ok ()) :
    (tree.root.Fillable tree.degree → ∀ edits : List Edit,
      ∃ tree', edits.foldlM apply tree = .ok tree' ∧ tree'.check = .ok () ∧
        tree'.keys = sorted (edits.foldl count tree.keys)) ∧
    (¬tree.root.Fillable tree.degree →
      tree.keys ≠ [] ∧ ∀ key ∈ tree.keys, tree.erase key = .error .missingKey) := by
  have h := sound_of_check_eq_ok hcheck
  refine ⟨fun hfillable edits ↦ ?_, fun hwant ↦ ?_⟩
  · obtain ⟨tree', hfold, hsound, hperm⟩ := foldlM_sound edits h hfillable (List.Perm.refl _)
    exact ⟨tree', hfold, hsound.check_eq_ok, hsound.ascending.eq_sorted hperm⟩
  · exact ⟨h.keys_ne_nil_of_not_fillable hwant, fun key ↦ h.erase_of_not_fillable hwant⟩

theorem foldlM_accepted_spare :
    (⟨2, ⟨[], [.leaf [1, 2]], false⟩⟩ : BTree).check = .ok () ∧
      ∃ tree', [erase 1, erase 2].foldlM apply ⟨2, ⟨[], [.leaf [1, 2]], false⟩⟩ = .ok tree' ∧
        tree'.check = .ok () ∧ tree'.keys = sorted [] := by
  have hcheck : (⟨2, ⟨[], [.leaf [1, 2]], false⟩⟩ : BTree).check = .ok () := rfl
  exact ⟨hcheck, (foldlM_accepted hcheck).1 (.inr (by decide)) [erase 1, erase 2]⟩

/-- A file can hold a tree that passes the check and cannot lose its only key. -/
theorem exists_accepted_erase_fails :
    ∃ tree, ofText? (text tree) = some tree ∧ tree.check = .ok () ∧ tree.keys = [1] ∧
      [erase 1].foldlM apply tree = .error .missingKey := by
  exact ⟨⟨2, ⟨[], [.leaf [1]], false⟩⟩, ofText?_text (by decide) (by decide), rfl, rfl, rfl⟩

end Edit

end TableStore.BTree
