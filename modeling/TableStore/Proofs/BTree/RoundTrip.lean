import TableStore.Proofs.BTree.Document
import TableStore.Proofs.BTree.Edits

namespace TableStore.BTree

open Json (Tree)

namespace Node

theorem heightBelow_le {children : List Node} {bound : Nat}
    (h : ∀ child ∈ children, child.height + 1 ≤ bound) : heightBelow children ≤ bound := by
  induction children with
  | nil => exact Nat.zero_le bound
  | cons child rest ih =>
    rw [heightBelow]
    exact Nat.max_le.mpr ⟨h child List.mem_cons_self, ih fun c hc ↦ h c (List.mem_cons_of_mem _ hc)⟩

theorem le_of_ofTree?_eq_some {node found : Node} {depth : Nat}
    (h : ofTree? depth node.toJson.toTree = some found) : 2 * node.height + 2 ≤ depth := by
  induction node using induct_children generalizing depth found with
  | node keys children isLeaf ih =>
    match depth with
    | 0 => cases h
    | 1 => cases h
    | depth + 2 =>
      rw [ofTree?_toTree_succ] at h
      obtain ⟨read, hread, -⟩ := Option.map_eq_some_iff.mp h
      have hbelow : heightBelow children ≤ depth / 2 := by
        refine heightBelow_le fun child hchild ↦ ?_
        obtain ⟨_, hfound⟩ := exists_of_mem_of_mapM hread child hchild
        have hdepth := ih child hchild hfound
        omega
      rw [height]
      omega

end Node

theorem ofText?_text_eq {tree : BTree} (hdegree : tree.degree < Numeral.wordLimit) :
    ofText? tree.text = if tree.root.height ≤ 62 then some tree else none := by
  split
  · rename_i hheight
    exact ofText?_text hdegree hheight
  · rename_i hheight
    obtain ⟨degree, root⟩ := tree
    have hroot : Node.ofTree? (Json.maxDepth - 1) root.toJson.toTree = none := by
      rw [Option.eq_none_iff_forall_ne_some]
      intro found hfound
      have hdepth := Node.le_of_ofTree?_eq_some hfound
      simp only [Json.maxDepth] at hdepth hheight
      omega
    rw [ofText?, text, (readable_toJson hdegree).ofText?_prettyText]
    simp [ofTree?, toJson, Json.toTree, Json.toTreeMembers, Tree.fields?, Tree.field?,
      Tree.required, Tree.word?, Tree.integer?, hroot]

/-- A tree of whatever shape comes back from its index file as it was, unless it is deeper than the
reader goes. No tree that grows from an empty one by changes is so deep while its keys can be
counted. -/
theorem index_file_round_trip :
    (∀ tree : BTree, tree.degree < Numeral.wordLimit →
      ofText? tree.text = if tree.root.height ≤ 62 then some tree else none) ∧
    ∀ degree, 2 ≤ degree → degree ≤ maxDegree → ∀ edits, ∃ tree, Edit.run degree edits = .ok tree ∧
      (tree.keys.length < Nat.pow 2 63 → tree.root.height ≤ 62 ∧ ofText? tree.text = some tree) := by
  refine ⟨fun tree ↦ ofText?_text_eq, fun degree hleast hmost edits ↦ ?_⟩
  obtain ⟨start, hempty, hdegree, hproper, hkeys⟩ := empty_proper ⟨hleast, hmost⟩
  obtain ⟨tree, hfold, -, hproper', -⟩ :=
    Edit.foldlM_proper edits hproper (by simp [hkeys] : start.keys.Perm [])
  refine ⟨tree, by simp [Edit.run, hempty, hfold], fun hsize ↦ ?_⟩
  exact ⟨hproper'.height_le hsize, hproper'.ofText?_text hsize⟩

theorem index_file_round_trip_unordered :
    (ofText? (text ⟨0, ⟨[5, Int64.minValue], [.leaf [7]], true⟩⟩) =
      some ⟨0, ⟨[5, Int64.minValue], [.leaf [7]], true⟩⟩) ∧
    ∃ tree, Edit.run 2 [.insert 7, .insert 3, .erase 7] = .ok tree ∧
      tree.root.height ≤ 62 ∧ ofText? tree.text = some tree := by
  obtain ⟨hany, hgrown⟩ := index_file_round_trip
  obtain ⟨tree, hrun, hread⟩ :=
    hgrown 2 (by decide) (by decide) [.insert 7, .insert 3, .erase 7]
  have hleaf : Edit.run 2 [.insert 7, .insert 3, .erase 7] = .ok ⟨2, .leaf [3]⟩ := rfl
  obtain rfl := Except.ok.inj (hrun.symm.trans hleaf)
  exact ⟨hany _ (by decide), _, hleaf, hread (by decide)⟩

end TableStore.BTree
