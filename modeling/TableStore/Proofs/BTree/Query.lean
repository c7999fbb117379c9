import TableStore.Proofs.BTree.Insert

namespace TableStore.BTree

theorem Ascending.exists_copy {keys : List Int64} (h : Ascending keys) {key : Int64}
    (hmem : key ∈ keys) :
    ∃ front rest, keys = front ++ key :: rest ∧ boundary (· < key) keys = front.length ∧
      key ∉ front := by
  obtain ⟨front, back, rfl, hb, hf, hback⟩ := h.exists_boundary (downward_lt key)
  have hfront : key ∉ front := fun hkey ↦
    absurd (of_decide_eq_true (hf key hkey)) Int64.lt_irrefl
  have hmem : key ∈ back := (List.mem_append.mp hmem).resolve_left hfront
  obtain ⟨first, rest, rfl⟩ := List.exists_cons_of_ne_nil (List.ne_nil_of_mem hmem)
  have hle : key ≤ first := Int64.not_lt.mp (of_decide_eq_false (hback first (by simp)))
  rcases List.mem_cons.mp hmem with rfl | hmem
  · exact ⟨front, rest, rfl, hb, hfront⟩
  · have hge := (List.pairwise_cons.mp (List.pairwise_append.mp h).2.1).1 key hmem
    rw [← Int64.le_antisymm hle hge] at hb ⊢
    exact ⟨front, rest, rfl, hb, hfront⟩

theorem Ascending.getElem?_boundary {keys : List Int64} (h : Ascending keys) (key : Int64) :
    keys[boundary (· < key) keys]? = some key ↔ key ∈ keys := by
  refine ⟨fun hget ↦ List.mem_of_getElem? hget, fun hmem ↦ ?_⟩
  obtain ⟨front, rest, hkeys, hb, -⟩ := h.exists_copy hmem
  rw [hb, hkeys]
  simp

theorem Ascending.eraseIdx_boundary {keys : List Int64} (h : Ascending keys) {key : Int64}
    (hmem : key ∈ keys) : keys.eraseIdx (boundary (· < key) keys) = keys.erase key := by
  obtain ⟨front, rest, hkeys, hb, hfront⟩ := h.exists_copy hmem
  rw [hb, hkeys, List.eraseIdx_append_of_length_le (Nat.le_refl _),
    List.erase_append_right _ hfront]
  simp

namespace Node

variable {degree depth : Nat} {node child : Node} {front back : List Node} {keys keys' : List Int64}

theorem Parts.mem_child {key : Int64}
    (h : Parts (fun other ↦ decide (other < key)) front child back)
    (hd : 2 ≤ degree) (hsound : Sound degree depth child)
    (hasc : Ascending (leafKeysAll (front ++ child :: back)))
    (hmem : key ∈ leafKeysAll (front ++ child :: back)) : key ∈ child.leafKeys := by
  rw [leafKeysAll_append, leafKeysAll_cons] at hmem hasc
  rcases List.mem_append.mp hmem with hmem | hmem
  · exact absurd (of_decide_eq_true (h.left key hmem)) Int64.lt_irrefl
  rcases List.mem_append.mp hmem with hmem | hmem
  · exact hmem
  · obtain ⟨last, hmax, hlast⟩ := h.last fun hback ↦ by simp [hback] at hmem
    have hlast' := ((hsound.maxKey?_eq_some_iff hd).mp hmax).1
    have hle :=
      (List.pairwise_append.mp (List.pairwise_append.mp hasc).2.1).2.2 last hlast' key hmem
    have hge : key ≤ last := Int64.not_lt.mp (of_decide_eq_false hlast)
    rwa [Int64.le_antisymm hge hle]

theorem Sound.find? (h : Sound degree depth node) (hd : 2 ≤ degree) (key : Int64) :
    ∃ found, node.find? key depth = .ok found ∧ (found.isSome = true ↔ key ∈ node.leafKeys) ∧
      ∀ holder ∈ found, key ∈ holder.keys := by
  induction depth generalizing node with
  | zero =>
    have hget := (h.keys_ascending hd).getElem?_boundary key
    have hleaf : node.leafKeys = node.keys := by
      obtain ⟨keys, children, isLeaf⟩ := node
      obtain ⟨rfl, -⟩ := h
      rfl
    rw [Node.find?, hleaf]
    by_cases hkey : key ∈ node.keys
    · exact ⟨some node, by simp [hget.mpr hkey], by simp [hkey], by simp [hkey]⟩
    · exact ⟨none, by simp [mt hget.mp hkey, h.1], by simp [hkey], by simp⟩
  | succ depth ih =>
    have hget := (h.keys_ascending hd).getElem?_boundary key
    rw [Node.find?]
    by_cases hkey : key ∈ node.keys
    · exact ⟨some node, by simp [hget.mpr hkey], by simp [(h.keys_sublist hd).subset hkey],
        by simp [hkey]⟩
    · obtain ⟨keys, keys', front, child, back, rfl, hk, hb, hparts⟩ := h.route hd (downward_lt key)
      obtain ⟨hbelow, -, hasc⟩ := (sound_slot_iff hk).mp h
      have hchild := (hbelow child (by simp)).1
      obtain ⟨found, hfind, hiff, hholder⟩ := ih hchild
      refine ⟨found, ?_, hiff.trans ⟨fun hmem ↦ ?_, hparts.mem_child hd hchild hasc⟩, hholder⟩
      · simp only [mt hget.mp hkey, if_false]
        simp [hb, hfind]
      · simp [hmem]

theorem keysWithinAll_eq_filter {low high : Int64} (hd : 2 ≤ degree) {keys : List Int64}
    {children : List Node}
    (hbelow : ∀ child ∈ children, Sound degree depth child ∧ child.Filled degree)
    (hsep : keys.map some = children.dropLast.map maxKey?) (hasc : Ascending (leafKeysAll children))
    (hall : ∀ child ∈ children,
      child.keysWithin low high = child.leafKeys.filter fun key ↦ low ≤ key && key ≤ high) :
    keysWithinAll low high keys children =
      (leafKeysAll children).filter fun key ↦ low ≤ key && key ≤ high := by
  induction children generalizing keys with
  | nil => simp [keysWithinAll]
  | cons child rest ih =>
    rw [leafKeysAll_cons] at hasc
    obtain ⟨-, hasc', hcross⟩ := List.pairwise_append.mp hasc
    have hrest := fun keys (hsep : keys.map some = rest.dropLast.map maxKey?) ↦
      @ih keys (fun other hother ↦ hbelow other (by simp [hother])) hsep hasc'
        fun other hother ↦ hall other (by simp [hother])
    have hself := hall child (by simp)
    have hchild := (hbelow child (by simp)).1
    cases rest with
    | nil =>
      obtain rfl : keys = [] := by simpa using hsep
      simp [keysWithinAll, hself]
    | cons next rest =>
      cases keys with
      | nil => simp at hsep
      | cons separator keys =>
        simp only [List.dropLast_cons_cons, List.map_cons, List.cons.injEq] at hsep
        have hmax := (hchild.maxKey?_eq_some_iff hd).mp hsep.1.symm
        have hrest := hrest keys hsep.2
        rw [keysWithinAll, leafKeysAll_cons, List.filter_append, ← hself]
        by_cases hlow : separator < low
        · have hnone : child.keysWithin low high = [] := by
            rw [hself, List.filter_eq_nil_iff]
            intro key hkey hin
            simp only [Bool.and_eq_true, decide_eq_true_eq] at hin
            exact absurd (Int64.lt_of_lt_of_le hlow (Int64.le_trans hin.1 (hmax.2 key hkey)))
              Int64.lt_irrefl
          rw [if_pos hlow, hnone, List.nil_append, hrest]
        · rw [if_neg hlow]
          congr 1
          by_cases hhigh : high < separator
          · rw [if_pos hhigh, eq_comm, List.filter_eq_nil_iff]
            intro key hkey hin
            simp only [Bool.and_eq_true, decide_eq_true_eq] at hin
            have hle := hcross separator hmax.1 key hkey
            exact absurd (Int64.lt_of_lt_of_le hhigh (Int64.le_trans hle hin.2)) Int64.lt_irrefl
          · rw [if_neg hhigh, hrest]

/-- Passing over children by their separators leaves out no key within the bounds. -/
theorem Sound.keysWithin_eq_filter (h : Sound degree depth node) (hd : 2 ≤ degree)
    (low high : Int64) :
    node.keysWithin low high = node.leafKeys.filter fun key ↦ low ≤ key && key ≤ high := by
  induction depth generalizing node with
  | zero =>
    obtain ⟨keys, children, isLeaf⟩ := node
    obtain ⟨rfl, -⟩ := sound_leaf_iff.mp h
    rfl
  | succ depth ih =>
    obtain ⟨keys, children, isLeaf⟩ := node
    obtain ⟨rfl, hbelow, hsep, hasc⟩ := sound_inner_iff.mp h
    exact keysWithinAll_eq_filter hd hbelow hsep.2 hasc fun child hc ↦ ih (hbelow child hc).1

end Node

variable {tree : BTree}

theorem Sound.search (h : tree.Sound) (key : Int64) :
    ∃ found, tree.search key = .ok found ∧ (found.isSome = true ↔ key ∈ tree.keys) ∧
      ∀ holder ∈ found, key ∈ holder.keys := by
  obtain ⟨depth, hroot⟩ := h.root
  rw [BTree.search, hroot.height_eq]
  exact hroot.find? h.degree.1 key

theorem Sound.contains (h : tree.Sound) (key : Int64) :
    tree.contains key = .ok (decide (key ∈ tree.keys)) := by
  obtain ⟨found, hsearch, hiff, -⟩ := h.search key
  rw [BTree.contains, hsearch, map_ok]
  congr 1
  rw [Bool.eq_iff_iff, hiff, decide_eq_true_eq]

theorem Sound.range_eq_filter (h : tree.Sound) (low high : Int64) :
    tree.range low high = tree.keys.filter fun key ↦ low ≤ key && key ≤ high := by
  obtain ⟨depth, hroot⟩ := h.root
  rw [BTree.range]
  split
  · exact hroot.keysWithin_eq_filter h.degree.1 low high
  · rename_i hlt
    rw [eq_comm, List.filter_eq_nil_iff]
    intro key _ hin
    simp only [Bool.and_eq_true, decide_eq_true_eq] at hin
    exact hlt (Int64.le_trans hin.1 hin.2)

end TableStore.BTree
