import TableStore.BTree.Insert
import TableStore.Proofs.BTree.Route
import TableStore.Proofs.Result

namespace TableStore.BTree

namespace Node

section

variable {degree depth : Nat} {node child : Node} {front back : List Node} {keys keys' : List Int64}

theorem insertIdx_append {α : Type} (front : List α) (a : α) (back : List α) :
    (front ++ back).insertIdx front.length a = front ++ a :: back := by
  induction front with
  | nil => simp
  | cons b front ih => simp [ih]

theorem exists_middle {keys : List Int64} (hd : 1 ≤ degree) (hk : keys.length + 1 = 2 * degree) :
    ∃ front middle back, keys = front ++ middle :: back ∧ front.length = degree - 1 ∧
      back.length = degree - 1 := by
  have hlt : degree - 1 < keys.length := by omega
  refine ⟨keys.take (degree - 1), keys[degree - 1], keys.drop (degree - 1 + 1), ?_, ?_, ?_⟩
  · rw [List.getElem_cons_drop, List.take_append_drop]
  · rw [List.length_take]
    omega
  · rw [List.length_drop]
    omega

theorem Sound.halves (h : Sound degree depth node) (hd : 2 ≤ degree)
    (hfull : node.keys.length + 1 = 2 * degree) :
    ∃ left separator right, node.halves degree = .ok (left, separator, right) ∧
      Pair degree depth node.leafKeys left separator right ∧
        left.keys.length + 1 < 2 * degree ∧ right.keys.length + 1 < 2 * degree := by
  obtain ⟨keys, children, isLeaf⟩ := node
  obtain ⟨front, middle, back, rfl, hf, hb⟩ := exists_middle (by omega) hfull
  have hkey : (⟨front ++ middle :: back, children, isLeaf⟩ : Node).key (degree - 1) = .ok middle :=
    key_append hf middle back children isLeaf
  have hdrop : (front ++ middle :: back).drop degree = back := by
    rw [List.drop_append, List.drop_of_length_le (by omega),
      show degree - front.length = 1 by omega]
    rfl
  cases depth with
  | zero =>
    obtain ⟨rfl, rfl, hasc⟩ := sound_leaf_iff.mp h
    have htake : (front ++ middle :: back).take degree = front ++ [middle] := by
      rw [List.take_append, List.take_of_length_le (by omega),
        show degree - front.length = 1 by omega]
      rfl
    refine ⟨⟨front ++ [middle], [], true⟩, middle, leaf back, ?_, ?_, by simp; omega,
      by simp [leaf]; omega⟩
    · simp [Node.halves, hkey, hdrop, htake]
    · have hsplit : front ++ middle :: back = (front ++ [middle]) ++ back := by simp
      rw [hsplit] at hasc
      have hparts := List.pairwise_append.mp hasc
      exact {
        soundLeft := ⟨⟨rfl, rfl, hparts.1⟩, by simp [Filled]; omega⟩
        soundRight := ⟨⟨rfl, rfl, hparts.2.1⟩, by simp [Filled, leaf]; omega⟩
        separates := by simp [maxKey?]
        keeps := hsplit.symm }
  | succ depth =>
    obtain ⟨rfl, hbelow, hsep, hasc⟩ := sound_inner_iff.mp h
    have hlen := hsep.length
    simp only [List.length_append, List.length_cons] at hlen
    have htake : (front ++ middle :: back).take (degree - 1) = front := by
      rw [List.take_append, List.take_of_length_le (by omega),
        show degree - 1 - front.length = 0 by omega]
      simp
    have hchildren : ([] : List Node) ++ children.take degree ++ children.drop degree =
        children := by
      simp
    have hlenTake : (children.take degree).length = front.length + 1 := by
      rw [List.length_take]; omega
    rw [← hchildren] at hsep hasc
    obtain ⟨-, hleft, hright⟩ := (@separates_window _ _ _ [] _ _ rfl hlenTake).mp hsep
    obtain ⟨next, rest, hrest⟩ : ∃ next rest, children.drop degree = next :: rest :=
      List.exists_cons_of_ne_nil (List.length_pos_iff.mp (by rw [List.length_drop]; omega))
    rw [hrest] at hright
    simp only [List.map_cons, following, List.cons.injEq] at hright
    simp only [List.nil_append, leafKeysAll_append] at hasc
    have hparts := List.pairwise_append.mp hasc
    refine ⟨⟨front, children.take degree, false⟩, middle, ⟨back, children.drop degree, false⟩, ?_,
      ?_,
      by simp; omega, by simp; omega⟩
    · have hmany : ¬children.length < degree := by omega
      simp [Node.halves, hkey, hdrop, htake, hmany]
    · exact {
        soundLeft := ⟨⟨rfl, fun child hc ↦ hbelow child (List.mem_of_mem_take hc), hleft, hparts.1⟩,
          by simp [Filled]; omega⟩
        soundRight := ⟨⟨rfl, fun child hc ↦ hbelow child (List.mem_of_mem_drop hc),
          ⟨by simp [hrest], by rw [hrest]; exact hright.2⟩, hparts.2.1⟩, by simp [Filled]; omega⟩
        separates := by simp [maxKey?, hright.1]
        keeps := by simp [← leafKeysAll_append] }

theorem Sound.splitChild (hd : 2 ≤ degree) (hk : keys.length = front.length)
    (h : Sound degree (depth + 1) ⟨keys ++ keys', front ++ child :: back, false⟩)
    (hfull : child.keys.length + 1 = 2 * degree) :
    ∃ left separator right,
      (⟨keys ++ keys', front ++ child :: back, false⟩ : Node).splitChild degree front.length =
        .ok ⟨keys ++ separator :: keys', front ++ left :: right :: back, false⟩ ∧
      Pair degree depth child.leafKeys left separator right ∧
      (left.keys.length + 1 < 2 * degree ∧ right.keys.length + 1 < 2 * degree) ∧
      Sound degree (depth + 1)
        ⟨keys ++ separator :: keys', front ++ left :: right :: back, false⟩ := by
  have hchild : Sound degree depth child := h.child (by simp)
  obtain ⟨left, separator, right, hhalves, hpair, hroom⟩ := hchild.halves hd hfull
  refine ⟨left, separator, right, ?_, hpair, hroom, ?_⟩
  · have hkeys : (keys ++ keys').insertIdx front.length separator = keys ++ separator :: keys' := by
      rw [← hk, insertIdx_append]
    have hnodes : (front ++ left :: back).insertIdx (front.length + 1) right =
        front ++ left :: right :: back := by
      have h := insertIdx_append (front ++ [left]) right back
      simpa using h
    simp [Node.splitChild, hhalves, hkeys, hnodes]
  · have hnew := @Sound.replace degree depth front back keys keys' [child] _ [] _ hd hk rfl
      (by simpa using h) hpair.below (separates_two.mpr hpair.separates) (by simpa using hpair.keeps)
    simpa using hnew

/-- A place for a key between the leaf keys of the other children. The separator on its right, if
there is one, stays the greatest key on its left. -/
structure Place (key : Int64) (front : List Node) (child : Node) (back : List Node) : Prop where
  left : ∀ other ∈ leafKeysAll front, other ≤ key
  right : ∀ other ∈ leafKeysAll back, key ≤ other
  last : back ≠ [] → ∃ last, child.maxKey? = some last ∧ key ≤ last

theorem Parts.place {key : Int64} (h : Parts (fun other ↦ decide (other ≤ key)) front child back) :
    Place key front child back where
  left other hother := of_decide_eq_true (h.left other hother)
  right other hother := Int64.le_of_lt (Int64.not_le.mp (of_decide_eq_false (h.right other hother)))
  last hne := by
    obtain ⟨last, hmax, hlast⟩ := h.last hne
    exact ⟨last, hmax, Int64.le_of_lt (Int64.not_le.mp (of_decide_eq_false hlast))⟩

/-- A child with room at a place for the key, in a node that is sound and has the same leaf keys. -/
structure Roomy (degree depth : Nat) (key : Int64) (node node' : Node) (i : Nat) : Prop where
  sound : Sound degree (depth + 1) node'
  keeps : node'.leafKeys = node.leafKeys
  grows : node.keys.length ≤ node'.keys.length ∧ node'.keys.length ≤ node.keys.length + 1
  fillable : node.Fillable degree → node'.Fillable degree
  place : ∃ keys keys' front child back,
    node' = ⟨keys ++ keys', front ++ child :: back, false⟩ ∧ keys.length = front.length ∧
      front.length = i ∧ child.keys.length + 1 < 2 * degree ∧ Place key front child back

theorem Sound.makeRoom (h : Sound degree (depth + 1) node) (hd : 2 ≤ degree) (key : Int64) :
    ∃ node' i, node.makeRoom degree key (boundary (· ≤ key) node.keys) = .ok (node', i) ∧
      Roomy degree depth key node node' i := by
  obtain ⟨keys, keys', front, child, back, rfl, hk, hb, hparts⟩ := h.route hd (downward_le key)
  have hplace := hparts.place
  obtain ⟨hbelow, -, hasc⟩ := (sound_slot_iff hk).mp h
  have hchild := hbelow child (by simp)
  rw [hb]
  by_cases hfull : child.keys.length + 1 = 2 * degree
  · obtain ⟨left, separator, right, hsplit, hpair, hroom, hsound⟩ := h.splitChild hd hk hfull
    have hmax := (hpair.soundLeft.1.maxKey?_eq_some_iff hd).mp hpair.separates
    have hkeeps : leafKeys ⟨keys ++ separator :: keys', front ++ left :: right :: back, false⟩ =
        leafKeys ⟨keys ++ keys', front ++ child :: back, false⟩ := by
      simp [← hpair.keeps]
    have hgrows : (keys ++ keys').length ≤ (keys ++ separator :: keys').length ∧
        (keys ++ separator :: keys').length ≤ (keys ++ keys').length + 1 := by
      simp only [List.length_append, List.length_cons]
      omega
    have hfillable : Fillable degree
        ⟨keys ++ separator :: keys', front ++ left :: right :: back, false⟩ :=
      .inl (List.length_pos_iff.mpr (by simp))
    by_cases hlt : separator < key
    · refine ⟨_, front.length + 1, ?_, hsound, hkeeps, hgrows, fun _ ↦ hfillable, keys ++ [separator], keys',
        front ++ [left], right, back, by simp, by simp [hk], by simp, hroom.2, ?_⟩
      · simp [Node.makeRoom, isFull, hfull, hsplit, key_append hk, hlt]
      · refine ⟨fun other hother ↦ ?_, hplace.right, ?_⟩
        · rw [leafKeysAll_append, List.mem_append] at hother
          rcases hother with hother | hother
          · exact hplace.left other hother
          · exact Int64.le_trans (hmax.2 other (by simpa using hother)) (Int64.le_of_lt hlt)
        · rw [hpair.maxKey?_right hchild.1 hd]
          exact hplace.last
    · have hle := Int64.not_lt.mp hlt
      refine ⟨_, front.length, ?_, hsound, hkeeps, hgrows, fun _ ↦ hfillable, keys, separator :: keys',
        front, left, right :: back, rfl, hk, rfl, hroom.1, ?_⟩
      · simp [Node.makeRoom, isFull, hfull, hsplit, key_append hk, hlt]
      · refine ⟨hplace.left, fun other hother ↦ ?_, fun _ ↦ ⟨separator, hpair.separates, hle⟩⟩
        rw [leafKeysAll_cons, List.mem_append] at hother
        rcases hother with hother | hother
        · have hmid := hchild.1.ascending
          rw [← hpair.keeps] at hmid
          exact Int64.le_trans hle
            ((List.pairwise_append.mp hmid).2.2 separator hmax.1 other hother)
        · exact hplace.right other hother
  · refine ⟨_, front.length, ?_, h, rfl, by simp, id, keys, keys', front, child, back, rfl, hk, rfl,
      ?_, hplace⟩
    · simp [Node.makeRoom, isFull, hfull]
    · have hmost := hchild.2.2
      omega

theorem Sound.put {key : Int64} {child' : Node} (hd : 2 ≤ degree) (hk : keys.length = front.length)
    (h : Sound degree (depth + 1) ⟨keys ++ keys', front ++ child :: back, false⟩)
    (hplace : Place key front child back) (hsound : Sound degree depth child')
    (hfilled : child'.Filled degree) (hperm : child'.leafKeys.Perm (key :: child.leafKeys)) :
    Sound degree (depth + 1) ⟨keys ++ keys', front ++ child' :: back, false⟩ := by
  obtain ⟨hbelow, ⟨hfront, hback⟩, hasc⟩ := (sound_slot_iff hk).mp h
  have hmem : ∀ other, other ∈ child'.leafKeys ↔ other = key ∨ other ∈ child.leafKeys :=
    fun other ↦ by rw [hperm.mem_iff, List.mem_cons]
  refine (sound_slot_iff hk).mpr ⟨?_, ⟨hfront, ?_⟩, ?_⟩
  · intro other hother
    simp only [List.mem_append, List.mem_cons] at hother
    rcases hother with hother | rfl | hother
    · exact hbelow other (by simp [hother])
    · exact ⟨hsound, hfilled⟩
    · exact hbelow other (by simp [hother])
  · cases back with
    | nil => exact hback
    | cons next rest =>
      obtain ⟨last, hmax, hle⟩ := hplace.last (by simp)
      have hlast := ((hbelow child (by simp)).1.maxKey?_eq_some_iff hd).mp hmax
      have hmax' : child'.maxKey? = some last := by
        refine (hsound.maxKey?_eq_some_iff hd).mpr ⟨(hmem last).mpr (.inr hlast.1), ?_⟩
        intro other hother
        rcases (hmem other).mp hother with rfl | hother
        · exact hle
        · exact hlast.2 other hother
      rw [hmax', ← hmax]
      exact hback
  · simp only [leafKeysAll_append, leafKeysAll_cons, Ascending, List.pairwise_append,
      List.mem_append] at hasc ⊢
    obtain ⟨hleft, ⟨-, hright, hmid⟩, hcross⟩ := hasc
    refine ⟨hleft, ⟨hsound.ascending, hright, fun other hother k hk ↦ ?_⟩,
      fun k hk other hother ↦ ?_⟩
    · rcases (hmem other).mp hother with rfl | hother
      · exact hplace.right k hk
      · exact hmid other hother k hk
    · rcases hother with hother | hother
      · rcases (hmem other).mp hother with rfl | hother
        · exact hplace.left k hk
        · exact hcross k hk other (.inl hother)
      · exact hcross k hk other (.inr hother)

structure Inserted (degree depth : Nat) (key : Int64) (node node' : Node) : Prop where
  sound : Sound degree depth node'
  perm : node'.leafKeys.Perm (key :: node.leafKeys)
  grows : node.keys.length ≤ node'.keys.length ∧ node'.keys.length ≤ node.keys.length + 1
  fillable : node.Fillable degree → node'.Fillable degree

theorem Fillable.put {child' : Node} (h : Fillable degree ⟨keys, front ++ child :: back, false⟩)
    (hgrows : child.keys.length ≤ child'.keys.length) :
    Fillable degree ⟨keys, front ++ child' :: back, false⟩ := by
  refine h.imp_right fun hrich other hother ↦ ?_
  simp only [List.mem_append, List.mem_cons] at hother
  rcases hother with hother | rfl | hother
  · exact hrich other (by simp [hother])
  · exact Nat.le_trans (hrich child (by simp)) hgrows
  · exact hrich other (by simp [hother])

theorem Sound.insert_leaf (h : Sound degree 0 node) (key : Int64) :
    Inserted degree 0 key node
      { node with keys := node.keys.insertIdx (boundary (· ≤ key) node.keys) key } := by
  obtain ⟨keys, children, isLeaf⟩ := node
  obtain ⟨rfl, rfl, hasc⟩ := sound_leaf_iff.mp h
  obtain ⟨front, back, rfl, hb, hf, hb'⟩ := hasc.exists_boundary (downward_le key)
  have hright : ∀ other ∈ back, key ≤ other := fun other hother ↦
    Int64.le_of_lt (Int64.not_le.mp (of_decide_eq_false (hb' other hother)))
  simp only [hb, insertIdx_append]
  refine ⟨⟨rfl, rfl, ?_⟩, List.perm_middle, by simp; omega,
    fun _ ↦ .inl (List.length_pos_iff.mpr (by simp))⟩
  obtain ⟨hfront, hback, hcross⟩ := List.pairwise_append.mp hasc
  refine List.pairwise_append.mpr ⟨hfront, List.pairwise_cons.mpr ⟨hright, hback⟩, ?_⟩
  intro k hk other hother
  rcases List.mem_cons.mp hother with rfl | hother
  · exact of_decide_eq_true (hf k hk)
  · exact hcross k hk other hother

theorem Sound.insertBelow (h : Sound degree depth node) (hd : 2 ≤ degree) (key : Int64) :
    ∃ node', node.insertBelow degree key depth = .ok node' ∧
      Inserted degree depth key node node' := by
  induction depth generalizing node with
  | zero =>
    refine ⟨_, ?_, h.insert_leaf key⟩
    rw [Node.insertBelow]
    simp [h.1]
  | succ depth ih =>
    obtain ⟨node₁, i, hroom, hroomy⟩ := h.makeRoom hd key
    obtain ⟨keys, keys', front, child, back, rfl, hk, rfl, hless, hplace⟩ := hroomy.place
    obtain ⟨hbelow, -, -⟩ := (sound_slot_iff hk).mp hroomy.sound
    have hchild := hbelow child (by simp)
    obtain ⟨child', hinsert, hinserted⟩ := ih hchild.1
    have hfilled : child'.Filled degree := by
      have h₁ := hchild.2.1
      have h₂ := hinserted.grows
      constructor <;> omega
    refine ⟨⟨keys ++ keys', front ++ child' :: back, false⟩, ?_,
      hroomy.sound.put hd hk hplace hinserted.sound hfilled hinserted.perm, ?_, hroomy.grows,
      fun hfillable ↦ (hroomy.fillable hfillable).put hinserted.grows.1⟩
    · rw [Node.insertBelow]
      simp [h.1, hroom, hinsert]
    · rw [← hroomy.keeps]
      simp only [leafKeys_inner, leafKeysAll_append, leafKeysAll_cons]
      refine (((hinserted.perm.append_right _).append_left _)).trans ?_
      exact List.perm_middle

end

end Node

/-- A tree in order, whatever the number of keys in its root. -/
structure Sound (tree : BTree) : Prop where
  degree : 2 ≤ tree.degree ∧ tree.degree ≤ maxDegree
  root : ∃ depth, tree.root.Sound tree.degree depth

/-- A tree in order, with a root that is not too full and that has a key if it has children. -/
structure Proper (tree : BTree) : Prop extends tree.Sound where
  capacity : tree.root.keys.length ≤ 2 * tree.degree - 1
  separated : tree.root.isLeaf = false → 0 < tree.root.keys.length

variable {tree : BTree}

theorem Sound.hasCapacity (h : tree.Sound) : tree.hasCapacity = true := by
  have hd := h.degree
  simp only [maxDegree] at hd
  have hword : 2 * tree.degree < Numeral.wordLimit := by
    rw [Numeral.wordLimit]
    omega
  exact Bool.and_eq_true_iff.mpr ⟨decide_eq_true (by omega), decide_eq_true hword⟩

theorem Sound.ascending (h : tree.Sound) : Ascending tree.keys := by
  obtain ⟨depth, hroot⟩ := h.root
  exact hroot.ascending

theorem Sound.roomyRoot (h : tree.Sound) :
    ∃ root depth, tree.roomyRoot = .ok root ∧ root.Sound tree.degree depth ∧
      root.leafKeys = tree.keys ∧ (root = tree.root ∧ tree.root.keys.length + 1 ≠ 2 * tree.degree ∨
        tree.root.keys.length + 1 = 2 * tree.degree ∧ root.isLeaf = false ∧
          root.keys.length = 1) := by
  obtain ⟨depth, hroot⟩ := h.root
  by_cases hfull : tree.root.keys.length + 1 = 2 * tree.degree
  · have hfilled : tree.root.Filled tree.degree := by constructor <;> omega
    have htop : Node.Sound tree.degree (depth + 1) ⟨[] ++ [], [] ++ tree.root :: [], false⟩ :=
      (Node.sound_slot_iff rfl).mpr
        ⟨by simpa using ⟨hroot, hfilled⟩, ⟨rfl, rfl⟩, by simpa using hroot.ascending⟩
    obtain ⟨left, separator, right, hsplit, hpair, -, hsound⟩ :=
      htop.splitChild h.degree.1 rfl hfull
    refine ⟨_, depth + 1, ?_, hsound, ?_, .inr ⟨hfull, rfl, rfl⟩⟩
    · simpa [BTree.roomyRoot, Node.isFull, hfull] using hsplit
    · simpa [BTree.keys] using hpair.keeps
  · exact ⟨tree.root, depth, by simp [BTree.roomyRoot, Node.isFull, hfull], hroot, rfl,
      .inl ⟨rfl, hfull⟩⟩

/-- A key goes below the tree's own root, or below a new one if that is full. -/
theorem Sound.exists_insert (h : tree.Sound) (key : Int64) :
    ∃ root depth root', root.Sound tree.degree depth ∧ root.leafKeys = tree.keys ∧
      (root = tree.root ∧ tree.root.keys.length + 1 ≠ 2 * tree.degree ∨
        tree.root.keys.length + 1 = 2 * tree.degree ∧ root.isLeaf = false ∧
          root.keys.length = 1) ∧
      tree.insert key = .ok ⟨tree.degree, root'⟩ ∧
      Node.Inserted tree.degree depth key root root' := by
  obtain ⟨root, depth, hroomy, hroot, hkeys, hshape⟩ := h.roomyRoot
  obtain ⟨root', hbelow, hinserted⟩ := hroot.insertBelow h.degree.1 key
  refine ⟨root, depth, root', hroot, hkeys, hshape, ?_, hinserted⟩
  simp [BTree.insert, h.hasCapacity, hroomy, hroot.height_eq, hbelow]

theorem Sound.insert_capacity (h : tree.Sound) {key : Int64} {tree' : BTree}
    (hroot : tree.root.keys.length ≤ 2 * tree.degree - 1) (hinsert : tree.insert key = .ok tree') :
    tree'.root.keys.length ≤ 2 * tree'.degree - 1 := by
  obtain ⟨root, depth, root', -, -, hshape, hinsert', hinserted⟩ := h.exists_insert key
  obtain rfl := Except.ok.inj (hinsert'.symm.trans hinsert)
  have hgrows := hinserted.grows
  have hd := h.degree.1
  show root'.keys.length ≤ 2 * tree.degree - 1
  rcases hshape with ⟨rfl, hroom⟩ | ⟨-, -, hone⟩ <;> omega

/-- Adding a key to a tree in order never fails and adds one copy of the key. -/
theorem Sound.insert (h : tree.Sound) (key : Int64) :
    ∃ tree', tree.insert key = .ok tree' ∧ tree'.degree = tree.degree ∧ tree'.Sound ∧
      tree'.keys.Perm (key :: tree.keys) ∧ (tree.Proper → tree'.Proper) := by
  obtain ⟨root, depth, root', hroot, hkeys, hshape, hinsert, hinserted⟩ := h.exists_insert key
  have hsound : BTree.Sound ⟨tree.degree, root'⟩ := ⟨h.degree, depth, hinserted.sound⟩
  refine ⟨⟨tree.degree, root'⟩, hinsert, rfl, hsound, hkeys ▸ hinserted.perm, fun hp ↦ ?_⟩
  refine ⟨hsound, h.insert_capacity hp.capacity hinsert, fun hinner ↦ ?_⟩
  have hgrows := hinserted.grows
  have hleaf : root.isLeaf = root'.isLeaf := by
    rw [Bool.eq_iff_iff, hroot.isLeaf_iff, hinserted.sound.isLeaf_iff]
  rcases hshape with ⟨rfl, -⟩ | ⟨-, -, hone⟩
  · exact Nat.lt_of_lt_of_le (hp.separated (hleaf.trans hinner)) hgrows.1
  · show 0 < root'.keys.length
    omega

theorem Sound.insert_fillable (h : tree.Sound) (hroot : tree.root.Fillable tree.degree) {key : Int64}
    {tree' : BTree} (hinsert : tree.insert key = .ok tree') :
    tree'.root.Fillable tree'.degree := by
  obtain ⟨root, depth, root', -, -, hshape, hinsert', hinserted⟩ := h.exists_insert key
  have hfillable : root.Fillable tree.degree := by
    rcases hshape with ⟨rfl, -⟩ | ⟨-, -, hone⟩
    · exact hroot
    · exact .inl (by omega)
  obtain rfl := Except.ok.inj (hinsert'.symm.trans hinsert)
  exact hinserted.fillable hfillable

theorem empty_proper {degree : Nat} (hd : 2 ≤ degree ∧ degree ≤ maxDegree) :
    ∃ tree, empty degree = .ok tree ∧ tree.degree = degree ∧ tree.Proper ∧ tree.keys = [] := by
  refine ⟨⟨degree, .leaf []⟩, by simp [empty, hd], rfl, ?_, rfl⟩
  exact { degree := hd, root := ⟨0, rfl, rfl, .nil⟩, capacity := by simp [Node.leaf], separated := by simp [Node.leaf] }

theorem ofKeys_proper {degree : Nat} (hd : 2 ≤ degree ∧ degree ≤ maxDegree) (keys : List Int64) :
    ∃ tree, ofKeys degree keys = .ok tree ∧ tree.degree = degree ∧ tree.Proper ∧
      tree.keys.Perm keys := by
  have hall : ∀ (keys : List Int64) (tree : BTree), tree.Proper →
      ∃ tree', keys.foldlM BTree.insert tree = .ok tree' ∧ tree'.degree = tree.degree ∧
        tree'.Proper ∧ tree'.keys.Perm (keys ++ tree.keys) := by
    intro keys
    induction keys with
    | nil => exact fun tree hp ↦ ⟨tree, rfl, rfl, hp, List.Perm.refl _⟩
    | cons key keys ih =>
      intro tree hp
      obtain ⟨tree₁, hinsert, hdegree, -, hperm, hproper⟩ := hp.toSound.insert key
      obtain ⟨tree₂, hfold, hdegree', hproper', hperm'⟩ := ih tree₁ (hproper hp)
      refine ⟨tree₂, by simp [hinsert, hfold], hdegree'.trans hdegree, hproper', hperm'.trans ?_⟩
      exact (hperm.append_left keys).trans List.perm_middle
  obtain ⟨tree, hempty, hdegree, hp, hkeys⟩ := empty_proper hd
  obtain ⟨tree', hfold, hdegree', hp', hperm⟩ := hall keys tree hp
  refine ⟨tree', by simp [ofKeys, hempty, hfold], hdegree'.trans hdegree, hp', ?_⟩
  simpa [hkeys] using hperm

end TableStore.BTree
