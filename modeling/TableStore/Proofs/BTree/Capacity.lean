import TableStore.Proofs.BTree.Accepted

namespace TableStore.BTree

namespace Node

/-- The nodes of a tree, from its top on. -/
inductive Within (top : Node) : Node → Prop
  | self : Within top top
  | child {node child : Node} (h : Within top node) (hchild : child ∈ node.children) :
    Within top child

variable {degree depth : Nat} {top node : Node}

theorem Within.eq_or_child (h : top.Within node) :
    node = top ∨ ∃ child ∈ top.children, child.Within node := by
  induction h with
  | self => exact .inl rfl
  | child _ hchild ih =>
    rcases ih with rfl | ⟨other, hother, hwithin⟩
    · exact .inr ⟨_, hchild, .self⟩
    · exact .inr ⟨other, hother, .child hwithin hchild⟩

theorem Sound.filled_within (h : Sound degree depth top) (hfilled : top.Filled degree)
    (hwithin : top.Within node) : ∃ depth', Sound degree depth' node ∧ node.Filled degree := by
  induction hwithin with
  | self => exact ⟨depth, h, hfilled⟩
  | child _ hchild ih =>
    obtain ⟨depth', hsound, -⟩ := ih
    cases depth' with
    | zero =>
      rw [hsound.2.1] at hchild
      cases hchild
    | succ depth' => exact ⟨depth', hsound.2.1 _ hchild⟩

end Node

variable {tree tree' : BTree}

theorem Sound.filled_below (h : tree.Sound) {child node : Node} (hchild : child ∈ tree.root.children)
    (hwithin : child.Within node) : node.Filled tree.degree := by
  obtain ⟨depth, hroot⟩ := h.root
  cases depth with
  | zero =>
    rw [hroot.2.1] at hchild
    cases hchild
  | succ depth =>
    obtain ⟨hsound, hfilled⟩ := hroot.2.1 child hchild
    obtain ⟨-, -, hnode⟩ := hsound.filled_within hfilled hwithin
    exact hnode

/-- A root with more keys than a node may hold takes a key without being split. -/
theorem Sound.insert_overfull (h : tree.Sound) {key : Int64}
    (hover : 2 * tree.degree - 1 < tree.root.keys.length) (hinsert : tree.insert key = .ok tree') :
    tree'.root.height = tree.root.height ∧ tree.root.keys.length ≤ tree'.root.keys.length := by
  obtain ⟨root, depth, root', hroot, -, hshape, hinsert', hinserted⟩ := h.exists_insert key
  obtain rfl := Except.ok.inj (hinsert'.symm.trans hinsert)
  rcases hshape with ⟨rfl, -⟩ | ⟨hfull, -⟩
  · exact ⟨by rw [hinserted.sound.height_eq, hroot.height_eq], hinserted.grows.1⟩
  · omega

namespace Edit

structure Keeps (tree tree' : BTree) : Prop where
  degree : tree'.degree = tree.degree
  sound : tree'.Sound
  capacity : tree.root.keys.length ≤ 2 * tree.degree - 1 →
    tree'.root.keys.length ≤ 2 * tree.degree - 1

theorem keeps_of_erase (h : tree.Sound) {key : Int64} (herase : tree.erase key = .ok tree') :
    Keeps tree tree' := by
  by_cases hmem : key ∈ tree.keys
  · have hfillable : tree.root.Fillable tree.degree := by
      by_contra hwant
      rw [h.erase_of_not_fillable hwant hmem] at herase
      cases herase
    obtain ⟨other, hother, hdegree, hsound, -, hshape⟩ := h.erase hfillable key
    obtain rfl := Except.ok.inj (hother.symm.trans herase)
    rcases hshape with rfl | ⟨hcapacity, -⟩
    · exact ⟨rfl, h, id⟩
    · exact ⟨hdegree, hsound, hcapacity⟩
  · rw [h.erase_of_not_mem hmem] at herase
    obtain rfl := Except.ok.inj herase
    exact ⟨rfl, h, id⟩

theorem keeps_of_apply (h : tree.Sound) {edit : Edit} (happly : apply tree edit = .ok tree') :
    Keeps tree tree' := by
  cases edit with
  | insert key =>
    obtain ⟨other, hother, hdegree, hsound, -, -⟩ := h.insert key
    obtain rfl := Except.ok.inj (hother.symm.trans happly)
    exact ⟨hdegree, hsound, fun hroot ↦ hdegree ▸ h.insert_capacity hroot hother⟩
  | erase key => exact keeps_of_erase h happly

theorem keeps_of_foldlM {edits : List Edit} (h : tree.Sound)
    (hrun : edits.foldlM apply tree = .ok tree') : Keeps tree tree' := by
  induction edits generalizing tree with
  | nil =>
    obtain rfl := Except.ok.inj hrun
    exact ⟨rfl, h, id⟩
  | cons edit edits ih =>
    rw [List.foldlM_cons] at hrun
    obtain ⟨middle, happly, hrest⟩ := bind_eq_ok.mp hrun
    have hfirst := keeps_of_apply h happly
    have hlater := ih hfirst.sound hrest
    refine ⟨hlater.degree.trans hfirst.degree, hlater.sound, fun hroot ↦ ?_⟩
    have hmiddle := hfirst.capacity hroot
    rw [← hfirst.degree] at hmiddle ⊢
    exact hlater.capacity hmiddle

theorem foldlM_overfull {keys : List Int64} (h : tree.Sound)
    (hover : 2 * tree.degree - 1 < tree.root.keys.length)
    (hrun : (keys.map insert).foldlM apply tree = .ok tree') :
    tree'.root.height = tree.root.height ∧ tree.root.keys.length ≤ tree'.root.keys.length := by
  induction keys generalizing tree with
  | nil =>
    obtain rfl := Except.ok.inj hrun
    exact ⟨rfl, Nat.le_refl _⟩
  | cons key keys ih =>
    rw [List.map_cons, List.foldlM_cons] at hrun
    obtain ⟨middle, hinsert, hrest⟩ := bind_eq_ok.mp hrun
    have hkeeps := keeps_of_apply h hinsert
    obtain ⟨hheight, hgrows⟩ := h.insert_overfull hover hinsert
    have hover' : 2 * middle.degree - 1 < middle.root.keys.length := by
      rw [hkeeps.degree]
      omega
    obtain ⟨hheight', hgrows'⟩ := ih hkeeps.sound hover' hrest
    exact ⟨hheight'.trans hheight, Nat.le_trans hgrows hgrows'⟩

/-- However an accepted tree is changed, the nodes below its root hold as many keys as they should.
The root does so if it did at the start. A root that held too many keys is never split by keys that
are added, and grows on. -/
theorem foldlM_capacity (hcheck : tree.check = .ok ()) {edits : List Edit}
    (hrun : edits.foldlM apply tree = .ok tree') :
    tree'.check = .ok () ∧ tree'.degree = tree.degree ∧
    (∀ child ∈ tree'.root.children, ∀ node, child.Within node → node.Filled tree.degree) ∧
    (tree.root.keys.length ≤ 2 * tree.degree - 1 →
      ∀ node, tree'.root.Within node → node.keys.length ≤ 2 * tree.degree - 1) ∧
    (2 * tree.degree - 1 < tree.root.keys.length → ∀ keys : List Int64, edits = keys.map insert →
      tree'.root.height = tree.root.height ∧
        tree.root.keys.length ≤ tree'.root.keys.length) := by
  have h := sound_of_check_eq_ok hcheck
  have hkeeps := keeps_of_foldlM h hrun
  have hbelow : ∀ child ∈ tree'.root.children, ∀ node, child.Within node →
      node.Filled tree.degree := by
    intro child hchild node hwithin
    rw [← hkeeps.degree]
    exact hkeeps.sound.filled_below hchild hwithin
  refine ⟨hkeeps.sound.check_eq_ok, hkeeps.degree, hbelow, fun hroot node hwithin ↦ ?_, ?_⟩
  · rcases hwithin.eq_or_child with rfl | ⟨child, hchild, hwithin⟩
    · exact hkeeps.capacity hroot
    · exact (hbelow child hchild node hwithin).2
  · rintro hover keys rfl
    exact foldlM_overfull h hover hrun

/-- A root that is one leaf with room for three keys, and has four. -/
def overfull : BTree := ⟨2, .leaf [1, 2, 3, 4]⟩

theorem foldlM_capacity_overfull : overfull.check = .ok () ∧
    [insert 5, insert 0].foldlM apply overfull = .ok ⟨2, .leaf [0, 1, 2, 3, 4, 5]⟩ ∧
    (⟨2, .leaf [0, 1, 2, 3, 4, 5]⟩ : BTree).check = .ok () ∧
    (Node.leaf [0, 1, 2, 3, 4, 5]).height = overfull.root.height := by
  have hcheck : overfull.check = .ok () := rfl
  have hrun : [insert 5, insert 0].foldlM apply overfull =
      .ok ⟨2, .leaf [0, 1, 2, 3, 4, 5]⟩ := rfl
  obtain ⟨hcheck', -, -, -, hgrows⟩ := foldlM_capacity hcheck hrun
  exact ⟨hcheck, hrun, hcheck', (hgrows (by decide) [5, 0] rfl).1⟩

/-- A file can hold a tree that passes the check and grows above the capacity of its nodes. -/
theorem exists_accepted_overfull :
    ∃ tree, ofText? (text tree) = some tree ∧ tree.check = .ok () ∧
      ∃ tree' node, [insert 5].foldlM apply tree = .ok tree' ∧ tree'.root.Within node ∧
        2 * tree.degree - 1 < node.keys.length := by
  have htext : ofText? (text overfull) = some overfull := ofText?_text (by decide) (by decide)
  have hrun : [insert 5].foldlM apply overfull = .ok ⟨2, .leaf [1, 2, 3, 4, 5]⟩ := rfl
  exact ⟨overfull, htext, rfl, _, _, hrun, .self, by decide⟩

end Edit

end TableStore.BTree
