import TableStore.Proofs.BTree.Order
import TableStore.BTree.Query

namespace TableStore.BTree.Node

/-- What holds of a node whenever it holds of its children holds of all nodes. -/
theorem induct_children {P : Node → Prop}
    (node : ∀ keys children isLeaf, (∀ child ∈ children, P child) → P ⟨keys, children, isLeaf⟩)
    (n : Node) : P n := by
  refine height.induct P (fun children ↦ ∀ child ∈ children, P child) node (by simp) ?_ n
  intro child rest hchild hrest other hother
  rcases List.mem_cons.mp hother with rfl | hother
  · exact hchild
  · exact hrest other hother

@[simp] theorem leafKeysAll_append (front back : List Node) :
    leafKeysAll (front ++ back) = leafKeysAll front ++ leafKeysAll back := by
  induction front with
  | nil => rfl
  | cons node front ih => simp [leafKeysAll, ih]

@[simp] theorem leafKeysAll_nil : leafKeysAll [] = [] := rfl

@[simp] theorem leafKeysAll_cons (node : Node) (rest : List Node) :
    leafKeysAll (node :: rest) = node.leafKeys ++ leafKeysAll rest := rfl

@[simp] theorem leafKeys_leaf (keys : List Int64) (children : List Node) :
    leafKeys ⟨keys, children, true⟩ = keys := rfl

@[simp] theorem leafKeys_inner (keys : List Int64) (children : List Node) :
    leafKeys ⟨keys, children, false⟩ = leafKeysAll children := rfl

theorem mem_leafKeysAll {key : Int64} {children : List Node} :
    key ∈ leafKeysAll children ↔ ∃ child ∈ children, key ∈ child.leafKeys := by
  induction children with
  | nil => simp
  | cons child rest ih => simp [ih]

theorem lastMaxKey?_append (front : List Node) (node : Node) :
    lastMaxKey? (front ++ [node]) = node.maxKey? := by
  induction front with
  | nil => rfl
  | cons other front ih =>
    cases front with
    | nil => rfl
    | cons next front => exact ih

/-- The keys stand between the children, each being the last leaf key on its left. -/
def Separates (keys : List Int64) (children : List Node) : Prop :=
  children ≠ [] ∧ keys.map some = children.dropLast.map maxKey?

/-- The numbers of keys that a node other than the root may hold. -/
def Filled (degree : Nat) (node : Node) : Prop :=
  degree - 1 ≤ node.keys.length ∧ node.keys.length ≤ 2 * degree - 1

/-- A child with few keys can be filled through a key of the node; or no child has few keys. -/
def Fillable (degree : Nat) (node : Node) : Prop :=
  0 < node.keys.length ∨ ∀ child ∈ node.children, degree ≤ child.keys.length

/-- A node with all its leaves so many steps below it, and everything below it in order. The number
of its own keys is left open. -/
def Sound (degree : Nat) : Nat → Node → Prop
  | 0, node => node.isLeaf = true ∧ node.children = [] ∧ Ascending node.keys
  | depth + 1, node =>
    node.isLeaf = false ∧
    (∀ child ∈ node.children, Sound degree depth child ∧ child.Filled degree) ∧
      Separates node.keys node.children ∧ Ascending (leafKeysAll node.children)

theorem Separates.length {keys : List Int64} {children : List Node} (h : Separates keys children) :
    children.length = keys.length + 1 := by
  have hl := congrArg List.length h.2
  have hne := List.length_pos_iff.mpr h.1
  simp only [List.length_map, List.length_dropLast] at hl
  omega

/-- The separators after a node with this last leaf key, up to the last of the nodes that follow. -/
def following (last : Option Int64) : List Node → List (Option Int64)
  | [] => []
  | node :: rest => last :: (node :: rest).dropLast.map maxKey?

theorem separators_append (front : List Node) (last : Node) (back : List Node) :
    (front ++ last :: back).dropLast.map maxKey? =
      front.map maxKey? ++ following last.maxKey? back := by
  cases back with
  | nil => simp [following]
  | cons node rest => simp [following]

theorem separates_window {front middle back : List Node} {keys keys' keys'' : List Int64}
    (hf : keys.length = front.length) (hm : middle.length = keys'.length + 1) :
    Separates (keys ++ keys' ++ keys'') (front ++ middle ++ back) ↔
      keys.map some = front.map maxKey? ∧ Separates keys' middle ∧
        keys''.map some = following (lastMaxKey? middle) back := by
  obtain ⟨initial, last, rfl⟩ : ∃ initial last, middle = initial ++ [last] :=
    ⟨_, _, (List.dropLast_concat_getLast (List.ne_nil_of_length_eq_add_one hm)).symm⟩
  have hshape : front ++ (initial ++ [last]) ++ back = (front ++ initial) ++ last :: back := by simp
  simp only [List.length_append, List.length_singleton] at hm
  rw [Separates, hshape, separators_append, Separates, lastMaxKey?_append, List.dropLast_concat]
  simp only [List.map_append, List.append_assoc]
  constructor
  · rintro ⟨-, h⟩
    obtain ⟨h₁, h₂⟩ := List.append_inj h (by simp [hf])
    obtain ⟨h₂, h₃⟩ := List.append_inj h₂ (by simp; omega)
    exact ⟨h₁, ⟨by simp, h₂⟩, h₃⟩
  · rintro ⟨h₁, ⟨-, h₂⟩, h₃⟩
    exact ⟨by simp, by rw [h₁, h₂, h₃]⟩

section

variable {degree depth : Nat} {node : Node}

theorem sound_leaf_iff {keys : List Int64} {children : List Node} {isLeaf : Bool} :
    Sound degree 0 ⟨keys, children, isLeaf⟩ ↔ isLeaf = true ∧ children = [] ∧ Ascending keys :=
  Iff.rfl

theorem sound_inner_iff {keys : List Int64} {children : List Node} {isLeaf : Bool} :
    Sound degree (depth + 1) ⟨keys, children, isLeaf⟩ ↔
      isLeaf = false ∧ (∀ child ∈ children, Sound degree depth child ∧ child.Filled degree) ∧
        Separates keys children ∧ Ascending (leafKeysAll children) :=
  Iff.rfl

/-- A window of children with the keys between them can be judged apart from what is around it. -/
theorem sound_window_iff {front middle back : List Node} {keys keys' keys'' : List Int64}
    (hf : keys.length = front.length) (hm : middle.length = keys'.length + 1) :
    Sound degree (depth + 1) ⟨keys ++ keys' ++ keys'', front ++ middle ++ back, false⟩ ↔
      (∀ child ∈ front ++ middle ++ back, Sound degree depth child ∧ child.Filled degree) ∧
        (keys.map some = front.map maxKey? ∧ Separates keys' middle ∧
          keys''.map some = following (lastMaxKey? middle) back) ∧
        Ascending (leafKeysAll (front ++ middle ++ back)) := by
  rw [sound_inner_iff, separates_window hf hm]
  simp

theorem Sound.isLeaf_iff (h : Sound degree depth node) : node.isLeaf = true ↔ depth = 0 := by
  cases depth with
  | zero => simp [h.1]
  | succ depth => simp [h.1]

theorem Sound.ascending (h : Sound degree depth node) : Ascending node.leafKeys := by
  obtain ⟨keys, children, isLeaf⟩ := node
  cases depth with
  | zero =>
    obtain ⟨rfl, -, h⟩ := h
    exact h
  | succ depth =>
    obtain ⟨rfl, -, -, h⟩ := h
    exact h

theorem Sound.children_length (h : Sound degree (depth + 1) node) :
    node.children.length = node.keys.length + 1 :=
  h.2.2.1.length

theorem Sound.child (h : Sound degree (depth + 1) node) {child : Node}
    (hc : child ∈ node.children) :
    Sound degree depth child :=
  (h.2.1 child hc).1

/-- The least number of leaf keys below a node of so many keys. -/
def leastSize (degree : Nat) : Nat → Nat → Nat
  | 0, keys => keys
  | depth + 1, keys => (keys + 1) * leastSize degree depth (degree - 1)

theorem leastSize_mono (degree depth : Nat) {keys keys' : Nat} (h : keys ≤ keys') :
    leastSize degree depth keys ≤ leastSize degree depth keys' := by
  cases depth with
  | zero => exact h
  | succ depth => exact Nat.mul_le_mul_right _ (by omega)

theorem length_leafKeysAll_ge {children : List Node} {least : Nat}
    (h : ∀ child ∈ children, least ≤ child.leafKeys.length) :
    children.length * least ≤ (leafKeysAll children).length := by
  induction children with
  | nil => simp
  | cons child rest ih =>
    have hchild := h child (by simp)
    have hrest := ih fun other hother ↦ h other (by simp [hother])
    simp only [List.length_cons, leafKeysAll_cons, List.length_append, Nat.add_mul, Nat.one_mul]
    omega

theorem Sound.leastSize_le (h : Sound degree depth node) :
    leastSize degree depth node.keys.length ≤ node.leafKeys.length := by
  induction depth generalizing node with
  | zero =>
    obtain ⟨keys, children, isLeaf⟩ := node
    obtain ⟨rfl, rfl, -⟩ := sound_leaf_iff.mp h
    exact Nat.le_refl _
  | succ depth ih =>
    obtain ⟨keys, children, isLeaf⟩ := node
    obtain ⟨rfl, hbelow, hsep, -⟩ := sound_inner_iff.mp h
    have hchild : ∀ child ∈ children, leastSize degree depth (degree - 1) ≤ child.leafKeys.length :=
      fun child hc ↦ Nat.le_trans (leastSize_mono degree depth (hbelow child hc).2.1)
        (ih (hbelow child hc).1)
    have hsum := length_leafKeysAll_ge hchild
    rw [hsep.length] at hsum
    exact hsum

theorem leastSize_pos (hd : 2 ≤ degree) (depth : Nat) {keys : Nat} (hk : 0 < keys) :
    0 < leastSize degree depth keys := by
  induction depth generalizing keys with
  | zero => exact hk
  | succ depth ih => exact Nat.mul_pos (by omega) (ih (by omega))

theorem Sound.leafKeys_ne_nil (h : Sound degree depth node) (hd : 2 ≤ degree)
    (hk : 0 < node.keys.length) : node.leafKeys ≠ [] := by
  have hpos := leastSize_pos hd depth hk
  have hle := h.leastSize_le
  exact List.length_pos_iff.mp (by omega)

theorem Filled.keys_pos (h : node.Filled degree) (hd : 2 ≤ degree) : 0 < node.keys.length := by
  have hl := h.1
  omega

theorem lastMaxKey?_eq (hd : 2 ≤ degree) {children : List Node} (hne : children ≠ [])
    (hbelow : ∀ child ∈ children, Sound degree depth child ∧ child.Filled degree)
    (hmax : ∀ child ∈ children, child.maxKey? = child.leafKeys.getLast?) :
    lastMaxKey? children = (leafKeysAll children).getLast? := by
  obtain ⟨front, last, rfl⟩ : ∃ front last, children = front ++ [last] :=
    ⟨_, _, (List.dropLast_concat_getLast hne).symm⟩
  have hlast := hbelow last (by simp)
  have hkeys := hlast.1.leafKeys_ne_nil hd (hlast.2.keys_pos hd)
  rw [lastMaxKey?_append, hmax last (by simp), leafKeysAll_append, leafKeysAll_cons,
    leafKeysAll_nil,
    List.append_nil, List.getLast?_append, List.getLast?_eq_some_getLast hkeys, Option.some_or]

theorem Sound.maxKey?_eq (h : Sound degree depth node) (hd : 2 ≤ degree) :
    node.maxKey? = node.leafKeys.getLast? := by
  induction depth generalizing node with
  | zero =>
    obtain ⟨keys, children, isLeaf⟩ := node
    obtain ⟨rfl, -, -⟩ := sound_leaf_iff.mp h
    rfl
  | succ depth ih =>
    obtain ⟨keys, children, isLeaf⟩ := node
    obtain ⟨rfl, hbelow, hsep, -⟩ := sound_inner_iff.mp h
    exact lastMaxKey?_eq hd hsep.1 hbelow fun child hc ↦ ih (hbelow child hc).1

theorem Sound.maxKey?_eq_some_iff (h : Sound degree depth node) (hd : 2 ≤ degree) {last : Int64} :
    node.maxKey? = some last ↔ last ∈ node.leafKeys ∧ ∀ key ∈ node.leafKeys, key ≤ last := by
  rw [h.maxKey?_eq hd, h.ascending.getLast?_eq_some_iff]

theorem Sound.exists_maxKey? (h : Sound degree depth node) (hd : 2 ≤ degree)
    (hf : node.Filled degree) : ∃ last, node.maxKey? = some last := by
  rw [h.maxKey?_eq hd]
  exact ⟨_, List.getLast?_eq_some_getLast (h.leafKeys_ne_nil hd (hf.keys_pos hd))⟩

theorem separators_sublist {keys : List Int64} {children : List Node}
    (hbelow : ∀ child ∈ children, child.maxKey? = child.leafKeys.getLast?)
    (hsep : keys.map some = children.map maxKey?) : keys.Sublist (leafKeysAll children) := by
  induction children generalizing keys with
  | nil => simp_all
  | cons child rest ih =>
    cases keys with
    | nil => simp
    | cons key keys =>
      simp only [List.map_cons, List.cons.injEq] at hsep
      have hlast := hsep.1.symm
      rw [hbelow child (by simp)] at hlast
      have hmem : [key].Sublist child.leafKeys :=
        List.singleton_sublist.mpr (List.mem_of_getLast? hlast)
      exact hmem.append (ih (fun other hother ↦ hbelow other (by simp [hother])) hsep.2)

theorem Sound.keys_sublist (h : Sound degree depth node) (hd : 2 ≤ degree) :
    node.keys.Sublist node.leafKeys := by
  obtain ⟨keys, children, isLeaf⟩ := node
  cases depth with
  | zero =>
    obtain ⟨rfl, -, -⟩ := sound_leaf_iff.mp h
    exact List.Sublist.refl _
  | succ depth =>
    obtain ⟨rfl, hbelow, hsep, -⟩ := sound_inner_iff.mp h
    have hmem : ∀ child ∈ children.dropLast, child.maxKey? = child.leafKeys.getLast? :=
      fun child hc ↦ (hbelow child (List.dropLast_subset _ hc)).1.maxKey?_eq hd
    refine (separators_sublist hmem hsep.2).trans ?_
    conv => rhs; rw [← List.dropLast_concat_getLast hsep.1]
    simp

theorem Sound.keys_ascending (h : Sound degree depth node) (hd : 2 ≤ degree) :
    Ascending node.keys :=
  h.ascending.sublist (h.keys_sublist hd)

theorem heightBelow_eq {children : List Node} (hne : children ≠ [])
    (h : ∀ child ∈ children, child.height = depth) : heightBelow children = depth + 1 := by
  induction children with
  | nil => contradiction
  | cons child rest ih =>
    rw [heightBelow, h child (by simp)]
    cases rest with
    | nil => simp [heightBelow]
    | cons next rest =>
      rw [ih (by simp) fun other hother ↦ h other (by simp [hother])]
      omega

theorem Sound.height_eq (h : Sound degree depth node) : node.height = depth := by
  induction depth generalizing node with
  | zero =>
    obtain ⟨keys, children, isLeaf⟩ := node
    obtain ⟨-, rfl, -⟩ := sound_leaf_iff.mp h
    rfl
  | succ depth ih =>
    obtain ⟨keys, children, isLeaf⟩ := node
    obtain ⟨-, hbelow, hsep, -⟩ := sound_inner_iff.mp h
    exact heightBelow_eq hsep.1 fun child hc ↦ ih (hbelow child hc).1

end

end TableStore.BTree.Node
