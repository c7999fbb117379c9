import TableStore.Proofs.BTree.Sound

namespace TableStore.BTree.Node

section

variable {degree depth : Nat} {node child : Node} {front back : List Node} {keys keys' : List Int64}

@[simp] theorem child_append (keys : List Int64) (front : List Node) (child : Node)
    (back : List Node) (isLeaf : Bool) :
    (⟨keys, front ++ child :: back, isLeaf⟩ : Node).child front.length = .ok child := by
  simp [Node.child]

@[simp] theorem child_append_succ (keys : List Int64) (front : List Node) (child other : Node)
    (back : List Node) (isLeaf : Bool) :
    (⟨keys, front ++ child :: other :: back, isLeaf⟩ : Node).child (front.length + 1) =
      .ok other := by
  simp [Node.child]

theorem key_append {keys : List Int64} {i : Nat} (hi : keys.length = i) (key : Int64)
    (keys' : List Int64) (children : List Node) (isLeaf : Bool) :
    (⟨keys ++ key :: keys', children, isLeaf⟩ : Node).key i = .ok key := by
  simp [Node.key, ← hi]

theorem Sound.exists_slot (h : Sound degree (depth + 1) node) {i : Nat}
    (hi : i ≤ node.keys.length) :
    ∃ keys keys' front child back,
      node = ⟨keys ++ keys', front ++ child :: back, false⟩ ∧ keys.length = i ∧
      front.length = i := by
  obtain ⟨keys, children, isLeaf⟩ := node
  obtain ⟨rfl, -, hsep, -⟩ := sound_inner_iff.mp h
  have hlt : i < children.length := by rw [hsep.length]; exact Nat.lt_succ_of_le hi
  refine ⟨keys.take i, keys.drop i, children.take i, children[i], children.drop (i + 1), ?_, ?_, ?_⟩
  · rw [List.take_append_drop, List.getElem_cons_drop, List.take_append_drop]
  · rw [List.length_take]
    exact Nat.min_eq_left hi
  · rw [List.length_take]
    omega

theorem Sound.exists_pair (h : Sound degree (depth + 1) node) {i : Nat}
    (hi : i < node.keys.length) :
    ∃ keys key keys' front left right back,
      node = ⟨keys ++ key :: keys', front ++ left :: right :: back, false⟩ ∧
        keys.length = i ∧ front.length = i := by
  obtain ⟨keys, keys', front, left, back, rfl, hk, hf⟩ := h.exists_slot (Nat.le_of_lt hi)
  have hl := h.children_length
  simp only [List.length_append, List.length_cons] at hl hi
  cases keys' with
  | nil => simp at hi; omega
  | cons key keys' =>
    cases back with
    | nil => simp at hl; omega
    | cons right back => exact ⟨keys, key, keys', front, left, right, back, rfl, hk, hf⟩

theorem separates_one (child : Node) : Separates [] [child] := ⟨by simp, rfl⟩

theorem separates_two {key : Int64} {left right : Node} :
    Separates [key] [left, right] ↔ left.maxKey? = some key := by
  simp only [Separates, List.map_cons, List.map_nil, List.dropLast, List.cons.injEq]
  exact ⟨fun h ↦ h.2.1.symm, fun h ↦ ⟨by simp, h.symm, trivial⟩⟩

theorem sound_slot_iff (hk : keys.length = front.length) :
    Sound degree (depth + 1) ⟨keys ++ keys', front ++ child :: back, false⟩ ↔
      (∀ other ∈ front ++ child :: back, Sound degree depth other ∧ other.Filled degree) ∧
        (keys.map some = front.map maxKey? ∧ keys'.map some = following child.maxKey? back) ∧
        Ascending (leafKeysAll (front ++ child :: back)) := by
  have h := @sound_window_iff degree depth front [child] back keys [] keys' hk rfl
  simp only [List.append_nil, List.append_assoc, List.singleton_append] at h
  rw [h]
  simp [separates_one, lastMaxKey?]

theorem Sound.replace {middle middle' : List Node} {inner inner' : List Int64} (hd : 2 ≤ degree)
    (hk : keys.length = front.length) (hm : middle.length = inner.length + 1)
    (h : Sound degree (depth + 1) ⟨keys ++ inner ++ keys', front ++ middle ++ back, false⟩)
    (hbelow' : ∀ other ∈ middle', Sound degree depth other ∧ other.Filled degree)
    (hsep' : Separates inner' middle') (hkeys : leafKeysAll middle' = leafKeysAll middle) :
    Sound degree (depth + 1) ⟨keys ++ inner' ++ keys', front ++ middle' ++ back, false⟩ := by
  obtain ⟨hbelow, ⟨hfront, hsep, hback⟩, hasc⟩ := (sound_window_iff hk hm).mp h
  have hmem : ∀ other ∈ middle, Sound degree depth other ∧ other.Filled degree :=
    fun other hother ↦ hbelow other (by simp [hother])
  have hlast : lastMaxKey? middle' = lastMaxKey? middle := by
    rw [lastMaxKey?_eq hd hsep'.1 hbelow' fun other hother ↦ (hbelow' other hother).1.maxKey?_eq hd,
      lastMaxKey?_eq hd hsep.1 hmem fun other hother ↦ (hmem other hother).1.maxKey?_eq hd, hkeys]
  refine (sound_window_iff hk hsep'.length).mpr ⟨fun other hother ↦ ?_, ⟨hfront, hsep', ?_⟩, ?_⟩
  · simp only [List.mem_append] at hother
    rcases hother with (hother | hother) | hother
    · exact hbelow other (by simp [hother])
    · exact hbelow' other hother
    · exact hbelow other (by simp [hother])
  · rw [hlast]
    exact hback
  · simpa [hkeys] using hasc

/-- Two neighbours with the separator between them, and their leaf keys. -/
structure Pair (degree depth : Nat) (leafKeys : List Int64) (left : Node) (separator : Int64)
    (right : Node) : Prop where
  soundLeft : Sound degree depth left ∧ left.Filled degree
  soundRight : Sound degree depth right ∧ right.Filled degree
  separates : left.maxKey? = some separator
  keeps : left.leafKeys ++ right.leafKeys = leafKeys

theorem Pair.below {left right : Node} {separator : Int64} {leafKeys : List Int64}
    (h : Pair degree depth leafKeys left separator right) :
    ∀ other ∈ [left, right], Sound degree depth other ∧ other.Filled degree := by
  simpa using ⟨h.soundLeft, h.soundRight⟩

theorem Pair.maxKey?_right {left right : Node} {separator : Int64}
    (h : Pair degree depth node.leafKeys left separator right) (hn : Sound degree depth node)
    (hd : 2 ≤ degree) : right.maxKey? = node.maxKey? := by
  have hne := h.soundRight.1.leafKeys_ne_nil hd (h.soundRight.2.keys_pos hd)
  rw [h.soundRight.1.maxKey?_eq hd, hn.maxKey?_eq hd, ← h.keeps, List.getLast?_append,
    List.getLast?_eq_some_getLast hne, Option.some_or]

/-- Leaf keys at a place where a test of the separators changes from true to false. -/
structure Parts (test : Int64 → Bool) (front : List Node) (child : Node)
    (back : List Node) : Prop where
  left : ∀ key ∈ leafKeysAll front, test key = true
  right : ∀ key ∈ leafKeysAll back, test key = false
  last : back ≠ [] → ∃ last, child.maxKey? = some last ∧ test last = false

theorem Sound.parts (hd : 2 ≤ degree) (hk : keys.length = front.length)
    (h : Sound degree (depth + 1) ⟨keys ++ keys', front ++ child :: back, false⟩)
    {test : Int64 → Bool} (ht : Downward test) (hpass : ∀ key ∈ keys, test key = true)
    (hfail : ∀ key ∈ keys', test key = false) : Parts test front child back := by
  obtain ⟨hbelow, ⟨hfront, hback⟩, hasc⟩ := (sound_slot_iff hk).mp h
  have hlast : back ≠ [] → ∃ last, child.maxKey? = some last ∧ test last = false := by
    intro hne
    obtain ⟨next, rest, rfl⟩ := List.exists_cons_of_ne_nil hne
    obtain ⟨last, hmax⟩ := (hbelow child (by simp)).1.exists_maxKey? hd (hbelow child (by simp)).2
    refine ⟨last, hmax, hfail last ?_⟩
    have hmem : some last ∈ keys'.map some := by rw [hback, hmax]; simp [following]
    simpa using hmem
  refine ⟨fun key hkey ↦ ?_, fun key hkey ↦ ?_, hlast⟩
  · obtain ⟨other, hother, hkey⟩ := mem_leafKeysAll.mp hkey
    have hsound := hbelow other (by simp [hother])
    obtain ⟨last, hmax⟩ := hsound.1.exists_maxKey? hd hsound.2
    have hmem : some last ∈ keys.map some := by
      rw [hfront, ← hmax]
      exact List.mem_map_of_mem hother
    exact ht key last (((hsound.1.maxKey?_eq_some_iff hd).mp hmax).2 key hkey)
      (hpass last (by simpa using hmem))
  · obtain ⟨last, hmax, hlast⟩ := hlast fun h ↦ by simp [h] at hkey
    have hmem := (((hbelow child (by simp)).1.maxKey?_eq_some_iff hd).mp hmax).1
    rw [leafKeysAll_append, leafKeysAll_cons] at hasc
    have hle := (List.pairwise_append.mp (List.pairwise_append.mp hasc).2.1).2.2 last hmem key hkey
    exact Bool.eq_false_iff.mpr fun hkey' ↦ Bool.eq_false_iff.mp hlast (ht last key hle hkey')

theorem Sound.route (h : Sound degree (depth + 1) node) (hd : 2 ≤ degree) {test : Int64 → Bool}
    (ht : Downward test) :
    ∃ keys keys' front child back, node = ⟨keys ++ keys', front ++ child :: back, false⟩ ∧
      keys.length = front.length ∧ boundary test node.keys = front.length ∧
      Parts test front child back := by
  obtain ⟨pass, fail, hkeys, hb, hpass, hfail⟩ := (h.keys_ascending hd).exists_boundary ht
  have hle : pass.length ≤ node.keys.length := by rw [hkeys]; simp
  obtain ⟨keys, keys', front, child, back, rfl, hk, hf⟩ := h.exists_slot hle
  obtain ⟨rfl, rfl⟩ := List.append_inj hkeys hk
  exact ⟨keys, keys', front, child, back, rfl, by omega, by omega,
    h.parts hd (by omega) ht hpass hfail⟩

end

end TableStore.BTree.Node
