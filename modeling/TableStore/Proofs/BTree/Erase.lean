import TableStore.BTree.Erase
import TableStore.Proofs.BTree.Query

namespace TableStore.BTree

namespace Node

section

variable {degree depth : Nat} {node child left right : Node} {front back : List Node}
  {keys keys' leafKeys : List Int64} {separator : Int64}

theorem exists_concat {α : Type} {items : List α} (h : 0 < items.length) :
    ∃ initial last, items = initial ++ [last] :=
  ⟨_, _, (List.dropLast_concat_getLast (List.length_pos_iff.mp h)).symm⟩

theorem Sound.split_last {initial : List Int64} {last : Int64} {children : List Node}
    {moved : Node} (h : Sound degree (depth + 1) ⟨initial ++ [last], children ++ [moved], false⟩) :
    Sound degree (depth + 1) ⟨initial, children, false⟩ ∧
      (Sound degree depth moved ∧ moved.Filled degree) ∧ lastMaxKey? children = some last ∧
      lastMaxKey? (children ++ [moved]) = moved.maxKey? := by
  obtain ⟨-, hbelow, hsep, hasc⟩ := sound_inner_iff.mp h
  have hlen := hsep.length
  simp only [List.length_append, List.length_singleton] at hlen
  have hwindow := (@separates_window [] children [moved] [] initial [last] rfl (by omega)).mp hsep
  rw [leafKeysAll_append] at hasc
  refine ⟨⟨rfl, fun other hother ↦ hbelow other (by simp [hother]), hwindow.2.1,
    (List.pairwise_append.mp hasc).1⟩, hbelow moved (by simp), ?_, lastMaxKey?_append _ _⟩
  simpa [following] using hwindow.2.2.symm

theorem Sound.split_first {first : Int64} {rest : List Int64} {children : List Node} {moved : Node}
    (h : Sound degree (depth + 1) ⟨first :: rest, moved :: children, false⟩) :
    Sound degree (depth + 1) ⟨rest, children, false⟩ ∧
      (Sound degree depth moved ∧ moved.Filled degree) ∧ moved.maxKey? = some first := by
  obtain ⟨-, hbelow, hsep, hasc⟩ := sound_inner_iff.mp h
  have hlen := hsep.length
  simp only [List.length_cons] at hlen
  have hwindow := (@separates_window [moved] children [] [first] rest [] rfl (by omega)).mp
    (by simpa using hsep)
  rw [leafKeysAll_cons] at hasc
  refine ⟨⟨rfl, fun other hother ↦ hbelow other (by simp [hother]), hwindow.2.1,
    (List.pairwise_append.mp hasc).2.1⟩, hbelow moved (by simp), ?_⟩
  simpa using hwindow.1.symm

theorem Sound.join {keys' : List Int64} {children children' : List Node}
    (h : Sound degree (depth + 1) ⟨keys, children, false⟩)
    (h' : ∀ other ∈ children', Sound degree depth other ∧ other.Filled degree)
    (hsep : Separates keys' children') (hlast : lastMaxKey? children = some separator)
    (hasc : Ascending (leafKeysAll (children ++ children'))) :
    Sound degree (depth + 1) ⟨keys ++ separator :: keys', children ++ children', false⟩ := by
  obtain ⟨-, hbelow, hsep₁, -⟩ := sound_inner_iff.mp h
  obtain ⟨next, rest, rfl⟩ := List.exists_cons_of_ne_nil hsep.1
  refine ⟨rfl, fun other hother ↦ ?_, ?_, hasc⟩
  · rcases List.mem_append.mp hother with hother | hother
    · exact hbelow other hother
    · exact h' other hother
  · have hwindow := (@separates_window [] children (next :: rest) [] keys (separator :: keys') rfl
      hsep₁.length).mpr ⟨rfl, hsep₁, by simp [following, hlast, hsep.2]⟩
    simpa using hwindow

theorem Pair.ascending (h : Pair degree depth leafKeys left separator right)
    (hasc : Ascending leafKeys) : Ascending (left.leafKeys ++ right.leafKeys) := by
  rwa [h.keeps]

theorem key_concat {initial : List Int64} {last : Int64} {i : Nat} (hi : i = initial.length)
    (children : List Node) (isLeaf : Bool) :
    (⟨initial ++ [last], children, isLeaf⟩ : Node).key i = .ok last :=
  key_append hi.symm last [] children isLeaf

theorem set_append {hole : Int64} {i : Nat} (hk : keys.length = i) (key : Int64) :
    (keys ++ hole :: keys').set i key = keys ++ key :: keys' := by
  simp [← hk]

theorem Pair.borrowLeft (hd : 2 ≤ degree) (hk : keys.length = front.length)
    (h : Pair degree depth leafKeys left separator right) (hasc : Ascending leafKeys)
    (hrich : degree ≤ left.keys.length) (hpoor : right.keys.length < degree) :
    ∃ left' separator' right',
      (⟨keys ++ separator :: keys', front ++ left :: right :: back, false⟩ : Node).borrowLeft
        (front.length + 1) =
          .ok ⟨keys ++ separator' :: keys', front ++ left' :: right' :: back, false⟩ ∧
      Pair degree depth leafKeys left' separator' right' ∧
      degree ≤ right'.keys.length ∧ right.leafKeys <:+ right'.leafKeys := by
  have hasc := h.ascending hasc
  obtain ⟨lkeys, lchildren, lleaf⟩ := left
  obtain ⟨rkeys, rchildren, rleaf⟩ := right
  obtain ⟨⟨hsoundLeft, hleft⟩, ⟨hsoundRight, hright⟩, hseparates, hkeeps⟩ := h
  simp only [Filled] at hleft hright hrich hpoor
  obtain ⟨initial, last, rfl⟩ := exists_concat (by omega : 0 < lkeys.length)
  simp only [List.length_append, List.length_singleton] at hleft hrich
  cases depth with
  | zero =>
    obtain ⟨rfl, rfl, -⟩ := sound_leaf_iff.mp hsoundLeft
    obtain ⟨rfl, rfl, -⟩ := sound_leaf_iff.mp hsoundRight
    obtain ⟨rest, next, rfl⟩ := exists_concat (by omega : 0 < initial.length)
    have hshape : rest ++ [next] ++ [last] ++ rkeys = rest ++ [next] ++ (last :: rkeys) := by simp
    rw [leafKeys_leaf, leafKeys_leaf, hshape] at hasc hkeeps
    have hparts := List.pairwise_append.mp hasc
    refine ⟨⟨rest ++ [next], [], true⟩, next, ⟨last :: rkeys, [], true⟩, ?_, ?_, ?_, by simp⟩
    · have hnext : Node.key ⟨rest ++ [next] ++ [last], [], true⟩ rest.length = .ok next := by
        rw [List.append_assoc]
        exact key_append rfl next [last] [] true
      simp [-List.append_assoc, Node.borrowLeft, key_append hk, set_append hk, key_concat, hnext]
    · exact {
        soundLeft := ⟨⟨rfl, rfl, hparts.1⟩, by simp [Filled] at *; omega⟩
        soundRight := ⟨⟨rfl, rfl, hparts.2.1⟩, by simp [Filled]; omega⟩
        separates := by simp [maxKey?]
        keeps := hkeeps }
    · simp only [List.length_cons]
      omega
  | succ depth =>
    obtain ⟨rfl, -, hsep, -⟩ := sound_inner_iff.mp hsoundLeft
    obtain ⟨rfl, hbelow, hsep', -⟩ := sound_inner_iff.mp hsoundRight
    obtain ⟨children, moved, rfl⟩ := exists_concat (List.length_pos_iff.mpr hsep.1)
    obtain ⟨hsound, hmoved, hlast', hmax⟩ := hsoundLeft.split_last
    have hmax : moved.maxKey? = some separator := by
      rw [← hmax]
      simpa [maxKey?] using hseparates
    have hshape : leafKeysAll (children ++ [moved]) ++ leafKeysAll rchildren =
        leafKeysAll children ++ leafKeysAll (moved :: rchildren) := by simp
    rw [leafKeys_inner, leafKeys_inner, hshape] at hasc hkeeps
    have hparts := List.pairwise_append.mp hasc
    obtain ⟨next, others, rfl⟩ := List.exists_cons_of_ne_nil hsep'.1
    refine ⟨⟨initial, children, false⟩, last, ⟨separator :: rkeys, moved :: next :: others, false⟩,
      ?_, ?_, ?_, ?_⟩
    · simp [-List.append_assoc, Node.borrowLeft, key_append hk, set_append hk, key_concat]
    · exact {
        soundLeft := ⟨hsound, by simp [Filled]; omega⟩
        soundRight := ⟨⟨rfl, by simpa using ⟨hmoved, by simpa using hbelow⟩,
          ⟨by simp, by simp [hmax, hsep'.2]⟩, hparts.2.1⟩, by simp [Filled]; omega⟩
        separates := by simp [maxKey?, hlast']
        keeps := hkeeps }
    · simp only [List.length_cons]
      omega
    · simp

theorem Pair.borrowRight (hd : 2 ≤ degree) (hk : keys.length = front.length)
    (h : Pair degree depth leafKeys left separator right) (hasc : Ascending leafKeys)
    (hrich : degree ≤ right.keys.length) (hpoor : left.keys.length < degree) :
    ∃ left' separator' right',
      (⟨keys ++ separator :: keys', front ++ left :: right :: back, false⟩ : Node).borrowRight
        front.length =
          .ok ⟨keys ++ separator' :: keys', front ++ left' :: right' :: back, false⟩ ∧
      Pair degree depth leafKeys left' separator' right' ∧
      degree ≤ left'.keys.length ∧ left.leafKeys <+: left'.leafKeys := by
  have hasc := h.ascending hasc
  obtain ⟨lkeys, lchildren, lleaf⟩ := left
  obtain ⟨rkeys, rchildren, rleaf⟩ := right
  obtain ⟨⟨hsoundLeft, hleft⟩, ⟨hsoundRight, hright⟩, hseparates, hkeeps⟩ := h
  simp only [Filled] at hleft hright hrich hpoor
  obtain ⟨first, rest, rfl⟩ := List.exists_cons_of_length_pos (by omega : 0 < rkeys.length)
  simp only [List.length_cons] at hright hrich
  cases depth with
  | zero =>
    obtain ⟨rfl, rfl, -⟩ := sound_leaf_iff.mp hsoundLeft
    obtain ⟨rfl, rfl, -⟩ := sound_leaf_iff.mp hsoundRight
    have hshape : lkeys ++ first :: rest = (lkeys ++ [first]) ++ rest := by simp
    rw [leafKeys_leaf, leafKeys_leaf, hshape] at hasc hkeeps
    have hparts := List.pairwise_append.mp hasc
    refine ⟨⟨lkeys ++ [first], [], true⟩, first, ⟨rest, [], true⟩, ?_, ?_, ?_, by simp⟩
    · have hfirst : Node.key ⟨first :: rest, [], true⟩ 0 = .ok first := rfl
      simp [Node.borrowRight, key_append hk, set_append hk, hfirst]
    · exact {
        soundLeft := ⟨⟨rfl, rfl, hparts.1⟩, by simp [Filled]; omega⟩
        soundRight := ⟨⟨rfl, rfl, hparts.2.1⟩, by simp [Filled]; omega⟩
        separates := by simp [maxKey?]
        keeps := hkeeps }
    · simp only [List.length_append, List.length_singleton]
      omega
  | succ depth =>
    obtain ⟨rfl, -, hsep, -⟩ := sound_inner_iff.mp hsoundLeft
    obtain ⟨rfl, -, hsep', -⟩ := sound_inner_iff.mp hsoundRight
    obtain ⟨moved, children, rfl⟩ := List.exists_cons_of_ne_nil hsep'.1
    obtain ⟨hsound, hmoved, hmax⟩ := hsoundRight.split_first
    have hshape : leafKeysAll lchildren ++ leafKeysAll (moved :: children) =
        leafKeysAll (lchildren ++ [moved]) ++ leafKeysAll children := by simp
    rw [leafKeys_inner, leafKeys_inner, hshape] at hasc hkeeps
    have hparts := List.pairwise_append.mp hasc
    refine ⟨⟨lkeys ++ [separator], lchildren ++ [moved], false⟩, first, ⟨rest, children, false⟩,
      ?_, ?_, ?_, ?_⟩
    · have hfirst : Node.key ⟨first :: rest, moved :: children, false⟩ 0 = .ok first := rfl
      have hmove : Node.child ⟨first :: rest, moved :: children, false⟩ 0 = .ok moved := rfl
      simp [Node.borrowRight, key_append hk, set_append hk, hfirst, hmove]
    · exact {
        soundLeft := ⟨hsoundLeft.join (by simpa using hmoved) (separates_one moved)
          (by simpa [maxKey?] using hseparates) hparts.1, by simp [Filled]; omega⟩
        soundRight := ⟨hsound, by simp [Filled]; omega⟩
        separates := by simpa [maxKey?, lastMaxKey?_append] using hmax
        keeps := hkeeps }
    · simp only [List.length_append, List.length_singleton]
      omega
    · simp

theorem Pair.merge (hd : 2 ≤ degree) (hk : keys.length = front.length)
    (h : Pair degree depth leafKeys left separator right) (hasc : Ascending leafKeys)
    (hpoor : left.keys.length < degree) (hpoor' : right.keys.length < degree) :
    ∃ joined,
      (⟨keys ++ separator :: keys', front ++ left :: right :: back, false⟩ : Node).merge front.length =
        .ok ⟨keys ++ keys', front ++ joined :: back, false⟩ ∧
      (Sound degree depth joined ∧ joined.Filled degree) ∧ degree ≤ joined.keys.length ∧
      joined.leafKeys = leafKeys := by
  have hasc := h.ascending hasc
  obtain ⟨lkeys, lchildren, lleaf⟩ := left
  obtain ⟨rkeys, rchildren, rleaf⟩ := right
  obtain ⟨⟨hsoundLeft, hleft⟩, ⟨hsoundRight, hright⟩, hseparates, hkeeps⟩ := h
  simp only [Filled] at hleft hright hpoor hpoor'
  have hkeys : (keys ++ separator :: keys').eraseIdx front.length = keys ++ keys' := by
    simp [← hk, List.eraseIdx_append_of_length_le]
  have hnodes : ∀ joined, (front ++ joined :: ⟨rkeys, rchildren, rleaf⟩ :: back).eraseIdx
      (front.length + 1) = front ++ joined :: back := by
    intro joined
    simp [List.eraseIdx_append_of_length_le]
  cases depth with
  | zero =>
    obtain ⟨rfl, rfl, -⟩ := sound_leaf_iff.mp hsoundLeft
    obtain ⟨rfl, rfl, -⟩ := sound_leaf_iff.mp hsoundRight
    refine ⟨⟨lkeys ++ rkeys, [], true⟩, ?_, ⟨⟨rfl, rfl, hasc⟩, by simp [Filled]; omega⟩, ?_, hkeeps⟩
    · simp [Node.merge, key_append hk, hkeys, hnodes]
    · simp only [List.length_append]
      omega
  | succ depth =>
    obtain ⟨rfl, -, hsep, -⟩ := sound_inner_iff.mp hsoundLeft
    obtain ⟨rfl, hbelow', hsep', -⟩ := sound_inner_iff.mp hsoundRight
    rw [leafKeys_inner, leafKeys_inner, ← leafKeysAll_append] at hasc hkeeps
    refine ⟨⟨lkeys ++ separator :: rkeys, lchildren ++ rchildren, false⟩, ?_,
      ⟨hsoundLeft.join hbelow' hsep' (by simpa [maxKey?] using hseparates) hasc, ?_⟩, ?_, hkeeps⟩
    · simp [Node.merge, key_append hk, hkeys, hnodes]
    · simp [Filled]
      omega
    · simp only [List.length_append, List.length_cons]
      omega

theorem Sound.pair (hk : keys.length = front.length)
    (h : Sound degree (depth + 1) ⟨keys ++ separator :: keys', front ++ left :: right :: back, false⟩) :
    Pair degree depth (left.leafKeys ++ right.leafKeys) left separator right ∧
      Ascending (left.leafKeys ++ right.leafKeys) := by
  obtain ⟨hbelow, ⟨-, hsep, -⟩, hasc⟩ := 
    (@sound_window_iff degree depth front [left, right] back keys [separator] keys' hk rfl).mp
      (by simpa using h)
  simp only [leafKeysAll_append, leafKeysAll_cons, leafKeysAll_nil, List.append_nil] at hasc
  exact ⟨⟨hbelow left (by simp), hbelow right (by simp), separates_two.mp hsep, rfl⟩,
    (List.pairwise_append.mp (List.pairwise_append.mp hasc).1).2.1⟩

theorem Sound.replace_pair (hd : 2 ≤ degree) (hk : keys.length = front.length)
    (h : Sound degree (depth + 1) ⟨keys ++ separator :: keys', front ++ left :: right :: back, false⟩)
    {middle : List Node} {inner : List Int64}
    (hbelow : ∀ other ∈ middle, Sound degree depth other ∧ other.Filled degree)
    (hsep : Separates inner middle)
    (hkeeps : leafKeysAll middle = left.leafKeys ++ right.leafKeys) :
    Sound degree (depth + 1) ⟨keys ++ inner ++ keys', front ++ middle ++ back, false⟩ := by
  refine @Sound.replace degree depth front back keys keys' [left, right] middle [separator]
    inner hd hk
    rfl (by simpa using h) hbelow hsep ?_
  simpa using hkeeps

/-- What filling child `i` of a node gives: the node with the same leaf keys and at most one key less,
where the keys of the child lie below child `j`, which has a key to spare. -/
structure FilledUp (degree depth : Nat) (node child node' : Node) (j : Nat) : Prop where
  sound : Sound degree (depth + 1) node'
  keeps : node'.leafKeys = node.leafKeys
  shrinks : node'.keys.length ≤ node.keys.length ∧ node.keys.length ≤ node'.keys.length + 1
  rich : ∃ child', node'.children[j]? = some child' ∧ degree ≤ child'.keys.length ∧
    child.leafKeys <:+: child'.leafKeys

theorem Sound.fill_left (hd : 2 ≤ degree) (hk : keys.length = front.length)
    (h : Sound degree (depth + 1) ⟨keys ++ separator :: keys', front ++ left :: right :: back, false⟩)
    (hrich : degree ≤ left.keys.length) (hpoor : right.keys.length < degree) :
    ∃ node', (⟨keys ++ separator :: keys', front ++ left :: right :: back, false⟩ : Node).borrowLeft
        (front.length + 1) = .ok node' ∧
      FilledUp degree depth ⟨keys ++ separator :: keys', front ++ left :: right :: back, false⟩ right
        node' (front.length + 1) := by
  obtain ⟨hpair, hasc⟩ := h.pair hk
  obtain ⟨left', separator', right', hborrow, hpair', hlen, hsub⟩ :=
    hpair.borrowLeft hd hk hasc hrich hpoor
  have hsound := h.replace_pair hd hk hpair'.below (separates_two.mpr hpair'.separates)
    (by simpa using hpair'.keeps)
  refine ⟨_, hborrow, by simpa using hsound, ?_, by simp, right', by simp, hlen, hsub.isInfix⟩
  have hkeeps := hpair'.keeps
  simp only [leafKeys_inner, leafKeysAll_append, leafKeysAll_cons,
    ← List.append_assoc left.leafKeys,
    ← List.append_assoc left'.leafKeys, hkeeps]

theorem Sound.fill_right (hd : 2 ≤ degree) (hk : keys.length = front.length)
    (h : Sound degree (depth + 1) ⟨keys ++ separator :: keys', front ++ left :: right :: back, false⟩)
    (hrich : degree ≤ right.keys.length) (hpoor : left.keys.length < degree) :
    ∃ node', (⟨keys ++ separator :: keys', front ++ left :: right :: back, false⟩ : Node).borrowRight
        front.length = .ok node' ∧
      FilledUp degree depth ⟨keys ++ separator :: keys', front ++ left :: right :: back, false⟩ left
        node' front.length := by
  obtain ⟨hpair, hasc⟩ := h.pair hk
  obtain ⟨left', separator', right', hborrow, hpair', hlen, hsub⟩ :=
    hpair.borrowRight hd hk hasc hrich hpoor
  have hsound := h.replace_pair hd hk hpair'.below (separates_two.mpr hpair'.separates)
    (by simpa using hpair'.keeps)
  refine ⟨_, hborrow, by simpa using hsound, ?_, by simp, left', by simp, hlen, hsub.isInfix⟩
  have hkeeps := hpair'.keeps
  simp only [leafKeys_inner, leafKeysAll_append, leafKeysAll_cons,
    ← List.append_assoc left.leafKeys,
    ← List.append_assoc left'.leafKeys, hkeeps]

theorem Sound.fill_merge (hd : 2 ≤ degree) (hk : keys.length = front.length)
    (h : Sound degree (depth + 1) ⟨keys ++ separator :: keys', front ++ left :: right :: back, false⟩)
    (hpoor : left.keys.length < degree) (hpoor' : right.keys.length < degree) :
    ∃ node', (⟨keys ++ separator :: keys', front ++ left :: right :: back, false⟩ : Node).merge
        front.length = .ok node' ∧
      ∀ child ∈ [left, right],
        FilledUp degree depth ⟨keys ++ separator :: keys', front ++ left :: right :: back, false⟩ child
          node' front.length := by
  obtain ⟨hpair, hasc⟩ := h.pair hk
  obtain ⟨joined, hmerge, hbelow, hlen, hkeeps⟩ := hpair.merge hd hk hasc hpoor hpoor'
  have hsound : Sound degree (depth + 1) ⟨keys ++ [] ++ keys', front ++ [joined] ++ back, false⟩ :=
    h.replace_pair hd hk (by simpa using hbelow) (separates_one joined) (by simpa using hkeeps)
  refine ⟨_, hmerge,
    fun child hchild ↦ ⟨by simpa using hsound, ?_, by simp; omega, joined, by simp, hlen, ?_⟩⟩
  · simp [hkeeps]
  · rw [hkeeps]
    simp only [List.mem_cons, List.not_mem_nil, or_false] at hchild
    rcases hchild with rfl | rfl
    · exact (List.prefix_append _ _).isInfix
    · exact (List.suffix_append _ _).isInfix

theorem Sound.fill (h : Sound degree (depth + 1) node) (hd : 2 ≤ degree)
    (hkeys : 0 < node.keys.length) {i : Nat} (hi : node.children[i]? = some child)
    (hpoor : child.keys.length < degree) :
    ∃ node' j, node.fill degree i = .ok (node', j) ∧ FilledUp degree depth node child node' j := by
  have hlen := h.children_length
  have hlt := (List.getElem?_eq_some_iff.mp hi).1
  by_cases hleft : i ≠ 0 ∧ node.canLend degree (i - 1) = true
  · obtain ⟨keys, separator, keys', front, left, right, back, rfl, hk, hf⟩ :=
      h.exists_pair (by omega : i - 1 < node.keys.length)
    obtain rfl : i = front.length + 1 := by omega
    obtain rfl : right = child := by simpa using hi
    obtain ⟨node', hborrow, hfilled⟩ := h.fill_left hd (hk.trans hf.symm)
      (by simpa [canLend] using hleft) hpoor
    exact ⟨node', front.length + 1, by rw [Node.fill.eq_def, if_pos hleft, hborrow]; rfl, hfilled⟩
  by_cases hinner : i < node.keys.length
  · obtain ⟨keys, separator, keys', front, left, right, back, rfl, hk, rfl⟩ := h.exists_pair hinner
    obtain rfl : left = child := by simpa using hi
    by_cases hright : degree ≤ right.keys.length
    · obtain ⟨node', hborrow, hfilled⟩ := h.fill_right hd hk hright hpoor
      refine ⟨node', front.length, ?_, hfilled⟩
      rw [Node.fill.eq_def, if_neg hleft, if_pos hinner, if_pos (by simpa [canLend] using hright),
        hborrow]
      rfl
    · obtain ⟨node', hmerge, hfilled⟩ := h.fill_merge hd hk hpoor (by omega)
      refine ⟨node', front.length, ?_, hfilled left (by simp)⟩
      rw [Node.fill.eq_def, if_neg hleft, if_pos hinner, if_neg (by simpa [canLend] using hright),
        hmerge]
      rfl
  · obtain ⟨keys, separator, keys', front, left, right, back, rfl, hk, hf⟩ :=
      h.exists_pair (by omega : i - 1 < node.keys.length)
    obtain rfl : i = front.length + 1 := by omega
    obtain rfl : right = child := by simpa using hi
    have hleft' : left.keys.length < degree := by simpa [canLend] using hleft
    obtain ⟨node', hmerge, hfilled⟩ := h.fill_merge hd (hk.trans hf.symm) hleft' hpoor
    refine ⟨node', front.length, ?_, hfilled right (by simp)⟩
    rw [Node.fill.eq_def, if_neg hleft, if_neg hinner]
    simp [hmerge]

/-- Where a node has a key, a child with as few keys as it may hold can be filled: the child that is
told then has a key to spare and no more than fit, and the leaf keys of the first are a run of its own.
All leaf keys are as they were, the node is in order, and it has lost one key at most. -/
theorem Sound.fill_covers (h : Sound degree (depth + 1) node) (hd : 2 ≤ degree)
    (hkeys : 0 < node.keys.length) {i : Nat} (hi : node.children[i]? = some child)
    (hleast : child.keys.length = degree - 1) :
    ∃ node' j, node.fill degree i = .ok (node', j) ∧ Sound degree (depth + 1) node' ∧
      node'.leafKeys = node.leafKeys ∧
      (node'.keys.length = node.keys.length ∨ node'.keys.length + 1 = node.keys.length) ∧
      ∃ child', node'.children[j]? = some child' ∧
        (degree ≤ child'.keys.length ∧ child'.keys.length ≤ 2 * degree - 1) ∧
        child.leafKeys <:+: child'.leafKeys := by
  obtain ⟨node', j, hfill, hfilled⟩ := h.fill hd hkeys hi (by omega)
  obtain ⟨child', hj, hrich, hcovers⟩ := hfilled.rich
  have hmost := (hfilled.sound.2.1 child' (List.mem_of_getElem? hj)).2.2
  have hshrinks := hfilled.shrinks
  exact ⟨node', j, hfill, hfilled.sound, hfilled.keeps, by omega, child', hj, ⟨hrich, hmost⟩, hcovers⟩

/-- Two children of two leaves each. The second has no neighbour that can lend it a key. -/
def meagre : Node :=
  ⟨[4], [⟨[2], [leaf [1, 2], leaf [4, 4]], false⟩, ⟨[6], [leaf [6], leaf [7, 8]], false⟩], false⟩

theorem sound_meagre : Sound 2 2 meagre := by
  simp [Sound, meagre, leaf, Filled, Separates, maxKey?, lastMaxKey?, leafKeysAll, leafKeys]

theorem Sound.fill_covers_meagre :
    meagre.fill 2 1 = .ok (⟨[],
      [⟨[2, 4, 6], [leaf [1, 2], leaf [4, 4], leaf [6], leaf [7, 8]], false⟩], false⟩, 0) ∧
    ∃ node' j, meagre.fill 2 1 = .ok (node', j) ∧ Sound 2 2 node' ∧
      node'.leafKeys = [1, 2, 4, 4, 6, 7, 8] ∧ node'.keys.length + 1 = meagre.keys.length ∧
      ∃ child', node'.children[j]? = some child' ∧ [6, 7, 8] <:+: child'.leafKeys := by
  have hrun : meagre.fill 2 1 = .ok (⟨[],
      [⟨[2, 4, 6], [leaf [1, 2], leaf [4, 4], leaf [6], leaf [7, 8]], false⟩], false⟩, 0) := rfl
  obtain ⟨node', j, hfill, hsound, hkeeps, -, child', hj, -, hcovers⟩ :=
    sound_meagre.fill_covers (by decide) (by decide) (i := 1) rfl rfl
  obtain ⟨rfl, rfl⟩ := Prod.mk.inj (Except.ok.inj (hrun.symm.trans hfill))
  exact ⟨hrun, _, _, hfill, hsound, hkeeps, rfl, child', hj, hcovers⟩

theorem Sound.topUp (h : Sound degree (depth + 1) node) (hd : 2 ≤ degree) {i : Nat}
    (hi : node.children[i]? = some child)
    (hkeys : 0 < node.keys.length ∨ degree ≤ child.keys.length) :
    ∃ node' j, node.topUp degree i = .ok (node', j) ∧ FilledUp degree depth node child node' j := by
  have hget : node.child i = .ok child := by simp [Node.child, hi]
  by_cases hpoor : child.keys.length < degree
  · obtain ⟨node', j, hfill, hfilled⟩ := h.fill hd (hkeys.resolve_right (by omega)) hi hpoor
    exact ⟨node', j, by simp [Node.topUp, hget, hpoor, hfill], hfilled⟩
  · exact ⟨node, i, by simp [Node.topUp, hget, hpoor],
      h, rfl, by omega, child, hi, by omega, List.infix_rfl⟩

structure Erased (degree depth : Nat) (key : Int64) (node node' : Node) : Prop where
  sound : Sound degree depth node'
  leafKeys : node'.leafKeys = node.leafKeys.erase key
  shrinks : node'.keys.length ≤ node.keys.length ∧ node.keys.length ≤ node'.keys.length + 1

theorem Sound.erase_leaf (h : Sound degree 0 node) {key : Int64} (hmem : key ∈ node.leafKeys) :
    node.eraseBelow degree key 0 = .ok ({ node with keys := node.keys.erase key }, true) ∧
      Erased degree 0 key node { node with keys := node.keys.erase key } := by
  obtain ⟨keys, children, isLeaf⟩ := node
  obtain ⟨rfl, rfl, hasc⟩ := sound_leaf_iff.mp h
  refine ⟨?_, ⟨rfl, rfl, hasc.sublist List.erase_sublist⟩, rfl, ?_⟩
  · rw [Node.eraseBelow]
    simp [(hasc.getElem?_boundary key).mpr hmem, hasc.eraseIdx_boundary hmem]
  · have hlen := List.length_erase_of_mem hmem
    simp only [leafKeys_leaf] at hlen
    simp only [hlen]
    omega

theorem leafKeysAll_erase {key : Int64} {child' : Node} (hmem : key ∈ child.leafKeys)
    (hchild' : child'.leafKeys = child.leafKeys.erase key)
    (hasc : Ascending (leafKeysAll (front ++ child :: back))) :
    Ascending (leafKeysAll (front ++ child' :: back)) ∧
      leafKeysAll (front ++ child' :: back) = (leafKeysAll (front ++ child :: back)).erase key := by
  have hasc' : Ascending (leafKeysAll (front ++ child' :: back)) := by
    refine hasc.sublist ?_
    simp only [leafKeysAll_append, leafKeysAll_cons, hchild']
    exact (List.Sublist.refl _).append (List.erase_sublist.append (List.Sublist.refl _))
  refine ⟨hasc', hasc'.eq_of_perm (hasc.sublist List.erase_sublist) ?_⟩
  have hperm : (leafKeysAll (front ++ child :: back)).Perm
      (key :: leafKeysAll (front ++ child' :: back)) := by
    simp only [leafKeysAll_append, leafKeysAll_cons, hchild']
    exact (((List.perm_cons_erase hmem).append_right _).append_left _).trans List.perm_middle
  have herase := hperm.erase key
  rw [List.erase_cons_head] at herase
  exact herase.symm

/-- Putting a child back after a removal makes the separator on its right its greatest key again. -/
theorem Sound.replaceChild {key : Int64} {child' : Node} (hd : 2 ≤ degree)
    (hk : keys.length = front.length)
    (h : Sound degree (depth + 1) ⟨keys ++ keys', front ++ child :: back, false⟩)
    (hmem : key ∈ child.leafKeys) (herased : Erased degree depth key child child')
    (hfilled : child'.Filled degree) :
    ∃ keys'', (⟨keys ++ keys', front ++ child :: back, false⟩ : Node).replaceChild front.length child' =
        ⟨keys ++ keys'', front ++ child' :: back, false⟩ ∧ keys''.length = keys'.length ∧
      Sound degree (depth + 1) ⟨keys ++ keys'', front ++ child' :: back, false⟩ := by
  obtain ⟨hbelow, ⟨hfront, hback⟩, hasc⟩ := (sound_slot_iff hk).mp h
  obtain ⟨last, hmax⟩ := herased.sound.exists_maxKey? hd hfilled
  have hbelow' : ∀ other ∈ front ++ child' :: back, Sound degree depth other ∧
      other.Filled degree := by
    intro other hother
    simp only [List.mem_append, List.mem_cons] at hother
    rcases hother with hother | rfl | hother
    · exact hbelow other (by simp [hother])
    · exact ⟨herased.sound, hfilled⟩
    · exact hbelow other (by simp [hother])
  have hasc' := (leafKeysAll_erase hmem herased.leafKeys hasc).1
  cases back with
  | nil =>
    obtain rfl : keys' = [] := by simpa [following] using hback
    refine ⟨[], ?_, rfl, (sound_slot_iff hk).mpr ⟨hbelow', ⟨hfront, rfl⟩, hasc'⟩⟩
    simp [Node.replaceChild, hmax, ← hk, List.set_eq_of_length_le]
  | cons next rest =>
    cases keys' with
    | nil => simp [following] at hback
    | cons hole keys' =>
      simp only [List.map_cons, following, List.cons.injEq] at hback
      refine ⟨last :: keys', ?_, by simp, (sound_slot_iff hk).mpr ⟨hbelow', ⟨hfront, ?_⟩, hasc'⟩⟩
      · simp [Node.replaceChild, hmax, set_append hk]
      · simp [following, hmax, hback.2]

/-- A key that is below a sound node can be removed, if no child is in want. -/
theorem Sound.eraseBelow (h : Sound degree depth node) (hd : 2 ≤ degree)
    (hfillable : node.Fillable degree) {key : Int64} (hmem : key ∈ node.leafKeys) :
    ∃ node', node.eraseBelow degree key depth = .ok (node', true) ∧
      Erased degree depth key node node' := by
  induction depth generalizing node with
  | zero => exact ⟨_, h.erase_leaf hmem⟩
  | succ depth ih =>
    obtain ⟨keys, keys', front, child, back, hnode, hk, hb, hparts⟩ := h.route hd (downward_lt key)
    have hi : node.children[boundary (· < key) node.keys]? = some child := by
      rw [hb, hnode]
      simp
    have hchild : key ∈ child.leafKeys := by
      subst hnode
      obtain ⟨hbelow, -, hasc⟩ := (sound_slot_iff hk).mp h
      exact hparts.mem_child hd (hbelow child (by simp)).1 hasc hmem
    have hspare := hfillable.imp_right fun hrich ↦ hrich child (List.mem_of_getElem? hi)
    obtain ⟨node₁, j, htop, hfilled⟩ := h.topUp hd hi hspare
    obtain ⟨child₁, hj, hrich, hsub⟩ := hfilled.rich
    have hlt := (List.getElem?_eq_some_iff.mp hj).1
    have hlen := hfilled.sound.children_length
    obtain ⟨keys₁, keys₁', front₁, child₂, back₁, rfl, hk₁, rfl⟩ :=
      hfilled.sound.exists_slot (by omega : j ≤ node₁.keys.length)
    obtain rfl : child₂ = child₁ := by simpa using hj
    have hbelow := ((sound_slot_iff hk₁).mp hfilled.sound).1 child₂ (by simp)
    obtain ⟨child', herase, herased⟩ := ih hbelow.1 (.inl (by omega)) (hsub.subset hchild)
    have hfilled' : child'.Filled degree := by
      have h₁ := hbelow.2.2
      have h₂ := herased.shrinks
      constructor <;> omega
    obtain ⟨keys'', hreplace, hlen', hsound⟩ :=
      hfilled.sound.replaceChild hd hk₁ (hsub.subset hchild) herased hfilled'
    refine ⟨_, ?_, hsound, ?_, ?_⟩
    · rw [Node.eraseBelow]
      simp [h.1, htop, herase, hreplace]
    · have hasc := ((sound_slot_iff hk₁).mp hfilled.sound).2.2
      rw [← hfilled.keeps]
      exact (leafKeysAll_erase (hsub.subset hchild) herased.leafKeys hasc).2
    · have hshrinks := hfilled.shrinks
      simp only [List.length_append, hlen'] at hshrinks ⊢
      exact hshrinks

theorem Sound.lowered (h : Sound degree depth node) (hd : 2 ≤ degree) :
    ∃ depth', Sound degree depth' (lowered node) ∧ (BTree.lowered node).leafKeys = node.leafKeys ∧
      (node.keys.length ≤ 2 * degree - 1 → (BTree.lowered node).keys.length ≤ 2 * degree - 1) ∧
      ((BTree.lowered node).isLeaf = false → 0 < (BTree.lowered node).keys.length) := by
  obtain ⟨keys, children, isLeaf⟩ := node
  cases depth with
  | zero =>
    obtain ⟨rfl, rfl, hasc⟩ := sound_leaf_iff.mp h
    have hself : BTree.lowered ⟨keys, [], true⟩ = ⟨keys, [], true⟩ := by cases keys <;> rfl
    rw [hself]
    exact ⟨0, h, rfl, id, by simp⟩
  | succ depth =>
    obtain ⟨rfl, hbelow, hsep, -⟩ := sound_inner_iff.mp h
    cases keys with
    | nil =>
      obtain ⟨child, rfl⟩ := List.length_eq_one_iff.mp hsep.length
      obtain ⟨hchild, hfilled⟩ := hbelow child (by simp)
      exact ⟨depth, hchild, by simp [BTree.lowered], fun _ ↦ hfilled.2,
        fun _ ↦ hfilled.keys_pos hd⟩
    | cons key keys => exact ⟨depth + 1, h, rfl, id, by simp [BTree.lowered]⟩

end

end Node

variable {tree : BTree}

theorem Sound.erase_of_not_mem (h : tree.Sound) {key : Int64} (habsent : key ∉ tree.keys) :
    tree.erase key = .ok tree := by
  simp [BTree.erase, h.contains key, habsent]

/-- Removing a key never fails where no child of the root is in want, and takes away one copy of the
key. -/
theorem Sound.erase (h : tree.Sound) (hfillable : tree.root.Fillable tree.degree) (key : Int64) :
    ∃ tree', tree.erase key = .ok tree' ∧ tree'.degree = tree.degree ∧ tree'.Sound ∧
      tree'.keys = tree.keys.erase key ∧ (tree' = tree ∨
        (tree.root.keys.length ≤ 2 * tree.degree - 1 →
          tree'.root.keys.length ≤ 2 * tree.degree - 1) ∧
        (tree'.root.isLeaf = false → 0 < tree'.root.keys.length)) := by
  by_cases hmem : key ∈ tree.keys
  · obtain ⟨depth, hroot⟩ := h.root
    have hd := h.degree.1
    obtain ⟨root', herase, herased⟩ := hroot.eraseBelow hd hfillable hmem
    have hshrinks := herased.shrinks
    obtain ⟨depth', hsound, hsame, hroom, hinner⟩ := herased.sound.lowered hd
    refine ⟨⟨tree.degree, lowered root'⟩, ?_, rfl, ⟨h.degree, depth', hsound⟩, ?_,
      .inr ⟨fun hcapacity ↦ hroom (by omega), hinner⟩⟩
    · simp [BTree.erase, h.contains key, hmem, hroot.height_eq, herase]
    · exact hsame.trans herased.leafKeys
  · exact ⟨tree, h.erase_of_not_mem hmem, rfl, h, (List.erase_of_not_mem hmem).symm, .inl rfl⟩

theorem Sound.fillable (h : tree.Sound)
    (hseparated : tree.root.isLeaf = false → 0 < tree.root.keys.length) :
    tree.root.Fillable tree.degree := by
  obtain ⟨depth, hroot⟩ := h.root
  cases depth with
  | zero =>
    refine .inr fun child hchild ↦ ?_
    rw [hroot.2.1] at hchild
    cases hchild
  | succ depth => exact .inl (hseparated hroot.1)

theorem Sound.erase_fillable (h : tree.Sound) (hfillable : tree.root.Fillable tree.degree)
    {key : Int64} {tree' : BTree} (herase : tree.erase key = .ok tree') :
    tree'.root.Fillable tree'.degree := by
  obtain ⟨other, hother, -, hsound, -, hshape⟩ := h.erase hfillable key
  obtain rfl : other = tree' := Except.ok.inj (hother.symm.trans herase)
  rcases hshape with rfl | ⟨-, hseparated⟩
  · exact hfillable
  · exact hsound.fillable hseparated

theorem Proper.erase (h : tree.Proper) (key : Int64) :
    ∃ tree', tree.erase key = .ok tree' ∧ tree'.degree = tree.degree ∧ tree'.Proper ∧
      tree'.keys = tree.keys.erase key := by
  obtain ⟨tree', herase, hdegree, hsound, hkeys, hshape⟩ := h.toSound.erase (h.toSound.fillable h.separated) key
  refine ⟨tree', herase, hdegree, ?_, hkeys⟩
  rcases hshape with rfl | ⟨hroom, hinner⟩
  · exact h
  · exact { hsound with capacity := hdegree ▸ hroom h.capacity, separated := hinner }

end TableStore.BTree
