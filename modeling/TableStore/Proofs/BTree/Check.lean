import TableStore.Proofs.BTree.Insert

namespace TableStore.BTree

namespace Node

section

variable {degree depth : Nat} {node : Node} {low high : Option Int64}

theorem isBetween_iff {key : Int64} :
    isBetween low high key = true ↔ (∀ bound ∈ low, bound ≤ key) ∧ ∀ bound ∈ high, key ≤ bound := by
  cases low <;> cases high <;> simp [isBetween]

theorem checkAll_eq_ok (hd : 2 ≤ degree) {children : List Node} {keys : List Int64}
    {found : Option Nat}
    (hne : children ≠ [])
    (hbelow : ∀ child ∈ children, Sound degree depth child ∧ child.Filled degree)
    (hsep : keys.map some = children.dropLast.map maxKey?) (hasc : Ascending (leafKeysAll children))
    (hbetween : ∀ key ∈ leafKeysAll children, isBetween low high key = true)
    (hfound : ∀ d ∈ found, d = depth)
    (hcheck : ∀ child ∈ children, ∀ low high,
      (∀ key ∈ child.leafKeys, isBetween low high key = true) →
        child.check degree false low high = .ok depth) :
    checkAll degree low high found keys children = .ok (depth + 1) := by
  induction children generalizing low found keys with
  | nil => contradiction
  | cons child rest ih =>
    rw [leafKeysAll_cons] at hasc hbetween
    obtain ⟨-, hasc', hcross⟩ := List.pairwise_append.mp hasc
    have hself := hbelow child (by simp)
    have hany : found.any (· ≠ depth) = false := by
      cases found with
      | none => rfl
      | some d => simp [hfound d rfl]
    cases rest with
    | nil =>
      obtain rfl : keys = [] := by simpa using hsep
      have hone := hcheck child (by simp) low high fun key hkey ↦ hbetween key (by simp [hkey])
      rw [checkAll]
      simp only [hone, hany, Bool.false_eq_true, if_false, checkAll, Option.getD_some]
    | cons next rest =>
      cases keys with
      | nil => simp at hsep
      | cons separator keys =>
        simp only [List.dropLast_cons_cons, List.map_cons, List.cons.injEq] at hsep
        have hmax := (hself.1.maxKey?_eq_some_iff hd).mp hsep.1.symm
        have hone := hcheck child (by simp) low (some separator) fun key hkey ↦
          isBetween_iff.mpr ⟨(isBetween_iff.mp (hbetween key (by simp [hkey]))).1,
            fun bound hbound ↦ Option.some.inj hbound ▸ hmax.2 key hkey⟩
        have hrest : checkAll degree (some separator) high (some depth) keys (next :: rest) =
            .ok (depth + 1) := ih (by simp)
          (fun other hother ↦ hbelow other (by simp [hother])) hsep.2 hasc'
          (fun key hkey ↦ isBetween_iff.mpr
            ⟨fun bound hbound ↦ Option.some.inj hbound ▸ hcross separator hmax.1 key hkey,
              (isBetween_iff.mp (hbetween key (List.mem_append_right _ hkey))).2⟩)
          (by simp) fun other hother ↦ hcheck other (by simp [hother])
        rw [checkAll]
        simp only [← hsep.1, hone, hany, hrest, ne_eq, not_true, Bool.false_eq_true, if_false]

theorem Sound.check_eq_ok (h : Sound degree depth node) (hd : 2 ≤ degree) {isRoot : Bool}
    (hfilled : isRoot = false → node.Filled degree)
    (hbetween : ∀ key ∈ node.leafKeys, isBetween low high key = true) :
    node.check degree isRoot low high = .ok depth := by
  induction depth generalizing node isRoot low high with
  | zero =>
    obtain ⟨keys, children, isLeaf⟩ := node
    obtain ⟨rfl, rfl, hasc⟩ := sound_leaf_iff.mp h
    have hcount : ¬(¬isRoot = true ∧ (keys.length < degree - 1 ∨ 2 * degree - 1 < keys.length)) := by
      rintro ⟨hroot, hcount⟩
      have hf := hfilled (Bool.eq_false_iff.mpr hroot)
      simp only [Filled] at hf
      omega
    have hkeys : keys.all (isBetween low high) = true := List.all_eq_true.mpr hbetween
    rw [Node.check, if_neg hcount]
    simp [(isAscending_iff keys).mpr hasc, hkeys]
  | succ depth ih =>
    have hkeys : node.keys.all (isBetween low high) = true :=
      List.all_eq_true.mpr fun key hkey ↦ hbetween key ((h.keys_sublist hd).subset hkey)
    have hsorted := (isAscending_iff node.keys).mpr (h.keys_ascending hd)
    obtain ⟨keys, children, isLeaf⟩ := node
    obtain ⟨rfl, hbelow, hsep, hasc⟩ := sound_inner_iff.mp h
    have hcount : ¬(¬isRoot = true ∧ (keys.length < degree - 1 ∨ 2 * degree - 1 < keys.length)) := by
      rintro ⟨hroot, hcount⟩
      have hf := hfilled (Bool.eq_false_iff.mpr hroot)
      simp only [Filled] at hf
      omega
    have hall : checkAll degree low high none keys children = .ok (depth + 1) :=
      checkAll_eq_ok hd hsep.1 hbelow hsep.2 hasc hbetween (by simp)
      fun child hc low high hin ↦ ih (hbelow child hc).1 (fun _ ↦ (hbelow child hc).2) hin
    rw [Node.check, if_neg hcount]
    simp only at hkeys hsorted
    simp [hsorted, hkeys, hsep.length, hall]

theorem eq_of_not_any_ne {found : Option Nat} (h : ¬found.any (· ≠ depth) = true) :
    ∀ d ∈ found, d = depth := by
  intro d hfound
  subst hfound
  simpa using h

theorem checkAll_last {child : Node} {rest : List Node} {found : Option Nat} {total : Nat}
    (h : checkAll degree low high found [] (child :: rest) = .ok total) :
    ∃ depth, child.check degree false low high = .ok depth ∧ (∀ d ∈ found, d = depth) ∧
      checkAll degree low high (some depth) [] rest = .ok total := by
  rw [checkAll] at h
  cases hchild : child.check degree false low high with
  | error defect => simp [hchild] at h
  | ok depth =>
    simp only [hchild] at h
    by_cases hany : found.any (· ≠ depth) = true
    · rw [if_pos hany] at h
      cases h
    · rw [if_neg hany] at h
      exact ⟨depth, rfl, eq_of_not_any_ne hany, h⟩

theorem checkAll_next {child : Node} {rest : List Node} {separator : Int64} {keys : List Int64}
    {found : Option Nat} {total : Nat}
    (h : checkAll degree low high found (separator :: keys) (child :: rest) = .ok total) :
    child.maxKey? = some separator ∧
      ∃ depth, child.check degree false low (some separator) = .ok depth ∧
        (∀ d ∈ found, d = depth) ∧
        checkAll degree (some separator) high (some depth) keys rest = .ok total := by
  rw [checkAll] at h
  by_cases hmax : child.maxKey? = some separator
  · rw [if_neg fun hne ↦ hne hmax] at h
    cases hchild : child.check degree false low (some separator) with
    | error defect => simp [hchild] at h
    | ok depth =>
      simp only [hchild] at h
      by_cases hany : found.any (· ≠ depth) = true
      · rw [if_pos hany] at h
        cases h
      · rw [if_neg hany] at h
        exact ⟨hmax, depth, rfl, eq_of_not_any_ne hany, h⟩
  · simp [hmax] at h

/-- What the check of a node tells of it. -/
structure Checked (degree depth : Nat) (low high : Option Int64) (node : Node) : Prop where
  sound : Sound degree depth node
  between : ∀ key ∈ node.leafKeys, isBetween low high key = true

theorem sound_of_checkAll {children : List Node} {keys : List Int64}
    {found : Option Nat} {total : Nat} (hlen : children.length = keys.length + 1)
    (hasc : Ascending keys) (hbetween : ∀ key ∈ keys, isBetween low high key = true)
    (hcheck : ∀ child ∈ children, ∀ low high d, child.check degree false low high = .ok d →
      Checked degree d low high child ∧ child.Filled degree)
    (h : checkAll degree low high found keys children = .ok total) :
    ∃ depth, total = depth + 1 ∧ (∀ d ∈ found, d = depth) ∧
      (∀ child ∈ children, Sound degree depth child ∧ child.Filled degree) ∧
      keys.map some = children.dropLast.map maxKey? ∧ Ascending (leafKeysAll children) ∧
      ∀ key ∈ leafKeysAll children, isBetween low high key = true := by
  induction children generalizing low found keys with
  | nil => simp at hlen
  | cons child rest ih =>
    cases keys with
    | nil =>
      obtain rfl : rest = [] := by simpa using hlen
      obtain ⟨depth, hone, hfound, hrest⟩ := checkAll_last h
      obtain ⟨hchild, hfilled⟩ := hcheck child (by simp) low high depth hone
      have htotal : depth + 1 = total := by simpa [checkAll] using hrest
      exact ⟨depth, htotal.symm, hfound, by simpa using ⟨hchild.sound, hfilled⟩, rfl,
        by simpa using hchild.sound.ascending, by simpa using hchild.between⟩
    | cons separator keys =>
      obtain ⟨hmax, depth, hone, hfound, hrest⟩ := checkAll_next h
      obtain ⟨hchild, hfilled⟩ := hcheck child (by simp) low (some separator) depth hone
      obtain ⟨hright, hasc'⟩ := List.pairwise_cons.mp hasc
      have hseparator := isBetween_iff.mp (hbetween separator (by simp))
      obtain ⟨depth', htotal, hsame, hbelow, hsep, hleaves, hin⟩ := ih (by simpa using hlen) hasc'
        (fun key hkey ↦ isBetween_iff.mpr ⟨fun bound hbound ↦ Option.some.inj hbound ▸ hright key hkey,
          (isBetween_iff.mp (hbetween key (by simp [hkey]))).2⟩)
        (fun other hother ↦ hcheck other (by simp [hother])) hrest
      obtain rfl := hsame depth rfl
      have hleft : ∀ key ∈ child.leafKeys, key ≤ separator := fun key hkey ↦
        (isBetween_iff.mp (hchild.between key hkey)).2 separator rfl
      have hafter : ∀ key ∈ leafKeysAll rest, separator ≤ key := fun key hkey ↦
        (isBetween_iff.mp (hin key hkey)).1 separator rfl
      refine ⟨depth, htotal, hfound, ?_, ?_, ?_, ?_⟩
      · simpa using ⟨⟨hchild.sound, hfilled⟩, hbelow⟩
      · obtain ⟨next, rest, rfl⟩ := List.exists_cons_of_length_pos (l := rest)
          (by simp only [List.length_cons] at hlen; omega)
        simp [hmax, hsep]
      · rw [leafKeysAll_cons]
        exact List.pairwise_append.mpr ⟨hchild.sound.ascending, hleaves, fun key hkey other hother ↦
          Int64.le_trans (hleft key hkey) (hafter other hother)⟩
      · intro key hkey
        rcases List.mem_append.mp hkey with hkey | hkey
        · exact isBetween_iff.mpr ⟨(isBetween_iff.mp (hchild.between key hkey)).1,
            fun bound hbound ↦ Int64.le_trans (hleft key hkey) (hseparator.2 bound hbound)⟩
        · exact isBetween_iff.mpr
            ⟨fun bound hbound ↦ Int64.le_trans (hseparator.1 bound hbound) (hafter key hkey),
              (isBetween_iff.mp (hin key hkey)).2⟩

theorem sound_of_check {isRoot : Bool}
    (h : node.check degree isRoot low high = .ok depth) :
    Checked degree depth low high node ∧ (isRoot = false → node.Filled degree) := by
  induction node using induct_children generalizing depth isRoot low high with
  | node keys children isLeaf ih =>
    rw [Node.check] at h
    by_cases hcount : ¬isRoot = true ∧ (keys.length < degree - 1 ∨ 2 * degree - 1 < keys.length)
    · simp [hcount] at h
    rw [if_neg hcount] at h
    by_cases hasc : isAscending keys = true
    case neg => simp [hasc] at h
    by_cases hin : keys.all (isBetween low high) = true
    case neg => simp [hasc, hin] at h
    have hfilled : isRoot = false → Filled degree ⟨keys, children, isLeaf⟩ := by
      intro hroot
      simp only [hroot, Bool.false_eq_true, not_false_eq_true, true_and] at hcount
      simp only [Filled]
      omega
    have hbetween := List.all_eq_true.mp hin
    have hsorted := (isAscending_iff keys).mp hasc
    simp only [hasc, hin, not_true_eq_false, if_false] at h
    cases isLeaf with
    | true =>
      cases children with
      | nil =>
        obtain rfl : 0 = depth := by simpa using h
        exact ⟨⟨⟨rfl, rfl, hsorted⟩, hbetween⟩, hfilled⟩
      | cons child rest => simp at h
    | false =>
      by_cases hlen : children.length = keys.length + 1
      · simp only [Bool.false_eq_true, if_false, hlen, ne_eq, not_true_eq_false] at h
        obtain ⟨below, rfl, -, hbelow, hsep, hleaves, hleavesIn⟩ :=
          sound_of_checkAll hlen hsorted hbetween
            (fun child hchild low high d hone ↦
              ⟨(ih child hchild hone).1, (ih child hchild hone).2 rfl⟩) h
        have hne : children ≠ [] := List.ne_nil_of_length_eq_add_one hlen
        exact ⟨⟨⟨rfl, hbelow, ⟨hne, hsep⟩, hleaves⟩, hleavesIn⟩, hfilled⟩
      · simp [hlen] at h

end

end Node

variable {tree : BTree}

theorem Sound.check_eq_ok (h : tree.Sound) : tree.check = .ok () := by
  obtain ⟨depth, hroot⟩ := h.root
  have hdegree : ¬(tree.degree < 2 ∨ maxDegree < tree.degree) := by
    have hd := h.degree
    omega
  have hnode : tree.root.check tree.degree true none none = .ok depth :=
    hroot.check_eq_ok h.degree.1 (by simp) (by simp [Node.isBetween])
  rw [BTree.check, if_neg hdegree, hnode, map_ok]

theorem sound_of_check_eq_ok (h : tree.check = .ok ()) : tree.Sound := by
  rw [BTree.check] at h
  by_cases hdegree : tree.degree < 2 ∨ maxDegree < tree.degree
  · rw [if_pos hdegree] at h
    cases h
  · cases hroot : tree.root.check tree.degree true none none with
    | error defect =>
      rw [if_neg hdegree, hroot] at h
      cases h
    | ok depth =>
      have hd : 2 ≤ tree.degree ∧ tree.degree ≤ maxDegree := by omega
      exact ⟨hd, depth, (Node.sound_of_check hroot).1.sound⟩

/-- The check accepts the trees in order and no others. -/
theorem check_eq_ok_iff : tree.check = .ok () ↔ tree.Sound :=
  ⟨sound_of_check_eq_ok, Sound.check_eq_ok⟩

end TableStore.BTree
