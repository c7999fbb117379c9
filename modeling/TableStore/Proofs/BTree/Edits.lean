import TableStore.Proofs.BTree.Check
import TableStore.Proofs.BTree.Erase

namespace TableStore.BTree

inductive Edit
  | insert (key : Int64)
  | erase (key : Int64)

namespace Edit

def apply (tree : BTree) : Edit → Except Fault BTree
  | .insert key => tree.insert key
  | .erase key => tree.erase key

/-- What a change does to the keys as a multiset, in no particular order. -/
def count (keys : List Int64) : Edit → List Int64
  | .insert key => key :: keys
  | .erase key => keys.erase key

def run (degree : Nat) (edits : List Edit) : Except Fault BTree := do
  edits.foldlM apply (← empty degree)

theorem apply_proper {tree : BTree} (h : tree.Proper) {keys : List Int64}
    (hkeys : tree.keys.Perm keys) (edit : Edit) :
    ∃ tree', apply tree edit = .ok tree' ∧ tree'.degree = tree.degree ∧ tree'.Proper ∧
      tree'.keys.Perm (edit.count keys) := by
  cases edit with
  | insert key =>
    obtain ⟨tree', hinsert, hdegree, -, hperm, hproper⟩ := h.toSound.insert key
    exact ⟨tree', hinsert, hdegree, hproper h, hperm.trans (hkeys.cons key)⟩
  | erase key =>
    obtain ⟨tree', herase, hdegree, hproper, hsame⟩ := h.erase key
    exact ⟨tree', herase, hdegree, hproper, hsame ▸ hkeys.erase key⟩

theorem foldlM_proper (edits : List Edit) {tree : BTree} (h : tree.Proper) {keys : List Int64}
    (hkeys : tree.keys.Perm keys) :
    ∃ tree', edits.foldlM apply tree = .ok tree' ∧ tree'.degree = tree.degree ∧ tree'.Proper ∧
      tree'.keys.Perm (edits.foldl count keys) := by
  induction edits generalizing tree keys with
  | nil => exact ⟨tree, rfl, rfl, h, hkeys⟩
  | cons edit edits ih =>
    obtain ⟨tree₁, happly, hdegree, hproper, hperm⟩ := apply_proper h hkeys edit
    obtain ⟨tree₂, hrest, hdegree', hproper', hperm'⟩ := ih hproper hperm
    exact ⟨tree₂, by simp [happly, hrest], hdegree'.trans hdegree, hproper', hperm'⟩

/-- Every sequence of changes of an empty tree ends, at each of its steps, in a tree in order that
holds the keys that were added and not taken away again. -/
theorem run_eq_ok {degree : Nat} (hd : 2 ≤ degree ∧ degree ≤ maxDegree) (edits : List Edit) :
    ∃ tree, run degree edits = .ok tree ∧ tree.degree = degree ∧ tree.check = .ok () ∧ tree.Proper ∧
      tree.keys = sorted (edits.foldl count []) ∧
      ∀ key, key ∉ tree.keys → tree.erase key = .ok tree := by
  obtain ⟨start, hempty, hdegree, hproper, hkeys⟩ := empty_proper hd
  obtain ⟨tree, hfold, hdegree', hproper', hperm⟩ :=
    foldlM_proper edits hproper (by simp [hkeys] : start.keys.Perm [])
  refine ⟨tree, by simp [run, hempty, hfold], hdegree'.trans hdegree, hproper'.toSound.check_eq_ok,
    hproper', hproper'.toSound.ascending.eq_sorted hperm, fun key habsent ↦ ?_⟩
  exact hproper'.toSound.erase_of_not_mem habsent

theorem run_eq_ok_copies :
    (2 ≤ 2 ∧ 2 ≤ maxDegree) ∧
      ∃ tree, run 2 [.insert 7, .insert 3, .insert 7, .insert 9, .erase 7] = .ok tree ∧
        tree.degree = 2 ∧ tree.check = .ok () ∧ tree.Proper ∧ tree.keys = sorted [9, 3, 7] ∧
        ∀ key, key ∉ tree.keys → tree.erase key = .ok tree :=
  ⟨by decide, run_eq_ok (by decide) [.insert 7, .insert 3, .insert 7, .insert 9, .erase 7]⟩

end Edit

end TableStore.BTree
