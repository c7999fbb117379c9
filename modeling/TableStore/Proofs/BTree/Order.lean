import TableStore.BTree.Check

namespace TableStore.BTree

abbrev Ascending (keys : List Int64) : Prop := keys.Pairwise (· ≤ ·)

theorem Ascending.eq_of_perm {keys keys' : List Int64} (h : Ascending keys) (h' : Ascending keys')
    (hp : keys.Perm keys') : keys = keys' :=
  hp.eq_of_pairwise (fun _ _ _ _ ↦ Int64.le_antisymm) h h'

def sorted (keys : List Int64) : List Int64 := keys.mergeSort fun key other ↦ decide (key ≤ other)

theorem sorted_perm (keys : List Int64) : (sorted keys).Perm keys := List.mergeSort_perm _ _

theorem ascending_sorted (keys : List Int64) : Ascending (sorted keys) := by
  have h := @List.pairwise_mergeSort Int64 (fun key other ↦ decide (key ≤ other))
    (fun _ _ _ hab hbc ↦ decide_eq_true (Int64.le_trans (of_decide_eq_true hab) (of_decide_eq_true hbc)))
    (fun a b ↦ by simpa using Int64.le_total a b) keys
  exact h.imp of_decide_eq_true

theorem Ascending.eq_sorted {keys keys' : List Int64} (h : Ascending keys) (hp : keys.Perm keys') :
    keys = sorted keys' :=
  h.eq_of_perm (ascending_sorted keys') (hp.trans (sorted_perm keys').symm)

theorem Ascending.getLast?_eq_some_iff {keys : List Int64} (h : Ascending keys) {last : Int64} :
    keys.getLast? = some last ↔ last ∈ keys ∧ ∀ key ∈ keys, key ≤ last := by
  constructor
  · intro hlast
    obtain ⟨front, rfl⟩ := List.getLast?_eq_some_iff.mp hlast
    refine ⟨by simp, fun key hkey ↦ ?_⟩
    rcases List.mem_append.mp hkey with hkey | hkey
    · exact (List.pairwise_append.mp h).2.2 key hkey last (by simp)
    · rw [List.mem_singleton.mp hkey]
      exact Int64.le_refl last
  · rintro ⟨hmem, hmax⟩
    cases hl : keys.getLast? with
    | none => simp_all
    | some m =>
      obtain ⟨front, rfl⟩ := List.getLast?_eq_some_iff.mp hl
      have hm := hmax m (by simp)
      rcases List.mem_append.mp hmem with hmem | hmem
      · have hle := (List.pairwise_append.mp h).2.2 last hmem m (by simp)
        rw [Int64.le_antisymm hle hm]
      · rw [List.mem_singleton.mp hmem]

theorem isAscending_iff (keys : List Int64) : Node.isAscending keys = true ↔ Ascending keys := by
  induction keys with
  | nil => simp [Node.isAscending]
  | cons key rest ih =>
    cases rest with
    | nil => simp [Node.isAscending]
    | cons next rest =>
      simp only [Node.isAscending, Bool.and_eq_true, decide_eq_true_eq, ih]
      refine ⟨fun ⟨hle, hrest⟩ ↦ List.pairwise_cons.mpr ⟨fun other hother ↦ ?_, hrest⟩, fun h ↦ ?_⟩
      · rcases List.mem_cons.mp hother with rfl | hother
        · exact hle
        · exact Int64.le_trans hle ((List.pairwise_cons.mp hrest).1 other hother)
      · exact ⟨(List.pairwise_cons.mp h).1 next (by simp), (List.pairwise_cons.mp h).2⟩

theorem boundary_go {test : Int64 → Bool} (fuel : Nat) {front back : List Int64}
    (hf : ∀ key ∈ front, test key = true) (hb : ∀ key ∈ back, test key = false)
    (hfuel : front.length + back.length ≤ fuel) :
    boundary.go test fuel (front ++ back) = front.length := by
  induction fuel generalizing front back with
  | zero =>
    rw [List.length_eq_zero_iff.mp (by omega : front.length = 0),
      List.length_eq_zero_iff.mp (by omega : back.length = 0)]
    rfl
  | succ fuel ih =>
    by_cases hlen : front.length + back.length < 2
    · match front, back with
      | [], [] => rfl
      | [], [key] => simp [boundary.go, hb key (by simp)]
      | [key], [] => simp [boundary.go, hf key (by simp)]
      | [], _ :: _ :: _ | [_], _ :: _ | _ :: _ :: _, _ =>
        simp only [List.length_cons, List.length_nil] at hlen
        omega
    · rw [boundary.go.eq_4 _ _ _ (by intro h; simp_all) (by intro k h; simp_all [← List.length_append])]
      simp only [List.length_append]
      by_cases h : (front.length + back.length) / 2 < front.length
      · have htest : (front ++ back)[(front.length + back.length) / 2]?.any test = true := by
          rw [List.getElem?_append_left h, List.getElem?_eq_getElem h, Option.any_some]
          exact hf _ (List.getElem_mem h)
        rw [if_pos htest, List.drop_append_of_le_length (by omega),
          ih (fun key hkey ↦ hf key (List.mem_of_mem_drop hkey)) hb (by simp; omega),
          List.length_drop]
        omega
      · have h' : (front.length + back.length) / 2 - front.length < back.length := by omega
        have htest : (front ++ back)[(front.length + back.length) / 2]?.any test = false := by
          rw [List.getElem?_append_right (by omega), List.getElem?_eq_getElem h', Option.any_some]
          exact hb _ (List.getElem_mem h')
        rw [if_neg (by rw [htest]; simp), List.take_append,
          List.take_of_length_le (by omega : front.length ≤ _)]
        exact ih hf (fun key hkey ↦ hb key (List.mem_of_mem_take hkey)) (by simp; omega)

theorem boundary_append {test : Int64 → Bool} {front back : List Int64}
    (hf : ∀ key ∈ front, test key = true) (hb : ∀ key ∈ back, test key = false) :
    boundary test (front ++ back) = front.length :=
  boundary_go _ hf hb (by simp)

abbrev Downward (test : Int64 → Bool) : Prop :=
  ∀ key other, key ≤ other → test other = true → test key = true

theorem downward_le (key : Int64) : Downward (fun other ↦ decide (other ≤ key)) := by
  intro a b hab hb
  simp only [decide_eq_true_eq] at hb ⊢
  exact Int64.le_trans hab hb

theorem downward_lt (key : Int64) : Downward (fun other ↦ decide (other < key)) := by
  intro a b hab hb
  simp only [decide_eq_true_eq] at hb ⊢
  exact Int64.lt_of_le_of_lt hab hb

theorem Ascending.exists_front {keys : List Int64} (h : Ascending keys) {test : Int64 → Bool}
    (ht : Downward test) :
    ∃ front back, keys = front ++ back ∧ (∀ key ∈ front, test key = true) ∧
      ∀ key ∈ back, test key = false := by
  induction keys with
  | nil => exact ⟨[], [], rfl, by simp, by simp⟩
  | cons first rest ih =>
    have hc := List.pairwise_cons.mp h
    by_cases hfirst : test first = true
    · obtain ⟨front, back, hrest, hf, hb⟩ := ih hc.2
      refine ⟨first :: front, back, by rw [hrest]; rfl, ?_, hb⟩
      intro key hkey
      rcases List.mem_cons.mp hkey with rfl | hkey
      · exact hfirst
      · exact hf key hkey
    · refine ⟨[], first :: rest, rfl, by simp, fun key hkey ↦ ?_⟩
      rcases List.mem_cons.mp hkey with rfl | hkey
      · exact Bool.eq_false_iff.mpr hfirst
      · exact Bool.eq_false_iff.mpr fun hk ↦ hfirst (ht first key (hc.1 key hkey) hk)

/-- In ascending order the keys that pass a test come first, and the boundary is their number. -/
theorem Ascending.exists_boundary {keys : List Int64} (h : Ascending keys) {test : Int64 → Bool}
    (ht : Downward test) :
    ∃ front back, keys = front ++ back ∧ boundary test keys = front.length ∧
      (∀ key ∈ front, test key = true) ∧ ∀ key ∈ back, test key = false := by
  obtain ⟨front, back, hkeys, hf, hb⟩ := h.exists_front ht
  exact ⟨front, back, hkeys, hkeys ▸ boundary_append hf hb, hf, hb⟩

end TableStore.BTree
