import Mathlib.Data.List.TakeWhile

namespace TableStore

section

variable {α : Type} {p : α → Bool} {front rest xs : List α}

theorem takeWhile_run (hfront : ∀ x ∈ front, p x = true) (hrest : ∀ x ∈ rest.head?, p x = false) :
    (front ++ rest).takeWhile p = front := by
  rw [List.takeWhile_append_of_pos hfront]
  cases rest with
  | nil => simp
  | cons x rest => simp [hrest x rfl]

theorem dropWhile_run (hfront : ∀ x ∈ front, p x = true) (hrest : ∀ x ∈ rest.head?, p x = false) :
    (front ++ rest).dropWhile p = rest := by
  rw [List.dropWhile_append_of_pos hfront]
  cases rest with
  | nil => rfl
  | cons x rest => simp [hrest x rfl]

theorem head?_dropWhile_eq_false : ∀ x ∈ (xs.dropWhile p).head?, p x = false := by
  intro x hx
  have hnot := List.head?_dropWhile_not p xs
  rw [Option.mem_def.mp hx] at hnot
  simpa using hnot

theorem exists_run (p : α → Bool) (xs : List α) :
    ∃ front rest, xs = front ++ rest ∧ (∀ x ∈ front, p x = true) ∧
      ∀ x ∈ rest.head?, p x = false :=
  ⟨xs.takeWhile p, xs.dropWhile p, List.takeWhile_append_dropWhile.symm,
    fun _ hx ↦ List.mem_takeWhile_imp hx, head?_dropWhile_eq_false⟩

end

end TableStore
