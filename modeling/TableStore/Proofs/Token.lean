import TableStore.Proofs.Result
import TableStore.Proofs.Span
import TableStore.Token.Lexer

namespace TableStore

namespace Text

theorem Ranges.covers_eq_false {ranges others : Ranges} {c : Char} (h : ranges.covers c = true)
    (hapart : ∀ r ∈ ranges, ∀ other ∈ others, r.2 < other.1 ∨ other.2 < r.1) :
    others.covers c = false := by
  rw [Bool.eq_false_iff]
  intro hcovers
  obtain ⟨r, hr, hmem⟩ := List.any_eq_true.mp h
  obtain ⟨other, hother, hmem'⟩ := List.any_eq_true.mp hcovers
  simp only [Bool.and_eq_true, decide_eq_true_eq] at hmem hmem'
  have := hapart r hr other hother
  omega

end Text

namespace Token

open Text

/-- Whether characters are read as one word. -/
def isWord : List Char → Bool
  | [] => false
  | c :: cs => isWordStart c && cs.all isWordPart

variable {c : Char} {cs word rest : List Char}

theorem isBlank_of_isWordStart (h : isWordStart c = true) : isBlank c = false := by
  rcases Bool.or_eq_true_iff.mp h with halphabetic | hunderscore
  · exact Ranges.covers_eq_false halphabetic (by decide +kernel)
  · rw [of_decide_eq_true hunderscore]
    decide

theorem symbol?_of_kind {kind : Char → Bool} (h : kind c = true)
    (hkind : ['<', '>', '(', ')', ',', ';', '*', '+', '-', '/', '='].all (!kind ·) = true) :
    symbol? (c :: cs) = none := by
  have hne : ∀ other ∈ ['<', '>', '(', ')', ',', ';', '*', '+', '-', '/', '='], c ≠ other := by
    rintro other hother rfl
    have hother' := List.all_eq_true.mp hkind c hother
    simp [h] at hother'
  simp only [List.forall_mem_cons] at hne
  obtain ⟨h1, h2, h3, h4, h5, h6, h7, h8, h9, h10, h11, -⟩ := hne
  unfold symbol?
  split <;> simp_all

theorem symbol?_of_isWordStart (h : isWordStart c = true) : symbol? (c :: cs) = none :=
  symbol?_of_kind h (by decide +kernel)

theorem symbol?_of_isDigit (h : c.isDigit = true) : symbol? (c :: cs) = none :=
  symbol?_of_kind h (by decide)

theorem isWordPart_of_isWordStart (h : isWordStart c = true) : isWordPart c = true := by
  rcases Bool.or_eq_true_iff.mp h with halphabetic | hunderscore
  · rw [isAlphabetic] at halphabetic
    simp [isWordPart, isAlphanumeric, halphabetic]
  · simp [isWordPart, hunderscore]

theorem isWordPart_of_isWord (h : isWord word = true) : ∀ c ∈ word, isWordPart c = true := by
  cases word with
  | nil => cases h
  | cons c cs =>
    obtain ⟨hstart, hparts⟩ := Bool.and_eq_true_iff.mp h
    exact List.forall_mem_cons.mpr ⟨isWordPart_of_isWordStart hstart, List.all_eq_true.mp hparts⟩

theorem scanOne_word (h : isWord word = true) (hends : ∀ c ∈ rest.head?, isWordPart c = false) :
    scanOne (word ++ rest) = .ok (ofWord word, rest) := by
  have hparts := isWordPart_of_isWord h
  have htake := takeWhile_run hparts hends
  have hdrop := dropWhile_run hparts hends
  cases word with
  | nil => cases h
  | cons d cs =>
    have hstart : isWordStart d = true := (Bool.and_eq_true_iff.mp h).1
    rw [List.cons_append] at htake hdrop ⊢
    simp only [scanOne, symbol?_of_isWordStart hstart, hstart, if_true, htake, hdrop]

theorem scanAll_word (h : isWord word = true) (hc : isWordPart c = false) (fuel : Nat) :
    scanAll (fuel + 1) (word ++ c :: rest) =
      (scanAll fuel (c :: rest)).map (ofWord word :: ·) := by
  have hone : scanOne (word ++ c :: rest) = .ok (ofWord word, c :: rest) :=
    scanOne_word h (by simp [hc])
  cases word with
  | nil => cases h
  | cons d cs =>
    have hstart : isWordStart d = true := (Bool.and_eq_true_iff.mp h).1
    rw [List.cons_append] at hone ⊢
    rw [scanAll, List.dropWhile_cons_of_neg (by simp [isBlank_of_isWordStart hstart])]
    simp only [hone, ok_bind]
    cases scanAll fuel (c :: rest) <;> rfl

theorem scanAll_blank (h : isBlank c = true) (fuel : Nat) :
    scanAll fuel (c :: cs) = scanAll fuel cs := by
  cases fuel with
  | zero => rfl
  | succ fuel => rw [scanAll, scanAll, List.dropWhile_cons_of_pos h]

theorem scanAll_symbol {s : Symbol} (hblank : isBlank c = false)
    (h : symbol? (c :: cs) = some (s, rest)) (fuel : Nat) :
    scanAll (fuel + 1) (c :: cs) = (scanAll fuel rest).map (.symbol s :: ·) := by
  rw [scanAll, List.dropWhile_cons_of_neg (by simp [hblank])]
  simp only [scanOne, h, ok_bind]
  cases scanAll fuel rest <;> rfl

end Token

end TableStore
