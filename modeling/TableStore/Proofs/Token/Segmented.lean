import TableStore.Proofs.Token.Spelling

namespace TableStore.Token

open Text

/-- A token as it stands in a text, and the blanks after it. -/
structure Piece where
  token : Token
  word : List Char
  blanks : List Char
  spelled : Spells token word
  blank : ∀ c ∈ blanks, isBlank c = true

namespace Piece

def joined (pieces : List Piece) : List Char := pieces.flatMap fun piece ↦ piece.word ++ piece.blanks

/-- No token of the text is continued by the character that follows it. -/
def Maximal : List Piece → Prop
  | [] => True
  | piece :: pieces => piece.token.EndsBefore (piece.blanks ++ joined pieces) ∧ Maximal pieces

variable {piece : Piece} {pieces : List Piece} {front : List Char} {fuel : Nat}

theorem joined_cons :
    joined (piece :: pieces) = piece.word ++ (piece.blanks ++ joined pieces) := by
  simp [joined]

theorem maximal_of_blanks (h : ∀ piece ∈ pieces.dropLast, piece.blanks ≠ []) : Maximal pieces := by
  induction pieces with
  | nil => trivial
  | cons piece pieces ih =>
    have hends : ∀ {rest}, piece.blanks ≠ [] → piece.token.EndsBefore (piece.blanks ++ rest) := by
      intro rest hne
      obtain ⟨c, cs, heq⟩ := List.exists_cons_of_ne_nil hne
      rw [heq, List.cons_append, endsBefore_cons]
      exact continues_of_isBlank (piece.blank c (by simp [heq]))
    cases pieces with
    | nil =>
      refine ⟨?_, trivial⟩
      by_cases hne : piece.blanks = []
      · rw [hne]
        exact endsBefore_nil _
      · exact hends hne
    | cons other pieces =>
      rw [List.dropLast_cons_cons, List.forall_mem_cons] at h
      exact ⟨hends h.1, ih h.2⟩

theorem scanAll_pieces (hfront : ∀ c ∈ front, isBlank c = true) (h : Maximal pieces)
    (hfuel : (front ++ joined pieces).length ≤ fuel) :
    scanAll fuel (front ++ joined pieces) = .ok (pieces.map token ++ [endOfInput]) := by
  induction pieces generalizing front fuel with
  | nil =>
    cases fuel with
    | zero => rfl
    | succ fuel =>
      rw [scanAll, joined, List.flatMap_nil, dropWhile_run hfront (by simp)]
      rfl
  | cons piece pieces ih =>
    obtain ⟨hends, hrest⟩ := h
    obtain ⟨c, cs, hword, hblank⟩ := piece.spelled.exists_cons
    have hone := scanOne_of_spells piece.spelled hends
    rw [joined_cons] at hfuel ⊢
    rw [hword, List.cons_append] at hfuel hone ⊢
    have hlength : (piece.blanks ++ joined pieces).length < fuel := by
      simp only [List.length_append, List.length_cons] at hfuel ⊢
      omega
    cases fuel with
    | zero => exact absurd hlength (Nat.not_lt_zero _)
    | succ fuel =>
      rw [scanAll, dropWhile_run hfront (by simp [hblank])]
      simp only [hone, ok_bind, ih piece.blank hrest (Nat.le_of_lt_succ hlength)]
      rfl

theorem exists_pieces_of_scanAll {cs : List Char} {tokens : List Token} (hfuel : cs.length ≤ fuel)
    (h : scanAll fuel cs = .ok tokens) :
    ∃ front pieces, (∀ c ∈ front, isBlank c = true) ∧ cs = front ++ joined pieces ∧
      Maximal pieces ∧ tokens = pieces.map token ++ [endOfInput] := by
  induction fuel generalizing cs tokens with
  | zero =>
    obtain rfl := List.eq_nil_of_length_eq_zero (Nat.le_zero.mp hfuel)
    cases h
    exact ⟨[], [], nofun, rfl, trivial, rfl⟩
  | succ fuel ih =>
    obtain ⟨front, tail, rfl, hfront, htail⟩ := exists_run isBlank cs
    rw [scanAll, dropWhile_run hfront htail] at h
    cases tail with
    | nil =>
      cases h
      exact ⟨front, [], hfront, rfl, trivial, rfl⟩
    | cons c tail =>
      obtain ⟨⟨token, rest⟩, hone, h⟩ := bind_eq_ok.mp h
      obtain ⟨others, hothers, h⟩ := bind_eq_ok.mp h
      obtain ⟨word, heq, hspells, hends⟩ := exists_spells_of_scanOne hone
      have hlength : rest.length ≤ fuel := by
        obtain ⟨d, ds, rfl, -⟩ := hspells.exists_cons
        rw [heq] at hfuel
        simp only [List.length_append, List.length_cons] at hfuel
        omega
      obtain ⟨blanks, pieces, hblanks, rfl, hmaximal, rfl⟩ := ih hlength hothers
      cases h
      refine ⟨front, ⟨token, word, blanks, hspells, hblanks⟩ :: pieces, hfront, ?_,
        ⟨hends, hmaximal⟩, rfl⟩
      rw [heq, joined_cons]

theorem endOfInput_notMem : endOfInput ∉ pieces.map token := by
  intro hmem
  obtain ⟨piece, -, heq⟩ := List.mem_map.mp hmem
  have hspelled := piece.spelled
  rw [heq] at hspelled
  cases hspelled

end Piece

open Piece

/-- A text is taken just when it is blanks and tokens that nothing after them continues. The end of
the input closes the tokens and is nowhere else among them. Blanks between all tokens are enough. -/
theorem scan_exact :
    (∀ text tokens, scan text = .ok tokens ↔
      ∃ front pieces, (∀ c ∈ front, isBlank c = true) ∧ text.toList = front ++ joined pieces ∧
        Maximal pieces ∧ tokens = pieces.map token ++ [endOfInput]) ∧
    (∀ text tokens, scan text = .ok tokens →
      tokens.getLast? = some endOfInput ∧ tokens.count endOfInput = 1) ∧
    ∀ front pieces, (∀ c ∈ front, isBlank c = true) →
      (∀ piece ∈ pieces.dropLast, piece.blanks ≠ []) →
      scan (String.ofList (front ++ joined pieces)) = .ok (pieces.map token ++ [endOfInput]) := by
  have hscan : ∀ text tokens, scan text = .ok tokens ↔
      ∃ front pieces, (∀ c ∈ front, isBlank c = true) ∧ text.toList = front ++ joined pieces ∧
        Maximal pieces ∧ tokens = pieces.map token ++ [endOfInput] := by
    intro text tokens
    constructor
    · exact exists_pieces_of_scanAll (Nat.le_refl _)
    · intro ⟨front, pieces, hfront, heq, hmaximal, htokens⟩
      rw [scan, heq, htokens]
      exact scanAll_pieces hfront hmaximal (Nat.le_refl _)
  refine ⟨hscan, fun text tokens h ↦ ?_, fun front pieces hfront hblanks ↦ ?_⟩
  · obtain ⟨front, pieces, -, -, -, rfl⟩ := (hscan text tokens).mp h
    have hnot := @endOfInput_notMem pieces
    simp [List.count_eq_zero_of_not_mem hnot]
  · exact (hscan _ _).mpr
      ⟨front, pieces, hfront, String.toList_ofList, maximal_of_blanks hblanks, rfl⟩

def comparison : List Piece :=
  [⟨.identifier (String.ofList ['x']), ['x'], [' '],
      .identifier (by decide +kernel) fun k ↦ by cases k <;> decide, List.all_eq_true.mp rfl⟩,
    ⟨.symbol .lowerEqual, ['<', '='], ['\u2003'], .symbol .lowerEqual, List.all_eq_true.mp rfl⟩,
    ⟨.number (Numeral.value ['1', '2']), ['1', '2'], ['\n'],
      .number (by decide) (List.all_eq_true.mp rfl) (by decide), List.all_eq_true.mp rfl⟩,
    ⟨.string (String.ofList ['<', ' ']), ['\'', '<', ' ', '\''], [], .string (by decide), nofun⟩]

theorem scan_exact_comparison :
    (∀ piece ∈ comparison.dropLast, piece.blanks ≠ []) ∧
      scan " x <=\u200312\n'< '" =
        .ok [.identifier "x", .symbol .lowerEqual, .number 12, .string "< ", .endOfInput] ∧
      List.count endOfInput
        [.identifier "x", .symbol .lowerEqual, .number 12, .string "< ", .endOfInput] = 1 := by
  have hblanks : ∀ piece ∈ comparison.dropLast, piece.blanks ≠ [] := by simp [comparison]
  have hscan := scan_exact.2.2 [' '] comparison (List.all_eq_true.mp rfl) hblanks
  exact ⟨hblanks, hscan, (scan_exact.2.1 _ _ hscan).2⟩

end TableStore.Token
