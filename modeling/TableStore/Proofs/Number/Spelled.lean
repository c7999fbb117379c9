import TableStore.Number.Numeral
import TableStore.Proofs.Span
import TableStore.Proofs.Statement.Reads
import TableStore.Proofs.Token.Spelling

namespace TableStore

namespace Text

def Trims (cs core : List Char) : Prop :=
  ∃ front back, cs = front ++ core ++ back ∧ (∀ c ∈ front, isBlank c = true) ∧
    ∀ c ∈ back, isBlank c = true

theorem trims_trim (cs : List Char) : Trims cs (trim cs) := by
  obtain ⟨front, rest, rfl, hfront, hrest⟩ := exists_run isBlank cs
  obtain ⟨last, middle, hsplit, hlast, hmiddle⟩ := exists_run isBlank rest.reverse
  have htrim : trim (front ++ rest) = middle.reverse := by
    rw [trim, dropWhile_run hfront hrest, hsplit, dropWhile_run hlast hmiddle]
  refine ⟨front, last.reverse, ?_, hfront, fun c hc ↦ hlast c (List.mem_reverse.mp hc)⟩
  rw [htrim, List.append_assoc, ← List.reverse_append, ← hsplit, List.reverse_reverse]

theorem Trims.trim_eq {cs core : List Char} (h : Trims cs core) (hne : core ≠ [])
    (hcore : ∀ c ∈ core, isBlank c = false) : trim cs = core := by
  obtain ⟨front, back, rfl, hfront, hback⟩ := h
  have hfirst : ∀ c ∈ (core ++ back).head?, isBlank c = false := by
    intro c hc
    obtain ⟨first, rest, rfl⟩ := List.exists_cons_of_ne_nil hne
    obtain rfl := Option.some.inj hc
    exact hcore first List.mem_cons_self
  have hlast : ∀ c ∈ core.reverse.head?, isBlank c = false := by
    intro c hc
    exact hcore c (List.mem_reverse.mp (List.mem_of_head? hc))
  rw [trim, List.append_assoc, dropWhile_run hfront hfirst, List.reverse_append,
    dropWhile_run (fun c hc ↦ hback c (List.mem_reverse.mp hc)) hlast, List.reverse_reverse]

theorem isBlank_of_isDigit {c : Char} (h : c.isDigit = true) : isBlank c = false := by
  obtain ⟨hlow, hhigh⟩ := Token.toNat_of_isDigit h
  exact Token.isBlank_eq_false_of_lt (by omega) (by omega) (by omega)

end Text

namespace Numeral

/-- Decimal digits, perhaps after a sign, and the integer that they spell. -/
inductive Spells : List Char → Int → Prop
  | plain {digits : List Char} (hne : digits ≠ []) (h : ∀ c ∈ digits, c.isDigit = true) :
    Spells digits (value digits)
  | plus {digits : List Char} (hne : digits ≠ []) (h : ∀ c ∈ digits, c.isDigit = true) :
    Spells ('+' :: digits) (value digits)
  | minus {digits : List Char} (hne : digits ≠ []) (h : ∀ c ∈ digits, c.isDigit = true) :
    Spells ('-' :: digits) (-value digits)

theorem nat?_eq_some {cs : List Char} {n : Nat} :
    nat? cs = some n ↔ (cs ≠ [] ∧ ∀ c ∈ cs, c.isDigit = true) ∧ value cs = n := by
  simp [nat?]

theorem Spells.ne_nil {cs : List Char} {i : Int} (h : Spells cs i) : cs ≠ [] := by
  cases h with
  | plain hne => exact hne
  | plus => exact List.cons_ne_nil _ _
  | minus => exact List.cons_ne_nil _ _

theorem Spells.unique {cs : List Char} {i j : Int} (h : Spells cs i) (h' : Spells cs j) : i = j := by
  cases h with
  | plain _ hd =>
    cases h' with
    | plain => rfl
    | plus => cases hd _ List.mem_cons_self
    | minus => cases hd _ List.mem_cons_self
  | plus =>
    cases h' with
    | plain _ hd => cases hd _ List.mem_cons_self
    | plus => rfl
  | minus =>
    cases h' with
    | plain _ hd => cases hd _ List.mem_cons_self
    | minus => rfl

theorem Spells.not_blank {cs : List Char} {i : Int} (h : Spells cs i) :
    ∀ c ∈ cs, Text.isBlank c = false := by
  cases h with
  | plain _ hd => exact fun c hc ↦ Text.isBlank_of_isDigit (hd c hc)
  | plus _ hd =>
    exact List.forall_mem_cons.mpr ⟨rfl, fun c hc ↦ Text.isBlank_of_isDigit (hd c hc)⟩
  | minus _ hd =>
    exact List.forall_mem_cons.mpr ⟨rfl, fun c hc ↦ Text.isBlank_of_isDigit (hd c hc)⟩

/-- How a word is read from digits: `f` puts the sign to their number. -/
theorem nat?_bind_int64?_eq_some {digits : List Char} {f : Nat → Int} {n : Int64} :
    ((nat? digits).bind fun k ↦ int64? (f k)) = some n ↔
      (digits ≠ [] ∧ ∀ c ∈ digits, c.isDigit = true) ∧ n.toInt = f (value digits) := by
  rw [Option.bind_eq_some_iff]
  constructor
  · rintro ⟨k, hk, hn⟩
    obtain ⟨hdigits, rfl⟩ := nat?_eq_some.mp hk
    exact ⟨hdigits, int64?_eq_some.mp hn⟩
  · rintro ⟨hdigits, hn⟩
    exact ⟨value digits, nat?_eq_some.mpr ⟨hdigits, rfl⟩, int64?_eq_some.mpr hn⟩

theorem signed?_eq_some {cs : List Char} {n : Int64} :
    signed? cs = some n ↔ Spells cs n.toInt := by
  constructor
  · intro h
    rw [signed?.eq_def] at h
    split at h
    · obtain ⟨⟨hne, hd⟩, hn⟩ := nat?_bind_int64?_eq_some.mp h
      exact hn ▸ .minus hne hd
    · obtain ⟨⟨hne, hd⟩, hn⟩ := nat?_bind_int64?_eq_some.mp h
      exact hn ▸ .plus hne hd
    · obtain ⟨⟨hne, hd⟩, hn⟩ := nat?_bind_int64?_eq_some.mp h
      exact hn ▸ .plain hne hd
  · intro h
    generalize hn : n.toInt = i at h
    cases h with
    | plain hne hd =>
      -- a first digit is neither of the signs
      have hfirst : ∀ c rest, cs = c :: rest → c.isDigit = true := by
        rintro c rest rfl
        exact hd c List.mem_cons_self
      rw [signed?.eq_def]
      split
      · cases hfirst _ _ rfl
      · cases hfirst _ _ rfl
      · exact nat?_bind_int64?_eq_some.mpr ⟨⟨hne, hd⟩, hn⟩
    | plus hne hd => exact nat?_bind_int64?_eq_some.mpr ⟨⟨hne, hd⟩, hn⟩
    | minus hne hd => exact nat?_bind_int64?_eq_some.mpr ⟨⟨hne, hd⟩, hn⟩

end Numeral

end TableStore
