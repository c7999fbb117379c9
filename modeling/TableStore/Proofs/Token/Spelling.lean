import TableStore.Proofs.Number.Decimal
import TableStore.Proofs.Token

namespace TableStore

theorem Keyword.ofText?_eq_some {text : String} {k : Keyword} :
    Keyword.ofText? text = some k ↔ k.text = text := by
  constructor
  · intro h
    simpa using List.find?_some h
  · rintro rfl
    cases k <;> rfl

namespace Token

open Text

/-- The spellings of a token. The end of the input has none. -/
inductive Spells : Token → List Char → Prop
  | keyword (k : Keyword) : Spells (.keyword k) k.text.toList
  | identifier {word : List Char} (h : isWord word = true)
      (hfree : ∀ k : Keyword, k.text.toList ≠ word) : Spells (.identifier (String.ofList word)) word
  | number {digits : List Char} (hne : digits ≠ []) (h : ∀ c ∈ digits, c.isDigit = true)
      (hsize : Numeral.value digits < Numeral.wordLimit) :
      Spells (.number (Numeral.value digits)) digits
  | float {whole fraction : List Char} (hne : whole ≠ []) (hwhole : ∀ c ∈ whole, c.isDigit = true)
      (hfraction : ∀ c ∈ fraction, c.isDigit = true) :
      Spells (.float (Decimal.toDouble ⟨false, Numeral.value (whole ++ fraction), -fraction.length⟩))
        (whole ++ '.' :: fraction)
  | string {content : List Char} (h : '\'' ∉ content) :
      Spells (.string (String.ofList content)) ('\'' :: (content ++ ['\'']))
  | symbol (s : Symbol) : Spells (.symbol s) s.text.toList

/-- Whether a character right after a token would be read with it. -/
def continues : Token → Char → Bool
  | .keyword _, c | .identifier _, c => isWordPart c
  | .number _, c | .float _, c => c.isDigit || c = '.'
  | .symbol .lower, c => c = '=' || c = '>'
  | .symbol .greater, c => c = '='
  | _, _ => false

/-- A token ends where the rest of the text begins. -/
def EndsBefore (token : Token) (rest : List Char) : Prop :=
  ∀ c ∈ rest.head?, token.continues c = false

variable {token : Token} {c : Char} {cs word rest : List Char}

theorem isBlank_eq_false_of_lt (h : c.toNat < 0x80) (hne : c.toNat ≠ 0x20)
    (hhigh : 0xE ≤ c.toNat) : isBlank c = false := by
  rw [Bool.eq_false_iff]
  intro hblank
  obtain ⟨r, hr, hmem⟩ := List.any_eq_true.mp hblank
  simp only [Bool.and_eq_true, decide_eq_true_eq] at hmem
  have hranges : ∀ r ∈ blank, 0x80 ≤ r.1 ∨ r.2 ≤ 0xD ∨ r = (0x20, 0x20) := by decide
  rcases hranges r hr with hlow | hlow | rfl
  · omega
  · omega
  · exact hne (Nat.le_antisymm hmem.2 hmem.1)

theorem toNat_of_isDigit (h : c.isDigit = true) : 0x30 ≤ c.toNat ∧ c.toNat ≤ 0x39 := by
  simp only [Char.isDigit, Bool.and_eq_true, decide_eq_true_eq, UInt32.le_iff_toNat_le] at h
  exact h

theorem isWordStart_of_isDigit (h : c.isDigit = true) : isWordStart c = false := by
  obtain ⟨hlow, hhigh⟩ := toNat_of_isDigit h
  have hdigits : Ranges.covers [(0x30, 0x39)] c = true := by simp [Ranges.covers, hlow, hhigh]
  have halphabetic : isAlphabetic c = false := Ranges.covers_eq_false hdigits (by decide +kernel)
  have hne : c ≠ '_' := by
    rintro rfl
    exact absurd h (by decide)
  simp [isWordStart, halphabetic, hne]

theorem isBlank_of_isDigit (h : c.isDigit = true) : isBlank c = false := by
  obtain ⟨hlow, hhigh⟩ := toNat_of_isDigit h
  exact isBlank_eq_false_of_lt (by omega) (by omega) (by omega)

theorem isWordPart_of_isBlank (h : isBlank c = true) : isWordPart c = false := by
  have halphabetic : alphabetic.covers c = false := Ranges.covers_eq_false h (by decide +kernel)
  have hnumeric : numeric.covers c = false := Ranges.covers_eq_false h (by decide +kernel)
  have hne : c ≠ '_' := by
    rintro rfl
    exact absurd h (by decide)
  simp [isWordPart, isAlphanumeric, halphabetic, hnumeric, hne]

theorem continues_of_isBlank (h : isBlank c = true) : token.continues c = false := by
  have hdigit : c.isDigit = false := by
    rw [Bool.eq_false_iff]
    intro hdigit
    rw [isBlank_of_isDigit hdigit] at h
    cases h
  have hne : ∀ other ∈ ['.', '=', '>'], c ≠ other := by
    rintro other hother rfl
    have hnone : ['.', '=', '>'].all (fun other ↦ !isBlank other) = true := by decide
    have hother' := List.all_eq_true.mp hnone c hother
    simp [h] at hother'
  simp only [List.forall_mem_cons] at hne
  obtain ⟨hpoint, hequal, hgreater, -⟩ := hne
  fun_cases continues token c <;> simp [isWordPart_of_isBlank h, hdigit, hpoint, hequal, hgreater]

theorem endsBefore_nil (token : Token) : token.EndsBefore [] := nofun

theorem endsBefore_cons : token.EndsBefore (c :: rest) ↔ token.continues c = false := by
  simp [EndsBefore]

theorem symbol?_eq_some {s : Symbol} :
    symbol? cs = some (s, rest) ↔ cs = s.text.toList ++ rest ∧ EndsBefore (.symbol s) rest := by
  constructor
  · intro h
    unfold symbol? at h
    split at h <;> cases h <;> refine ⟨rfl, ?_⟩
    case h_4 hequal hgreater =>
      cases rest with
      | nil => exact endsBefore_nil _
      | cons d rest =>
        have hne : d ≠ '=' := fun heq ↦ hequal rest (heq ▸ rfl)
        have hne' : d ≠ '>' := fun heq ↦ hgreater rest (heq ▸ rfl)
        simp [endsBefore_cons, continues, hne, hne']
    case h_5 hequal =>
      cases rest with
      | nil => exact endsBefore_nil _
      | cons d rest =>
        have hne : d ≠ '=' := fun heq ↦ hequal rest (heq ▸ rfl)
        simp [endsBefore_cons, continues, hne]
    all_goals exact fun _ _ ↦ rfl
  · rintro ⟨rfl, hends⟩
    cases rest with
    | nil => cases s <;> rfl
    | cons d rest =>
      rw [endsBefore_cons] at hends
      cases s with
      | lower =>
        obtain ⟨hne, hne'⟩ : d ≠ '=' ∧ d ≠ '>' := by simpa [continues] using hends
        simp [Symbol.text, symbol?, hne, hne']
      | greater =>
        have hne : d ≠ '=' := by simpa [continues] using hends
        simp [Symbol.text, symbol?, hne]
      | _ => rfl

theorem isWord_keyword (k : Keyword) : isWord k.text.toList = true := by
  have hall : ∀ k ∈ Keyword.all, isWord k.text.toList = true := by decide +kernel
  exact hall k (by cases k <;> decide)

theorem ofWord_keyword (k : Keyword) : ofWord k.text.toList = .keyword k := by
  have hfound : Keyword.ofText? k.text = some k := Keyword.ofText?_eq_some.mpr rfl
  simp [ofWord, hfound]

theorem ofWord_free (hfree : ∀ k : Keyword, k.text.toList ≠ word) :
    ofWord word = .identifier (String.ofList word) := by
  have hnone : Keyword.ofText? (String.ofList word) = none := by
    rw [Option.eq_none_iff_forall_ne_some]
    intro k hk
    exact hfree k (by rw [Keyword.ofText?_eq_some.mp hk, String.toList_ofList])
  simp [ofWord, hnone]

theorem spells_ofWord (h : isWord word = true) : Spells (ofWord word) word := by
  by_cases hfree : ∀ k : Keyword, k.text.toList ≠ word
  · rw [ofWord_free hfree]
    exact .identifier h hfree
  · obtain ⟨k, hk⟩ := not_forall_not.mp hfree
    rw [← hk, ofWord_keyword]
    exact .keyword k

theorem continues_ofWord : (ofWord word).continues = isWordPart := by
  simp only [ofWord]
  split <;> rfl

theorem scanNumber_whole {digits : List Char} (h : ∀ c ∈ digits, c.isDigit = true)
    (hends : ∀ c ∈ rest.head?, (c.isDigit || c = '.') = false) :
    scanNumber (digits ++ rest) =
      if Numeral.value digits < Numeral.wordLimit then .ok (.number (Numeral.value digits), rest)
      else .error ⟨[.integerWord], String.ofList digits⟩ := by
  have hrest : ∀ c ∈ rest.head?, c.isDigit = false := fun c hc ↦
    (Bool.or_eq_false_iff.mp (hends c hc)).1
  rw [scanNumber, takeWhile_run h hrest, dropWhile_run h hrest]
  cases rest with
  | nil => rfl
  | cons d rest =>
    have hne : d ≠ '.' := of_decide_eq_false (Bool.or_eq_false_iff.mp (hends d rfl)).2
    simp [hne]

theorem scanNumber_point {whole fraction : List Char} (hwhole : ∀ c ∈ whole, c.isDigit = true)
    (hfraction : ∀ c ∈ fraction, c.isDigit = true)
    (hends : ∀ c ∈ rest.head?, c.isDigit = false) :
    scanNumber (whole ++ '.' :: (fraction ++ rest)) =
      if rest.head? = some '.' then
        .error ⟨[.wellFormedNumber], String.ofList (whole ++ '.' :: (fraction ++ ['.']))⟩
      else .ok (.float (Decimal.toDouble
        ⟨false, Numeral.value (whole ++ fraction), -fraction.length⟩), rest) := by
  have hpoint : ∀ c ∈ ('.' :: (fraction ++ rest)).head?, c.isDigit = false := by simp
  rw [scanNumber, takeWhile_run hwhole hpoint, dropWhile_run hwhole hpoint]
  simp only [takeWhile_run hfraction hends, dropWhile_run hfraction hends]
  cases rest with
  | nil => rfl
  | cons d rest =>
    by_cases hd : d = '.'
    · simp [hd]
    · simp [hd]

theorem scanString_quote {content : List Char} (h : '\'' ∉ content) :
    scanString (content ++ '\'' :: rest) = .ok (.string (String.ofList content), rest) := by
  have hcontent : ∀ c ∈ content, decide (c ≠ '\'') = true := fun c hc ↦
    decide_eq_true fun heq ↦ h (heq ▸ hc)
  have hends : ∀ c ∈ ('\'' :: rest).head?, decide (c ≠ '\'') = false := by simp
  rw [scanString, takeWhile_run hcontent hends, dropWhile_run hcontent hends]

theorem scanOne_symbol {s : Symbol} (h : symbol? cs = some (s, rest)) :
    scanOne cs = .ok (.symbol s, rest) := by
  cases cs with
  | nil => cases h
  | cons c cs => simp only [scanOne, h]

theorem scanOne_digit (h : c.isDigit = true) : scanOne (c :: cs) = scanNumber (c :: cs) := by
  simp only [scanOne, symbol?_of_isDigit h, isWordStart_of_isDigit h, h, if_true,
    Bool.false_eq_true, if_false]

theorem scanOne_quote : scanOne ('\'' :: cs) = scanString cs := by
  have hsymbol : symbol? ('\'' :: cs) = none := rfl
  have hstart : isWordStart '\'' = false := by decide +kernel
  have hdigit : Char.isDigit '\'' = false := by decide
  simp only [scanOne, hsymbol, hstart, hdigit, if_true, Bool.false_eq_true, if_false]

theorem scanOne_digits {digits : List Char} (hne : digits ≠ [])
    (h : ∀ c ∈ digits, c.isDigit = true) :
    scanOne (digits ++ rest) = scanNumber (digits ++ rest) := by
  cases digits with
  | nil => exact absurd rfl hne
  | cons c digits => exact scanOne_digit (h c (by simp))

/-- A spelled token is read when what follows does not continue it. -/
theorem scanOne_of_spells (h : Spells token word) (hends : EndsBefore token rest) :
    scanOne (word ++ rest) = .ok (token, rest) := by
  cases h with
  | keyword k => rw [scanOne_word (isWord_keyword k) hends, ofWord_keyword]
  | identifier hword hfree => rw [scanOne_word hword hends, ofWord_free hfree]
  | number hne hdigits hsize =>
    rw [scanOne_digits hne hdigits, scanNumber_whole hdigits hends, if_pos hsize]
  | float hne hwhole hfraction =>
    have hrest : ∀ c ∈ rest.head?, c.isDigit = false := fun c hc ↦
      (Bool.or_eq_false_iff.mp (hends c hc)).1
    have hpoint : rest.head? ≠ some '.' := fun h ↦ by cases hends '.' h
    rw [List.append_assoc, List.cons_append, scanOne_digits hne hwhole,
      scanNumber_point hwhole hfraction hrest, if_neg hpoint]
  | string hcontent =>
    rw [List.cons_append, List.append_assoc, List.singleton_append, scanOne_quote,
      scanString_quote hcontent]
  | symbol s => exact scanOne_symbol (symbol?_eq_some.mpr ⟨rfl, hends⟩)

theorem Spells.unique {other : Token} (h : Spells token word) (hother : Spells other word) :
    token = other := by
  have hscan := scanOne_of_spells h (endsBefore_nil token)
  rw [scanOne_of_spells hother (endsBefore_nil other)] at hscan
  cases hscan
  rfl

theorem Spells.exists_cons (h : Spells token word) :
    ∃ c cs, word = c :: cs ∧ isBlank c = false := by
  have hword : ∀ {word}, isWord word = true → ∃ c cs, word = c :: cs ∧ isBlank c = false := by
    intro word hword
    cases word with
    | nil => cases hword
    | cons c cs => exact ⟨c, cs, rfl, isBlank_of_isWordStart (Bool.and_eq_true_iff.mp hword).1⟩
  cases h with
  | keyword k => exact hword (isWord_keyword k)
  | identifier h hfree => exact hword h
  | number hne hdigits hsize =>
    obtain ⟨c, cs, rfl⟩ := List.exists_cons_of_ne_nil hne
    exact ⟨c, cs, rfl, isBlank_of_isDigit (hdigits c (by simp))⟩
  | float hne hwhole hfraction =>
    obtain ⟨c, cs, rfl⟩ := List.exists_cons_of_ne_nil hne
    exact ⟨c, _, rfl, isBlank_of_isDigit (hwhole c (by simp))⟩
  | string hcontent => exact ⟨'\'', _, rfl, by decide⟩
  | symbol s => cases s <;> exact ⟨_, _, rfl, by decide⟩

theorem exists_spells_of_scanNumber (hc : c.isDigit = true)
    (h : scanNumber (c :: cs) = .ok (token, rest)) :
    ∃ word, c :: cs = word ++ rest ∧ Spells token word ∧ EndsBefore token rest := by
  obtain ⟨whole, tail, heq, hwhole, htail⟩ := exists_run Char.isDigit (c :: cs)
  have hne : whole ≠ [] := by
    rintro rfl
    rw [List.nil_append] at heq
    rw [← heq] at htail
    rw [htail c rfl] at hc
    cases hc
  rw [heq] at h ⊢
  by_cases hpoint : tail.head? = some '.'
  · obtain ⟨tail, rfl⟩ : ∃ other, tail = '.' :: other := by
      cases tail with
      | nil => cases hpoint
      | cons d tail => exact ⟨tail, by rw [Option.some.inj hpoint]⟩
    obtain ⟨fraction, tail, rfl, hfraction, hends⟩ := exists_run Char.isDigit tail
    rw [scanNumber_point hwhole hfraction hends] at h
    by_cases hsecond : tail.head? = some '.'
    · rw [if_pos hsecond] at h
      cases h
    · rw [if_neg hsecond] at h
      cases h
      refine ⟨_, by simp, .float hne hwhole hfraction, fun d hd ↦ ?_⟩
      have hd' : d ≠ '.' := fun heq ↦ hsecond (heq ▸ hd)
      simp [continues, hends d hd, hd']
  · have hends : ∀ d ∈ tail.head?, (d.isDigit || d = '.') = false := by
      intro d hd
      have hd' : d ≠ '.' := fun heq ↦ hpoint (heq ▸ hd)
      simp [htail d hd, hd']
    rw [scanNumber_whole hwhole hends] at h
    split at h
    · rename_i hsize
      cases h
      exact ⟨whole, rfl, .number hne hwhole hsize, hends⟩
    · cases h

theorem exists_spells_of_scanString (h : scanString cs = .ok (token, rest)) :
    ∃ word, '\'' :: cs = word ++ rest ∧ Spells token word ∧ EndsBefore token rest := by
  obtain ⟨content, tail, rfl, hcontent, htail⟩ := exists_run (fun c ↦ decide (c ≠ '\'')) cs
  have hfree : '\'' ∉ content := fun hmem ↦ by simpa using hcontent _ hmem
  cases tail with
  | nil =>
    rw [scanString, dropWhile_run hcontent htail] at h
    cases h
  | cons d tail =>
    obtain rfl : d = '\'' := by simpa using htail d rfl
    rw [scanString_quote hfree] at h
    cases h
    exact ⟨_, by simp, .string hfree, fun _ _ ↦ rfl⟩

/-- What is read is a spelled token, and what follows does not continue it. -/
theorem exists_spells_of_scanOne (h : scanOne (c :: cs) = .ok (token, rest)) :
    ∃ word, c :: cs = word ++ rest ∧ Spells token word ∧ EndsBefore token rest := by
  cases hsymbol : symbol? (c :: cs) with
  | some found =>
    obtain ⟨s, tail⟩ := found
    rw [scanOne_symbol hsymbol] at h
    cases h
    obtain ⟨heq, hends⟩ := symbol?_eq_some.mp hsymbol
    exact ⟨_, heq, .symbol s, hends⟩
  | none =>
    by_cases hstart : isWordStart c = true
    · obtain ⟨word, tail, heq, hword, htail⟩ := exists_run isWordPart (c :: cs)
      have hisWord : isWord word = true := by
        cases word with
        | nil =>
          rw [List.nil_append] at heq
          rw [← heq] at htail
          exact absurd (isWordPart_of_isWordStart hstart) (by simp [htail c rfl])
        | cons d word =>
          obtain ⟨rfl, -⟩ := List.cons.inj heq
          exact Bool.and_eq_true_iff.mpr
            ⟨hstart, List.all_eq_true.mpr (List.forall_mem_cons.mp hword).2⟩
      rw [heq, scanOne_word hisWord htail] at h
      cases h
      refine ⟨word, heq, spells_ofWord hisWord, ?_⟩
      rw [EndsBefore, continues_ofWord]
      exact htail
    · by_cases hdigit : c.isDigit = true
      · rw [scanOne_digit hdigit] at h
        exact exists_spells_of_scanNumber hdigit h
      · by_cases hquote : c = '\''
        · subst hquote
          rw [scanOne_quote] at h
          exact exists_spells_of_scanString h
        · simp only [scanOne, hsymbol, hstart, hdigit, hquote, if_false] at h
          cases h

end Token

end TableStore
