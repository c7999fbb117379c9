import TableStore.Proofs.Result
import TableStore.Proofs.Statement.Grammar
import TableStore.Statement.Phrase

namespace TableStore

theorem Numeral.int64?_eq_some {z : Int} {i : Int64} : int64? z = some i ↔ i.toInt = z := by
  constructor
  · intro h
    rw [int64?] at h
    split at h
    · rename_i hz
      obtain rfl := Option.some.inj h
      exact Int64.toInt_ofInt_of_le hz.1 (Int.lt_of_le_of_lt hz.2 (by decide))
    · cases h
  · rintro rfl
    exact int64?_toInt i

namespace Phrase

variable {α β : Type} {p : Phrase α} {f : α → Phrase β} {tokens rest : List Token} {b : β}

theorem run_bind (p : Phrase α) (f : α → Phrase β) (tokens : List Token) :
    (p >>= f) tokens = p tokens >>= fun (a, rest) ↦ f a rest := rfl

theorem run_bind_eq_ok : (p >>= f) tokens = .ok (b, rest) ↔
    ∃ a middle, p tokens = .ok (a, middle) ∧ f a middle = .ok (b, rest) := by
  refine bind_eq_ok.trans ?_
  exact Prod.exists

theorem run_pure (a : α) (tokens : List Token) :
    (pure a : Phrase α) tokens = .ok (a, tokens) := rfl

theorem run_pure_eq_ok {a a' : α} :
    (pure a : Phrase α) tokens = .ok (a', rest) ↔ a = a' ∧ tokens = rest := by
  rw [run_pure, Except.ok.injEq, Prod.mk.injEq]

theorem run_current_bind (f : Token → Phrase β) (tokens : List Token) :
    (current >>= f) tokens = f (tokens.headD .endOfInput) tokens := rfl

theorem run_advance_bind (f : Unit → Phrase β) (tokens : List Token) :
    (advance >>= f) tokens = f () tokens.tail := rfl

theorem run_unexpected (expected : List Expectation) (tokens : List Token) :
    (unexpected expected : Phrase α) tokens =
      .error ⟨expected, (tokens.headD .endOfInput).display⟩ := rfl

theorem consume_eq_ok {t : Token} (h : t ≠ .endOfInput) {u : Unit} :
    consume t tokens = .ok (u, rest) ↔ tokens = t :: rest := by
  rw [consume, run_current_bind]
  cases tokens with
  | nil => simp [run_unexpected, h.symm]
  | cons t' ts => by_cases ht : t' = t <;> simp [advance, run_unexpected, ht]

theorem keyword_eq_ok {k : Keyword} {u : Unit} :
    keyword k tokens = .ok (u, rest) ↔ tokens = .keyword k :: rest :=
  consume_eq_ok (t := .keyword k) nofun

theorem symbol_eq_ok {s : Symbol} {u : Unit} :
    symbol s tokens = .ok (u, rest) ↔ tokens = .symbol s :: rest :=
  consume_eq_ok (t := .symbol s) nofun

theorem accept_eq_ok {t : Token} (h : t ≠ .endOfInput) {found : Bool} :
    accept t tokens = .ok (found, rest) ↔
      found = true ∧ tokens = t :: rest ∨
        found = false ∧ tokens.head? ≠ some t ∧ tokens = rest := by
  rw [accept, run_current_bind]
  cases tokens with
  | nil => simp [run_pure, h.symm, eq_comm]
  | cons t' ts =>
    by_cases ht : t' = t
    · simp [run_advance_bind, run_pure, ht, eq_comm, -bind_pure_comp]
    · cases found <;> simp [run_pure, ht]

theorem acceptKeyword_eq_ok {k : Keyword} {found : Bool} :
    accept (.keyword k) tokens = .ok (found, rest) ↔
      found = true ∧ tokens = .keyword k :: rest ∨
        found = false ∧ tokens.head? ≠ some (.keyword k) ∧ tokens = rest :=
  accept_eq_ok (t := .keyword k) nofun

theorem acceptSymbol_eq_ok {s : Symbol} {found : Bool} :
    accept (.symbol s) tokens = .ok (found, rest) ↔
      found = true ∧ tokens = .symbol s :: rest ∨
        found = false ∧ tokens.head? ≠ some (.symbol s) ∧ tokens = rest :=
  accept_eq_ok (t := .symbol s) nofun

theorem identifier_eq_ok {name : String} :
    identifier tokens = .ok (name, rest) ↔ tokens = .identifier name :: rest := by
  rw [identifier, run_current_bind]
  cases tokens with
  | nil => simp [run_unexpected]
  | cons t ts => cases t <;> simp [run_unexpected, run_advance_bind, run_pure, -bind_pure_comp]

theorem dataType?_eq_some {t : Token} {type : DataType} :
    dataType? t = some type ↔ t = .keyword type.keyword := by
  rcases t with ⟨_ | _⟩ | _ <;> cases type <;> simp [dataType?, DataType.keyword]

theorem dataType_eq_ok {type : DataType} :
    dataType tokens = .ok (type, rest) ↔ tokens = .keyword type.keyword :: rest := by
  rw [dataType, run_current_bind]
  constructor
  · intro h
    cases htype : dataType? (tokens.headD .endOfInput) with
    | none =>
      rw [htype] at h
      cases h
    | some found =>
      rw [htype] at h
      cases h
      cases tokens with
      | nil => cases htype
      | cons t ts => rw [← dataType?_eq_some.mp htype, List.headD_cons, List.tail_cons]
  · rintro rfl
    rw [List.headD_cons, dataType?_eq_some.mpr rfl]
    rfl

theorem operator?_eq_some {t : Token} {op : Operator} :
    operator? t = some op ↔ t = .symbol op.symbol := by
  rcases t with _ | ⟨_ | _⟩ | _ <;> cases op <;> simp [operator?, Operator.symbol]

/-- What a phrase reads is what the tokens in front spell, if the tokens after them end it. -/
def Reads (p : Phrase α) (spells : List Token → α → Prop) (ends : α → List Token → Prop) : Prop :=
  ∀ tokens a rest, p tokens = .ok (a, rest) ↔
    ∃ front, tokens = front ++ rest ∧ spells front a ∧ ends a rest

theorem keyword_bind_eq_ok {k : Keyword} {f : Unit → Phrase β} :
    (keyword k >>= f) tokens = .ok (b, rest) ↔
      ∃ after, tokens = .keyword k :: after ∧ f () after = .ok (b, rest) := by
  simp only [run_bind_eq_ok, keyword_eq_ok]
  exact ⟨fun ⟨⟨⟩, h⟩ ↦ h, fun h ↦ ⟨(), h⟩⟩

theorem symbol_bind_eq_ok {s : Symbol} {f : Unit → Phrase β} :
    (symbol s >>= f) tokens = .ok (b, rest) ↔
      ∃ after, tokens = .symbol s :: after ∧ f () after = .ok (b, rest) := by
  simp only [run_bind_eq_ok, symbol_eq_ok]
  exact ⟨fun ⟨⟨⟩, h⟩ ↦ h, fun h ↦ ⟨(), h⟩⟩

theorem identifier_bind_eq_ok {f : String → Phrase β} :
    (identifier >>= f) tokens = .ok (b, rest) ↔
      ∃ name after, tokens = .identifier name :: after ∧ f name after = .ok (b, rest) := by
  simp only [run_bind_eq_ok, identifier_eq_ok]

theorem Reads.bind_eq_ok {spells : List Token → α → Prop} {ends : α → List Token → Prop}
    (h : p.Reads spells ends) : (p >>= f) tokens = .ok (b, rest) ↔
      ∃ front a after, tokens = front ++ after ∧ spells front a ∧ ends a after ∧
        f a after = .ok (b, rest) := by
  rw [run_bind_eq_ok]
  constructor
  · rintro ⟨a, after, ha, hrest⟩
    obtain ⟨front, rfl, hspells, hends⟩ := (h _ _ _).mp ha
    exact ⟨front, a, after, rfl, hspells, hends, hrest⟩
  · rintro ⟨front, a, after, rfl, hspells, hends, hrest⟩
    exact ⟨a, after, (h _ _ _).mpr ⟨front, rfl, hspells, hends⟩, hrest⟩

theorem identifier_reads : identifier.Reads Grammar.Name fun _ _ ↦ True := by
  intro tokens name rest
  rw [identifier_eq_ok]
  constructor
  · rintro rfl
    exact ⟨_, rfl, .mk name, trivial⟩
  · rintro ⟨front, rfl, ⟨name⟩, -⟩
    rfl

theorem negative_eq_ok {v : Value} : negative tokens = .ok (v, rest) ↔
    (∃ (n : Nat) (i : Int64), i.toInt = -n ∧ v = .int i ∧ tokens = .number n :: rest) ∨
      ∃ x : Double, v = .float x.neg ∧ tokens = .float x :: rest := by
  rw [negative, run_current_bind]
  constructor
  · intro h
    rcases tokens with _ | ⟨t, ts⟩
    · cases h
    · cases t with
      | number n =>
        rw [List.headD_cons] at h
        simp only at h
        cases hi : Numeral.int64? (-(n : Int)) with
        | none =>
          rw [hi] at h
          cases h
        | some i =>
          rw [hi] at h
          cases h
          exact .inl ⟨n, i, Numeral.int64?_eq_some.mp hi, rfl, rfl⟩
      | float x =>
        cases h
        exact .inr ⟨x, rfl, rfl⟩
      | _ => cases h
  · rintro (⟨n, i, hi, rfl, rfl⟩ | ⟨x, rfl, rfl⟩)
    · simp only [List.headD_cons, Numeral.int64?_eq_some.mpr hi]
      rfl
    · rfl

theorem literal_reads : literal.Reads Grammar.Literal fun _ _ ↦ True := by
  intro tokens v rest
  rw [literal, run_current_bind]
  constructor
  · intro h
    rcases tokens with _ | ⟨t, ts⟩
    · cases h
    · rw [List.headD_cons] at h
      cases t with
      | number n =>
        simp only at h
        cases hi : Numeral.int64? (n : Int) with
        | none =>
          rw [hi] at h
          cases h
        | some i =>
          rw [hi] at h
          cases h
          exact ⟨_, rfl, .int (Numeral.int64?_eq_some.mp hi), trivial⟩
      | float x =>
        cases h
        exact ⟨_, rfl, .float x, trivial⟩
      | string s =>
        cases h
        refine ⟨[.string s], rfl, ?_, trivial⟩
        rw [quotedValue]
        cases ht : Timestamp.ofText? s with
        | none => exact .text ht
        | some t => exact .datetime ht
      | keyword k =>
        cases k with
        | true =>
          cases h
          exact ⟨_, rfl, .yes, trivial⟩
        | false =>
          cases h
          exact ⟨_, rfl, .no, trivial⟩
        | null =>
          cases h
          exact ⟨_, rfl, .null, trivial⟩
        | _ => cases h
      | symbol s =>
        cases s with
        | minus =>
          rcases negative_eq_ok.mp h with ⟨n, i, hi, rfl, hts⟩ | ⟨x, rfl, hts⟩
          · exact ⟨_, congrArg (_ :: ·) hts, .negativeInt hi, trivial⟩
          · exact ⟨_, congrArg (_ :: ·) hts, .negativeFloat x, trivial⟩
        | _ => cases h
      | _ => cases h
  · rintro ⟨front, rfl, h, -⟩
    cases h with
    | int hi =>
      simp only [List.singleton_append, List.headD_cons, Numeral.int64?_eq_some.mpr hi]
      rfl
    | negativeInt hi => exact negative_eq_ok.mpr (.inl ⟨_, _, hi, rfl, rfl⟩)
    | negativeFloat x => exact negative_eq_ok.mpr (.inr ⟨x, rfl, rfl⟩)
    | @text s hs =>
      show Except.ok (quotedValue s, rest) = _
      rw [quotedValue, hs]
    | @datetime s t hs =>
      show Except.ok (quotedValue s, rest) = _
      rw [quotedValue, hs]
    | _ => rfl

example : literal [.symbol .minus, .number (2 ^ 63)] = .ok (.int Int64.minValue, []) := rfl

example : literal [.number (2 ^ 63)] = .error ⟨[.integerWord], "9223372036854775808"⟩ := rfl

theorem separated_ne_nil {spells : List Token → α → Prop} {front : List Token} {as : List α}
    (h : Grammar.Separated spells front as) : as ≠ [] := by
  cases h <;> exact nofun

/-- Each further item takes the comma before it, so that the fuel never runs out. -/
theorem separatedWithin_eq_ok {item : Phrase α} {spells : List Token → α → Prop}
    {ends : α → List Token → Prop} (h : item.Reads spells ends)
    (hcomma : ∀ a rest, ends a (.symbol .comma :: rest)) {fuel : Nat} {as : List α}
    (hfuel : tokens.length < fuel) :
    separatedWithin item fuel tokens = .ok (as, rest) ↔
      ∃ front, tokens = front ++ rest ∧ Grammar.Separated spells front as ∧
        (∀ a ∈ as.getLast?, ends a rest) ∧ rest.head? ≠ some (.symbol .comma) := by
  induction fuel generalizing tokens as with
  | zero => omega
  | succ fuel ih =>
    rw [separatedWithin, run_bind_eq_ok]
    constructor
    · rintro ⟨a, middle, hitem, hrun⟩
      obtain ⟨front, rfl, hspells, hends⟩ := (h _ _ _).mp hitem
      obtain ⟨found, after, hfound, hnext⟩ := run_bind_eq_ok.mp hrun
      rcases acceptSymbol_eq_ok.mp hfound with ⟨rfl, rfl⟩ | ⟨rfl, hnone, rfl⟩
      · rw [if_pos rfl] at hnext
        obtain ⟨others, rest', hothers, hpure⟩ := run_bind_eq_ok.mp hnext
        obtain ⟨rfl, rfl⟩ := run_pure_eq_ok.mp hpure
        simp only [List.length_append, List.length_cons] at hfuel
        obtain ⟨back, rfl, hback, hlast, hnone⟩ := (ih (by omega)).mp hothers
        refine ⟨front ++ .symbol .comma :: back, by simp, .cons hspells hback, ?_, hnone⟩
        obtain ⟨b, bs, rfl⟩ := List.exists_cons_of_ne_nil (separated_ne_nil hback)
        rwa [List.getLast?_cons_cons]
      · rw [if_neg nofun] at hnext
        obtain ⟨rfl, rfl⟩ := run_pure_eq_ok.mp hnext
        refine ⟨front, rfl, .single hspells, ?_, hnone⟩
        rintro b hb
        obtain rfl : a = b := by simpa using hb
        exact hends
    · rintro ⟨front, rfl, hspells, hlast, hnone⟩
      cases hspells with
      | @single _ a hitem =>
        refine ⟨a, rest, (h _ _ _).mpr ⟨front, rfl, hitem, hlast a rfl⟩, ?_⟩
        rw [run_bind_eq_ok]
        exact ⟨false, rest, acceptSymbol_eq_ok.mpr (.inr ⟨rfl, hnone, rfl⟩), rfl⟩
      | @cons ts us a others hitem hothers =>
        refine ⟨a, .symbol .comma :: (us ++ rest),
          (h _ _ _).mpr ⟨ts, by simp, hitem, hcomma a _⟩, ?_⟩
        rw [run_bind_eq_ok]
        refine ⟨true, us ++ rest, acceptSymbol_eq_ok.mpr (.inl ⟨rfl, rfl⟩), ?_⟩
        simp only [List.length_append, List.length_cons] at hfuel
        obtain ⟨b, bs, rfl⟩ := List.exists_cons_of_ne_nil (separated_ne_nil hothers)
        rw [List.getLast?_cons_cons] at hlast
        have hrest := (ih (by simp only [List.length_append]; omega)).mpr
          ⟨us, rfl, hothers, hlast, hnone⟩
        rw [if_pos rfl, run_bind_eq_ok]
        exact ⟨_, _, hrest, rfl⟩

theorem Reads.separated {item : Phrase α} {spells : List Token → α → Prop}
    {ends : α → List Token → Prop} (h : item.Reads spells ends)
    (hcomma : ∀ a rest, ends a (.symbol .comma :: rest)) :
    (separated item).Reads (Grammar.Separated spells) fun as rest ↦
      (∀ a ∈ as.getLast?, ends a rest) ∧ rest.head? ≠ some (.symbol .comma) :=
  fun _ _ _ ↦ separatedWithin_eq_ok h hcomma (Nat.lt_succ_self _)

theorem Reads.parenthesized {p : Phrase α} {spells : List Token → α → Prop}
    {ends : α → List Token → Prop} (h : p.Reads spells ends)
    (hparen : ∀ a rest, ends a (.symbol .rightParen :: rest)) :
    (parenthesized p).Reads (fun front a ↦ ∃ ts, front = Grammar.parenthesized ts ∧ spells ts a)
      fun _ _ ↦ True := by
  intro tokens a rest
  rw [Phrase.parenthesized, symbol_bind_eq_ok]
  constructor
  · rintro ⟨_, rfl, hrun⟩
    obtain ⟨ts, _, _, rfl, hspells, -, hrun⟩ := h.bind_eq_ok.mp hrun
    obtain ⟨_, rfl, hpure⟩ := symbol_bind_eq_ok.mp hrun
    obtain ⟨rfl, rfl⟩ := run_pure_eq_ok.mp hpure
    exact ⟨_, by simp [Grammar.parenthesized], ⟨ts, rfl, hspells⟩, trivial⟩
  · rintro ⟨_, rfl, ⟨ts, rfl, hspells⟩, -⟩
    refine ⟨ts ++ .symbol .rightParen :: rest, by simp [Grammar.parenthesized], ?_⟩
    refine h.bind_eq_ok.mpr ⟨ts, a, _, rfl, hspells, hparen a rest, ?_⟩
    exact symbol_bind_eq_ok.mpr ⟨rest, rfl, rfl⟩

theorem Reads.parenthesizedList {item : Phrase α} {spells : List Token → α → Prop}
    {ends : α → List Token → Prop} (h : item.Reads spells ends)
    (hcomma : ∀ a rest, ends a (.symbol .comma :: rest))
    (hparen : ∀ a rest, ends a (.symbol .rightParen :: rest)) :
    (Phrase.parenthesized (Phrase.separated item)).Reads
      (fun front as ↦ ∃ ts, front = Grammar.parenthesized ts ∧ Grammar.Separated spells ts as)
      fun _ _ ↦ True :=
  (h.separated hcomma).parenthesized fun _ rest ↦ ⟨fun a _ ↦ hparen a rest, nofun⟩

end Phrase

end TableStore
