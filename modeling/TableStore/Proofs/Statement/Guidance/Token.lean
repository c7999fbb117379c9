import TableStore.Proofs.Statement.Column
import TableStore.Proofs.Statement.Guidance

namespace TableStore.Phrase

open Expectation (Settle)

variable {α β : Type} {tokens rest : List Token} {k t : Token} {pre : Token → Prop}

/-- A phrase that makes something of the token in front and takes it, or stops there. -/
structure Single (p : Phrase α) (take : Token → Option α) (stop : Token → SyntaxError) : Prop where
  run : ∀ tokens : List Token, p tokens = match take (tokens.headD .endOfInput) with
    | some a => .ok (a, tokens.tail)
    | none => .error (stop (tokens.headD .endOfInput))
  take_end : take .endOfInput = none
  reports : ∀ t, take t = none → (stop t).Reports t

section

variable {p : Phrase α} {f : α → Phrase β} {take : Token → Option α} {stop : Token → SyntaxError}
  {a : α}

theorem Single.run_some (hp : p.Single take stop) (ht : take t = some a) (rest : List Token) :
    (p >>= f) (t :: rest) = f a rest := by
  rw [run_bind, hp.run, List.headD_cons, ht]
  rfl

theorem Single.run_none (hp : p.Single take stop) (ht : take (tokens.headD .endOfInput) = none) :
    (p >>= f) tokens = .error (stop (tokens.headD .endOfInput)) := by
  rw [run_bind, hp.run, ht]
  rfl

theorem Single.goesOn_iff (hp : p.Single take stop) (hlive : ∀ a, (f a).Live) :
    (p >>= f).GoesOn [] k ↔ (take k).isSome := by
  cases ht : take k with
  | none =>
    simp only [Option.isSome_none, Bool.false_eq_true, iff_false]
    rintro ⟨more, found, hrun⟩
    have hhead : take ((k :: more).headD .endOfInput) = none := ht
    rw [List.nil_append, hp.run_none hhead] at hrun
    cases hrun
  | some a =>
    obtain ⟨more, found, hrun⟩ := hlive a
    simp only [Option.isSome_some, iff_true]
    exact ⟨more, found, by rw [List.nil_append, hp.run_some ht, hrun]⟩

theorem Guided.single (hp : p.Single take stop) (hlive : ∀ a, (f a).Live)
    (hsettle : take (tokens.headD .endOfInput) = none →
      Settle (stop (tokens.headD .endOfInput)).expected fun k ↦ (take k).isSome ∨ pre k)
    (h : ∀ a (rest : List Token), rest.length < tokens.length → (f a).Guided NoToken rest) :
    (p >>= f).Guided pre tokens := by
  cases ht : take (tokens.headD .endOfInput) with
  | none =>
    refine .here (fun rest hrest ↦ ?_) (hp.reports _ ht) ?_
    · rw [hp.run_none (hrest ▸ ht), hrest]
    · simpa only [hp.goesOn_iff hlive] using hsettle ht
  | some a =>
    cases tokens with
    | nil => cases ht.symm.trans hp.take_end
    | cons t rest => exact .next (hp.run_some ht) (h a rest (Nat.lt_succ_self _))

end

theorem single_consume (ht : t ≠ .endOfInput) : (consume t).Single
    (fun k ↦ if k = t then some () else none) fun k ↦ ⟨[.token t], k.display⟩ where
  run tokens := by
    rw [consume, run_current_bind]
    by_cases hhead : tokens.headD .endOfInput = t
    · rw [if_pos hhead, if_pos hhead]
      rfl
    · rw [if_neg hhead, if_neg hhead]
      rfl
  take_end := if_neg ht.symm
  reports _ _ := .inl rfl

def identifier? : Token → Option String
  | .identifier name => some name
  | _ => none

theorem single_identifier :
    identifier.Single identifier? fun k ↦ ⟨[.identifier], k.display⟩ where
  run tokens := by
    rcases tokens with _ | ⟨t, rest⟩
    · rfl
    · cases t <;> rfl
  take_end := rfl
  reports _ _ := .inl rfl

theorem single_dataType : dataType.Single dataType? fun k ↦
    ⟨[.token (.keyword .int), .token (.keyword .float), .token (.keyword .bool),
      .token (.keyword .string), .token (.keyword .datetime)], k.display⟩ where
  run tokens := by
    rw [dataType, run_current_bind]
    cases dataType? (tokens.headD .endOfInput) <;> rfl
  take_end := rfl
  reports _ _ := .inl rfl

def negative? : Token → Option Value
  | .number n => (Numeral.int64? (-(n : Int))).map .int
  | .float x => some (.float x.neg)
  | _ => none

theorem single_negative : negative.Single negative? fun
    | .number n => ⟨[.integerWord], String.ofList ('-' :: Numeral.ofNat n)⟩
    | k => ⟨[.number], k.display⟩ where
  run tokens := by
    rcases tokens with _ | ⟨t, rest⟩
    · rfl
    · cases t with
      | number n =>
        rw [negative, run_current_bind, List.headD_cons, negative?]
        dsimp only
        cases Numeral.int64? (-(n : Int)) <;> rfl
      | _ => rfl
  take_end := rfl
  reports t _ := by
    cases t with
    | number n => exact .inr ⟨n, rfl, rfl⟩
    | _ => exact .inl rfl

def plain? : Token → Option Value
  | .number n => (Numeral.int64? (n : Int)).map .int
  | .float x => some (.float x)
  | .string s => some (quotedValue s)
  | .keyword .true => some (.bool true)
  | .keyword .false => some (.bool false)
  | .keyword .null => some .null
  | _ => none

def plainError : Token → SyntaxError
  | .number n => ⟨[.integerWord], String.ofList (Numeral.ofNat n)⟩
  | k => ⟨[.literal], k.display⟩

def plain : Phrase Value := fun tokens ↦
  match plain? (tokens.headD .endOfInput) with
  | some v => .ok (v, tokens.tail)
  | none => .error (plainError (tokens.headD .endOfInput))

theorem single_plain : plain.Single plain? plainError where
  run tokens := by
    rw [plain]
    cases plain? (tokens.headD .endOfInput) <;> rfl
  take_end := rfl
  reports t _ := by cases t <;> exact .inl rfl

theorem literal_eq_plain (h : tokens.headD .endOfInput ≠ .symbol .minus) :
    literal tokens = plain tokens := by
  rcases tokens with _ | ⟨t, rest⟩
  · rfl
  · rw [literal, run_current_bind, List.headD_cons, plain, List.headD_cons]
    cases t with
    | number n =>
      rw [plain?]
      dsimp only
      cases Numeral.int64? (n : Int) <;> rfl
    | keyword k => cases k <;> rfl
    | symbol s => cases s <;> first | rfl | exact absurd rfl h
    | _ => rfl

theorem run_literal_minus (f : Value → Phrase β) (rest : List Token) :
    (literal >>= f) (.symbol .minus :: rest) = (negative >>= f) rest := rfl

theorem isSome_int64?_iff {i : Int} :
    (Numeral.int64? i).isSome ↔ Int64.minValue.toInt ≤ i ∧ i ≤ Int64.maxValue.toInt := by
  rw [Numeral.int64?]
  split <;> simp_all

theorem int64_bounds : 0 ≤ Int64.maxValue.toInt ∧
    Int64.minValue.toInt = -(Int64.maxValue.toInt + 1) := ⟨by decide, rfl⟩

theorem covers_literal :
    Expectation.literal.covers k = true ↔ (plain? k).isSome ∨ k = .symbol .minus := by
  cases k with
  | number n =>
    have hbounds := int64_bounds
    simp only [Expectation.covers, plain?, Option.isSome_map, isSome_int64?_iff, decide_eq_true_eq,
      reduceCtorEq, or_false]
    omega
  | keyword k => cases k <;> simp [Expectation.covers, plain?, startsLiteral]
  | symbol s => cases s <;> simp [Expectation.covers, plain?, startsLiteral]
  | _ => simp [Expectation.covers, plain?, startsLiteral]

theorem covers_number : Expectation.number.covers k = true ↔ (negative? k).isSome := by
  cases k with
  | number n =>
    have hbounds := int64_bounds
    simp only [Expectation.covers, negative?, Option.isSome_map, isSome_int64?_iff,
      decide_eq_true_eq]
    omega
  | _ => simp [Expectation.covers, negative?]

theorem goesOn_consume {q : Phrase β} (h : q.Live) : (consume t >>= fun _ ↦ q).GoesOn [] t := by
  obtain ⟨more, found, hrun⟩ := h
  refine ⟨more, found, ?_⟩
  rw [List.nil_append, run_bind, consume, run_current_bind, List.headD_cons, if_pos rfl]
  exact hrun

theorem run_accept_taken (t : Token) (f : Bool → Phrase β) (rest : List Token) :
    (accept t >>= f) (t :: rest) = f true rest := by
  rw [run_bind, accept, run_current_bind, List.headD_cons, if_pos rfl]
  rfl

theorem run_accept_passed (f : Bool → Phrase β) (h : tokens.headD .endOfInput ≠ t) :
    (accept t >>= f) tokens = f false tokens := by
  rw [run_bind, accept, run_current_bind, if_neg h]
  rfl

namespace Guided

theorem consume {f : Unit → Phrase β} (ht : t ≠ .endOfInput) (hlive : (f ()).Live)
    (hsettle : Settle [.token t] fun k ↦ k = t ∨ pre k)
    (h : ∀ rest : List Token, rest.length < tokens.length → (f ()).Guided NoToken rest) :
    (Phrase.consume t >>= f).Guided pre tokens := by
  refine .single (single_consume ht) (fun _ ↦ hlive) (fun _ ↦ ?_) fun _ ↦ h
  have hopens : ∀ k, (if k = t then some () else none).isSome ↔ k = t := by simp
  simpa only [hopens] using hsettle

theorem accept {f : Bool → Phrase β} (ht : t ≠ .endOfInput) (hlive : (f true).Live)
    (htaken : ∀ rest : List Token, rest.length < tokens.length → (f true).Guided NoToken rest)
    (hpassed : (f false).Guided (fun k ↦ k = t ∨ pre k) tokens) :
    (Phrase.accept t >>= f).Guided pre tokens := by
  by_cases hhead : tokens.headD .endOfInput = t
  · obtain ⟨rest, rfl⟩ := eq_cons_of_headD hhead ht
    exact .next (run_accept_taken t f) (htaken rest (Nat.lt_succ_self _))
  · refine .same _ _ (fun rest hrest ↦ run_accept_passed f (hrest ▸ hhead)) (fun k ↦ ?_) hpassed
    by_cases hk : k = t
    · obtain ⟨more, found, hfound⟩ := hlive
      have hgoes : (Phrase.accept t >>= f).GoesOn [] k :=
        ⟨more, found, by rw [hk, List.nil_append, run_accept_taken, hfound]⟩
      simp [hk ▸ hgoes, hk]
    · have hrun : ∀ more, (Phrase.accept t >>= f) (k :: more) = f false (k :: more) :=
        fun more ↦ run_accept_passed f hk
      simp [GoesOn, hrun, hk]

theorem identifier {f : String → Phrase β} (hlive : ∀ name, (f name).Live)
    (h : ∀ name (rest : List Token), rest.length < tokens.length → (f name).Guided NoToken rest) :
    (Phrase.identifier >>= f).Guided NoToken tokens := by
  refine .single single_identifier hlive (fun _ ↦ .exact ⟨.identifier "x", .inl rfl⟩ fun k ↦ ?_) h
  cases k <;> simp [identifier?]

theorem dataType {f : DataType → Phrase β} (hlive : ∀ type, (f type).Live)
    (h : ∀ type (rest : List Token), rest.length < tokens.length → (f type).Guided NoToken rest) :
    (Phrase.dataType >>= f).Guided NoToken tokens := by
  refine .single single_dataType hlive (fun _ ↦ .exact ⟨.keyword .int, .inl rfl⟩ fun k ↦ ?_) h
  rcases k with ⟨_ | _⟩ | _ <;> simp [dataType?]

theorem negative {f : Value → Phrase β} (hlive : ∀ v, (f v).Live)
    (h : ∀ v (rest : List Token), rest.length < tokens.length → (f v).Guided NoToken rest) :
    (Phrase.negative >>= f).Guided NoToken tokens := by
  refine .single single_negative hlive (fun hnone ↦ ?_) h
  simp only [← covers_number]
  refine ⟨⟨.number 0, .inl (by decide)⟩, ?_⟩
  cases ht : tokens.headD .endOfInput with
  | number n =>
    refine ⟨_, .negativeInteger, fun k ↦ ?_⟩
    have hinteger : Expectation.integerWord.covers k = true →
        Expectation.number.covers k = true := by
      cases k with
      | number n =>
        have hbounds := int64_bounds
        simp only [Expectation.covers, decide_eq_true_eq]
        omega
      | _ => simp [Expectation.covers]
    simpa using hinteger
  | _ => exact ⟨[], .nothing _, by simp⟩

end Guided

theorem run_literal_plain (f : Value → Phrase β) (h : tokens.headD .endOfInput ≠ .symbol .minus) :
    (literal >>= f) tokens = (plain >>= f) tokens := by
  rw [run_bind, run_bind, literal_eq_plain h]

theorem literal_goesOn_iff {f : Value → Phrase β} (hlive : ∀ v, (f v).Live) {k : Token} :
    (literal >>= f).GoesOn [] k ↔ Expectation.literal.covers k = true := by
  rw [covers_literal]
  by_cases hk : k = .symbol .minus
  · obtain ⟨more, found, hfound⟩ := hlive (.int 0)
    exact iff_of_true ⟨.number 0 :: more, found, hk ▸ hfound⟩ (.inr hk)
  · have hrun : ∀ more, (literal >>= f) (k :: more) = (plain >>= f) (k :: more) :=
      fun more ↦ run_literal_plain f hk
    have hsame : (literal >>= f).GoesOn [] k ↔ (plain >>= f).GoesOn [] k := by
      simp only [GoesOn, List.nil_append, hrun]
    rw [hsame, single_plain.goesOn_iff hlive, or_iff_left hk]

/-- A literal, where the tokens of `pre` could stand in its place. -/
theorem Guided.literal {f : Value → Phrase β} (hlive : ∀ v, (f v).Live)
    (hsettle : plain? (tokens.headD .endOfInput) = none → tokens.headD .endOfInput ≠ .symbol .minus →
      Settle (plainError (tokens.headD .endOfInput)).expected
        fun k ↦ Expectation.literal.covers k = true ∨ pre k)
    (h : ∀ v (rest : List Token), rest.length < tokens.length → (f v).Guided NoToken rest) :
    (Phrase.literal >>= f).Guided pre tokens := by
  by_cases hhead : tokens.headD .endOfInput = .symbol .minus
  · obtain ⟨rest, rfl⟩ := eq_cons_of_headD hhead (by simp)
    refine .next (run_literal_minus f) (.negative hlive fun v rest' hrest' ↦ ?_)
    exact h v rest' (Nat.lt_succ_of_lt hrest')
  · refine .same (plain >>= f) (fun k ↦ k = .symbol .minus ∨ pre k)
      (fun rest hrest ↦ run_literal_plain f (hrest ▸ hhead)) (fun k ↦ ?_) ?_
    · rw [literal_goesOn_iff hlive, single_plain.goesOn_iff hlive, covers_literal, or_assoc]
    · refine .single single_plain hlive (fun hnone ↦ ?_) h
      simpa only [covers_literal, or_assoc] using hsettle hnone hhead

theorem Guided.value {f : Value → Phrase β} (hlive : ∀ v, (f v).Live)
    (h : ∀ v (rest : List Token), rest.length < tokens.length → (f v).Guided NoToken rest) :
    (Phrase.literal >>= f).Guided NoToken tokens := by
  refine .literal hlive (fun hnone _ ↦ ⟨⟨.keyword .null, .inl rfl⟩, ?_⟩) h
  cases ht : tokens.headD .endOfInput with
  | number n =>
    refine ⟨_, .integer, fun k ↦ ?_⟩
    cases k <;> simp [Expectation.covers, plainError]
  | _ => exact ⟨[], .nothing _, by simp [plainError]⟩

end TableStore.Phrase
