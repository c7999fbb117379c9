import TableStore.Proofs.Statement.Unrolled

namespace TableStore

namespace Expectation

/-- Whether a token is one of those that an expectation names. An integer has 64 bits, together with the
minus before it: a number alone is only expected after one. -/
def covers : Expectation → Token → Bool
  | .token t, k => k = t
  | .identifier, .identifier _ => true
  | .literal, .number n => (n : Int) ≤ Int64.maxValue.toInt
  | .literal, k => Phrase.startsLiteral k
  | .number, .number n => Int64.minValue.toInt ≤ -(n : Int)
  | .number, .float _ => true
  | .integerWord, .number n => (n : Int) ≤ Int64.maxValue.toInt
  | .primaryKey, k => k = .keyword .primary
  | .notNull, k => k = .keyword .not
  | _, _ => false

@[simp] theorem covers_token {t k : Token} : (token t).covers k = true ↔ k = t := by simp [covers]

@[simp] theorem covers_identifier {k : Token} :
    identifier.covers k = true ↔ ∃ name, k = .identifier name := by
  cases k <;> simp [covers]

def operators : List Expectation :=
  [Operator.add, .sub, .mul, .div, .eq, .ne, .lt, .le, .gt, .ge].map fun op ↦
    .token (.symbol op.symbol)

/-- What an error with the first expectations may leave out. The words and symbols go on with a part
that need not be there: they are looked for in vain, and the reader of what has to follow does not name
them again. Where an integer has too many bits, nothing else is named that could stand in its place. -/
inductive Omits : List Expectation → List Expectation → Prop
  | nothing (expected : List Expectation) : Omits expected []
  | distinct : Omits [.token (.symbol .star), .identifier] [.token (.keyword .distinct)]
  | item : Omits [.token (.keyword .from)]
      [.token (.symbol .comma), .token (.keyword .as), .identifier]
  | renamedItem : Omits [.token (.keyword .from)] [.token (.symbol .comma)]
  | columnList : Omits [.token (.keyword .values)] [.token (.symbol .leftParen)]
  | element : Omits [.token (.symbol .rightParen)] [.token (.symbol .comma)]
  | operand : Omits [.token (.symbol .rightParen)] operators
  | statement : Omits [.token .endOfInput] [.token (.symbol .semicolon)]
  | table : Omits [.token .endOfInput] [.token (.symbol .semicolon), .token (.keyword .where)]
  | change : Omits [.token .endOfInput]
      [.token (.symbol .semicolon), .token (.keyword .where), .token (.symbol .comma)]
  | condition : Omits [.token .endOfInput] (.token (.symbol .semicolon) :: operators)
  | integer : Omits [.integerWord] [.literal]
  | integerOperand : Omits [.integerWord]
      [.token (.keyword .not), .token (.symbol .leftParen), .identifier, .literal]
  | negativeInteger : Omits [.integerWord] [.number]

end Expectation

open Expectation (Omits)

def Token.IsAmong (k : Token) (expected : List Expectation) : Prop :=
  ∃ x ∈ expected, x.covers k = true

/-- An error that says of a token that it was found. A minus may come before a number. -/
def SyntaxError.Reports (e : SyntaxError) (t : Token) : Prop :=
  e.found = t.display ∨ ∃ n, t = .number n ∧ e.found = String.ofList ('-' :: Numeral.ofNat n)

namespace Token

variable {k : Token} {x : Expectation} {xs ys : List Expectation}

@[simp] theorem isAmong_nil : ¬k.IsAmong [] := by simp [IsAmong]

@[simp] theorem isAmong_cons : k.IsAmong (x :: xs) ↔ x.covers k = true ∨ k.IsAmong xs := by
  simp [IsAmong]

@[simp] theorem isAmong_append : k.IsAmong (xs ++ ys) ↔ k.IsAmong xs ∨ k.IsAmong ys := by
  simp [IsAmong, or_and_right, exists_or]

theorem isAmong_operators :
    k.IsAmong Expectation.operators ↔ ∃ op : Operator, k = .symbol op.symbol := by
  constructor
  · rintro ⟨x, hx, hcovers⟩
    obtain ⟨op, -, rfl⟩ := List.mem_map.mp hx
    exact ⟨op, Expectation.covers_token.mp hcovers⟩
  · rintro ⟨op, rfl⟩
    exact ⟨_, List.mem_map_of_mem (by cases op <;> decide), Expectation.covers_token.mpr rfl⟩

end Token

/-- Expectations that settle which tokens can come next, of which there are some: these are the tokens
that they cover, together with those that they may leave out. -/
def Expectation.Settle (expected : List Expectation) (opens : Token → Prop) : Prop :=
  (∃ k, opens k) ∧ ∃ passed, Omits expected passed ∧ ∀ k, opens k ↔ k.IsAmong (expected ++ passed)

namespace Expectation.Settle

variable {expected : List Expectation} {opens : Token → Prop}

theorem exact (hsome : ∃ k, opens k) (h : ∀ k, opens k ↔ k.IsAmong expected) :
    Settle expected opens :=
  ⟨hsome, [], .nothing expected, by simpa using h⟩

theorem all (hsome : ∃ k : Token, k.IsAmong expected) :
    Settle expected fun k ↦ k.IsAmong expected ∨ False :=
  .exact (by simpa using hsome) (by simp)

theorem single (t : Token) : Settle [.token t] fun k ↦ k = t ∨ False :=
  .exact ⟨t, .inl rfl⟩ (by simp)

end Expectation.Settle

open Expectation (Settle)

namespace Phrase

variable {α β : Type} {q q' : Phrase β} {tokens rest front : List Token} {k t : Token}
  {pre pre' : Token → Prop} {e : SyntaxError} {expected : List Expectation}

/-- After these tokens a phrase can be led to its end by way of a token. -/
def GoesOn (q : Phrase β) (front : List Token) (k : Token) : Prop :=
  ∃ more found, q (front ++ k :: more) = .ok found

def Live (q : Phrase β) : Prop := ∃ tokens found, q tokens = .ok found

/-- A phrase stops after these tokens with an error that depends on the next token only. If the tokens in
front are none, `pre` are the tokens that were looked for before and would have led elsewhere. -/
structure Halts (q : Phrase β) (pre : Token → Prop) (front rest : List Token) (e : SyntaxError) :
    Prop where
  run : ∀ rest' : List Token, rest'.headD .endOfInput = rest.headD .endOfInput →
    q (front ++ rest') = .error e
  reports : e.Reports (rest.headD .endOfInput)
  settle : Settle e.expected fun k ↦ q.GoesOn front k ∨ front = [] ∧ pre k

/-- Where a phrase ends in an error, it halts so. -/
def Guided (q : Phrase β) (pre : Token → Prop) (tokens : List Token) : Prop :=
  ∀ e, q tokens = .error e → ∃ front rest, tokens = front ++ rest ∧ q.Halts pre front rest e

/-- Before a token nothing else was looked for. -/
abbrev NoToken : Token → Prop := fun _ ↦ False

theorem GoesOn.live (h : q.GoesOn front k) : q.Live := by
  obtain ⟨more, found, hrun⟩ := h
  exact ⟨_, found, hrun⟩

/-- A phrase that stops at every token but the ones that it names then. -/
def Awaits (q : Phrase β) (expected : List Expectation) : Prop :=
  ∀ tokens : List Token, ¬(tokens.headD .endOfInput).IsAmong expected →
    q tokens = .error ⟨expected, (tokens.headD .endOfInput).display⟩

theorem Awaits.goesOn_iff (h : q.Awaits expected)
    (hgoes : ∀ k : Token, k.IsAmong expected → q.GoesOn [] k) :
    q.GoesOn [] k ↔ k.IsAmong expected := by
  refine ⟨fun ⟨more, found, hrun⟩ ↦ ?_, hgoes k⟩
  by_cases hk : k.IsAmong expected
  · exact hk
  · cases hrun.symm.trans (h (k :: more) hk)

theorem Halts.of_cons (h : q'.Halts pre' (t :: front) rest e)
    (hrun : ∀ more, q (t :: front ++ more) = q' (t :: front ++ more)) :
    q.Halts pre (t :: front) rest e := by
  have hgoes : ∀ k, q.GoesOn (t :: front) k ↔ q'.GoesOn (t :: front) k := by
    intro k
    simp only [GoesOn, hrun]
  refine ⟨fun rest' hrest' ↦ (hrun rest').trans (h.run rest' hrest'), h.reports, ?_⟩
  simpa [hgoes] using h.settle

namespace Guided

theorem here (hrun : ∀ rest : List Token, rest.headD .endOfInput = tokens.headD .endOfInput →
      q rest = .error e) (hreports : e.Reports (tokens.headD .endOfInput))
    (hsettle : Settle e.expected fun k ↦ q.GoesOn [] k ∨ pre k) : q.Guided pre tokens := by
  intro e' he'
  obtain rfl : e = e' := Except.error.inj ((hrun tokens rfl).symm.trans he')
  exact ⟨[], tokens, rfl, hrun, hreports, by simpa using hsettle⟩

theorem awaited (h : q.Awaits expected) (hgoes : ∀ k : Token, k.IsAmong expected → q.GoesOn [] k)
    (hhead : ¬(tokens.headD .endOfInput).IsAmong expected)
    (hsettle : Settle expected fun k ↦ k.IsAmong expected ∨ pre k) : q.Guided pre tokens := by
  refine .here (e := ⟨expected, (tokens.headD .endOfInput).display⟩) (fun rest hrest ↦ ?_)
    (.inl rfl) ?_
  · rw [← hrest] at hhead ⊢
    exact h rest hhead
  · simpa only [h.goesOn_iff hgoes] using hsettle

/-- The token in front is taken. What was looked for before is of no matter then. -/
theorem next (hrun : ∀ more, q (k :: more) = q' more) (h : q'.Guided NoToken rest) :
    q.Guided pre (k :: rest) := by
  intro e he
  rw [hrun] at he
  obtain ⟨front, after, rfl, hhalts⟩ := h e he
  refine ⟨k :: front, after, rfl, fun rest' hrest' ↦ ?_, hhalts.reports, ?_⟩
  · rw [List.cons_append, hrun]
    exact hhalts.run rest' hrest'
  · simpa [GoesOn, hrun] using hhalts.settle

theorem same (q' : Phrase β) (pre' : Token → Prop)
    (hrun : ∀ rest : List Token, rest.headD .endOfInput = tokens.headD .endOfInput → q rest = q' rest)
    (hlive : ∀ k, q.GoesOn [] k ∨ pre k ↔ q'.GoesOn [] k ∨ pre' k) (h : q'.Guided pre' tokens) :
    q.Guided pre tokens := by
  intro e he
  rw [hrun tokens rfl] at he
  obtain ⟨front, rest, rfl, hhalts⟩ := h e he
  refine ⟨front, rest, rfl, ?_⟩
  cases front with
  | nil =>
    refine ⟨fun rest' hrest' ↦ (hrun rest' hrest').trans (hhalts.run rest' hrest'),
      hhalts.reports, ?_⟩
    have hsettle := hhalts.settle
    simp only [true_and] at hsettle ⊢
    simpa only [hlive] using hsettle
  | cons t front => exact hhalts.of_cons fun more ↦ hrun _ rfl

/-- A token that can be taken is taken, whatever was looked for before it. -/
theorem enter (hrun : ∀ rest : List Token, rest.headD .endOfInput = tokens.headD .endOfInput →
      q rest = q' rest) (hgoes : q'.GoesOn [] (tokens.headD .endOfInput))
    (h : q'.Guided pre' tokens) : q.Guided pre tokens := by
  intro e he
  rw [hrun tokens rfl] at he
  obtain ⟨front, rest, rfl, hhalts⟩ := h e he
  refine ⟨front, rest, rfl, ?_⟩
  cases front with
  | nil =>
    -- an error at this token would be there whatever follows it, and the phrase can go on with it
    obtain ⟨more, found, hfound⟩ := hgoes
    cases hfound.symm.trans (hhalts.run (rest.headD .endOfInput :: more) rfl)
  | cons t front => exact hhalts.of_cons fun more ↦ hrun _ rfl

end Guided

end Phrase

end TableStore
