import TableStore.Statement.Basic
import TableStore.Token.Lexer

namespace TableStore

/-- A reader of the front of a list of tokens, which hands on the tokens after it. -/
abbrev Phrase (α : Type) := StateT (List Token) (Except SyntaxError) α

namespace Phrase

/-- The token in front. After the last token stands the end of the input. -/
def current : Phrase Token := fun tokens ↦ .ok (tokens.headD .endOfInput, tokens)

def advance : Phrase Unit := fun tokens ↦ .ok ((), tokens.tail)

def unexpected {α : Type} (expected : List Expectation) : Phrase α := do
  throw ⟨expected, (← current).display⟩

def consume (token : Token) : Phrase Unit := do
  if (← current) = token then advance else unexpected [.token token]

def accept (token : Token) : Phrase Bool := do
  if (← current) = token then
    advance
    return true
  else return false

def keyword (k : Keyword) : Phrase Unit := consume (.keyword k)

def symbol (s : Symbol) : Phrase Unit := consume (.symbol s)

def identifier : Phrase String := do
  match ← current with
  | .identifier name =>
    advance
    return name
  | _ => unexpected [.identifier]

def dataType? : Token → Option DataType
  | .keyword .int => some .int
  | .keyword .float => some .float
  | .keyword .bool => some .bool
  | .keyword .string => some .string
  | .keyword .datetime => some .datetime
  | _ => none

def dataType : Phrase DataType := do
  match dataType? (← current) with
  | some type =>
    advance
    return type
  | none => unexpected [.token (.keyword .int), .token (.keyword .float), .token (.keyword .bool),
      .token (.keyword .string), .token (.keyword .datetime)]

/-- The value of quoted text: a timestamp if it spells one. -/
def quotedValue (s : String) : Value :=
  match Timestamp.ofText? s with
  | some t => .datetime t
  | none => .text s

def negative : Phrase Value := do
  match ← current with
  | .number n =>
    match Numeral.int64? (-(n : Int)) with
    | some i =>
      advance
      return .int i
    | none => throw ⟨[.integerWord], String.ofList ('-' :: Numeral.ofNat n)⟩
  | .float x =>
    advance
    return .float x.neg
  | _ => unexpected [.number]

def literal : Phrase Value := do
  match ← current with
  | .number n =>
    match Numeral.int64? n with
    | some i =>
      advance
      return .int i
    | none => throw ⟨[.integerWord], String.ofList (Numeral.ofNat n)⟩
  | .float x =>
    advance
    return .float x
  | .string s =>
    advance
    return quotedValue s
  | .keyword .true =>
    advance
    return .bool true
  | .keyword .false =>
    advance
    return .bool false
  | .keyword .null =>
    advance
    return .null
  | .symbol .minus =>
    advance
    negative
  | _ => unexpected [.literal]

def startsLiteral : Token → Bool
  | .number _ | .float _ | .string _ => true
  | .keyword .true | .keyword .false | .keyword .null => true
  | .symbol .minus => true
  | _ => false

def operator? : Token → Option Operator
  | .symbol .plus => some .add
  | .symbol .minus => some .sub
  | .symbol .star => some .mul
  | .symbol .slash => some .div
  | .symbol .equal => some .eq
  | .symbol .notEqual => some .ne
  | .symbol .lower => some .lt
  | .symbol .lowerEqual => some .le
  | .symbol .greater => some .gt
  | .symbol .greaterEqual => some .ge
  | _ => none

mutual

/-- Operands joined by operators, all on one level and grouped to the left. Every two units of fuel
are enough for one token. -/
def expressionWithin : Nat → Phrase Expr
  | 0 => unexpected []
  | fuel + 1 => do
    let first ← operandWithin fuel
    chainWithin fuel first

/-- One operand. A negation takes the whole expression after it. -/
def operandWithin : Nat → Phrase Expr
  | 0 => unexpected []
  | fuel + 1 => do
    match ← current with
    | .keyword .not =>
      advance
      return .not (← expressionWithin fuel)
    | .symbol .leftParen =>
      advance
      let inner ← expressionWithin fuel
      symbol .rightParen
      return .nested inner
    | .identifier name =>
      advance
      return .column name
    | token =>
      if startsLiteral token then return .literal (← literal)
      else unexpected [.token (.keyword .not), .token (.symbol .leftParen), .identifier, .literal]

def chainWithin : Nat → Expr → Phrase Expr
  | 0, _ => unexpected []
  | fuel + 1, left => do
    match operator? (← current) with
    | none => return left
    | some op =>
      advance
      let right ← operandWithin fuel
      chainWithin fuel (.binary left op right)

end

def expression : Phrase Expr := fun tokens ↦ expressionWithin (2 * tokens.length + 2) tokens

def separatedWithin {α : Type} (item : Phrase α) : Nat → Phrase (List α)
  | 0 => unexpected []
  | fuel + 1 => do
    let first ← item
    if ← accept (.symbol .comma) then return first :: (← separatedWithin item fuel)
    else return [first]

def separated {α : Type} (item : Phrase α) : Phrase (List α) :=
  fun tokens ↦ separatedWithin item (tokens.length + 1) tokens

def condition : Phrase (Option Expr) := do
  if ← accept (.keyword .where) then return some (← expression)
  else return none

/-- The other name of a selected column, for which the word before it may be left out. -/
def newName : Phrase (Option String) := do
  match ← current with
  | .keyword .as =>
    advance
    return some (← identifier)
  | .identifier name =>
    advance
    return some name
  | _ => return none

def selectItem : Phrase SelectItem := do
  let column ← identifier
  return ⟨column, ← newName⟩

def selection : Phrase Selection := do
  match ← current with
  | .symbol .star =>
    advance
    return .all
  | .identifier _ => return .items (← separated selectItem)
  | _ => unexpected [.token (.symbol .star), .identifier]

def select : Phrase Statement := do
  keyword .select
  let distinct ← accept (.keyword .distinct)
  let selection ← selection
  keyword .from
  let table ← identifier
  return .select distinct selection table (← condition)

def parenthesized {α : Type} (inner : Phrase α) : Phrase α := do
  symbol .leftParen
  let x ← inner
  symbol .rightParen
  return x

def columnList : Phrase (Option (List String)) := do
  match ← current with
  | .symbol .leftParen => return some (← parenthesized (separated identifier))
  | _ => return none

def insert : Phrase Statement := do
  keyword .insert
  keyword .into
  let table ← identifier
  let columns ← columnList
  keyword .values
  return .insert table columns (← parenthesized (separated literal))

/-- What may follow the constraints of a column that are there already. -/
def columnExpectations (column : ColumnDefinition) : List Expectation :=
  [.token (.symbol .comma), .token (.symbol .rightParen)] ++
    (if column.primaryKey then [] else [.primaryKey]) ++
    (if column.unique then [] else [.token (.keyword .unique)]) ++
    (if column.nullability.isSome then [] else [.token (.keyword .null), .notNull])

/-- The constraints of a column, each at most once and in any order. -/
def constraints : Nat → ColumnDefinition → Phrase ColumnDefinition
  | 0, _ => unexpected []
  | fuel + 1, column => do
    let token ← current
    if token = .keyword .primary ∧ ¬column.primaryKey then
      advance
      keyword .key
      constraints fuel { column with primaryKey := true }
    else if token = .keyword .unique ∧ ¬column.unique then
      advance
      constraints fuel { column with unique := true }
    else if token = .keyword .null ∧ column.nullability = none then
      advance
      constraints fuel { column with nullability := some .null }
    else if token = .keyword .not ∧ column.nullability = none then
      advance
      keyword .null
      constraints fuel { column with nullability := some .notNull }
    else if token = .symbol .comma ∨ token = .symbol .rightParen then return column
    else unexpected (columnExpectations column)

def columnDefinition : Phrase ColumnDefinition := do
  let name ← identifier
  let type ← dataType
  constraints 4 { name, type }

def createTable : Phrase Statement := do
  keyword .create
  keyword .table
  let table ← identifier
  return .createTable table (← parenthesized (separated columnDefinition))

def change : Phrase (String × Value) := do
  let column ← identifier
  symbol .equal
  return (column, ← literal)

def update : Phrase Statement := do
  keyword .update
  let table ← identifier
  keyword .set
  let changes ← separated change
  return .update table changes (← condition)

def delete : Phrase Statement := do
  keyword .delete
  keyword .from
  let table ← identifier
  return .delete table (← condition)

def dropTable : Phrase Statement := do
  keyword .drop
  keyword .table
  return .dropTable (← identifier)

def body : Phrase Statement := do
  match ← current with
  | .keyword .select => select
  | .keyword .insert => insert
  | .keyword .create => createTable
  | .keyword .update => update
  | .keyword .delete => delete
  | .keyword .drop => dropTable
  | _ => unexpected [.token (.keyword .select), .token (.keyword .insert),
      .token (.keyword .create), .token (.keyword .update), .token (.keyword .delete),
      .token (.keyword .drop)]

def endOfInput : Phrase Unit := do
  match ← current with
  | .endOfInput => return ()
  | _ => unexpected [.token .endOfInput]

def statement : Phrase Statement := do
  let statement ← body
  let _ ← accept (.symbol .semicolon)
  endOfInput
  return statement

end Phrase

namespace Statement

/-- The statement that a list of tokens spells. Nothing after the first end of the input counts. -/
def ofTokens (tokens : List Token) : Except SyntaxError Statement := do
  return (← Phrase.statement tokens).1

def ofText (text : String) : Except SyntaxError Statement := do
  ofTokens (← Token.scan text)

end Statement

end TableStore
