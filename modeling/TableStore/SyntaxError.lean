import TableStore.Token.Basic

namespace TableStore

/-- A token, or a class of tokens, that would have been accepted. -/
inductive Expectation
  | token (t : Token)
  | identifier
  | literal
  | number
  | integerWord
  | primaryKey
  | notNull
  /-- Some token, where a character starts none. -/
  | anyToken
  /-- A number, where a second point follows its digits. -/
  | wellFormedNumber
  | closingQuote
  deriving DecidableEq

def Expectation.text : Expectation → String
  | .token t => t.display
  | .identifier => "identifier"
  | .literal => "literal"
  | .number => "number"
  | .integerWord => "a 64-bit integer"
  | .primaryKey => "PRIMARY KEY"
  | .notNull => "NOT NULL"
  | .anyToken => "a token"
  | .wellFormedNumber => "a number"
  | .closingQuote => "closing quote"

structure SyntaxError where
  expected : List Expectation
  found : String
  deriving DecidableEq

def SyntaxError.message (e : SyntaxError) : String :=
  "expected " ++ String.intercalate " or " (e.expected.map Expectation.text) ++
    ", found " ++ e.found

end TableStore
