import TableStore.Number.Layout

namespace TableStore

inductive Keyword
  | select | distinct | from | where | insert | into | values | create | table | update | set
  | delete | drop | as | primary | key | unique | not | null
  | int | float | bool | datetime | string | true | false
  deriving DecidableEq

namespace Keyword

def all : List Keyword :=
  [.select, .distinct, .from, .where, .insert, .into, .values, .create, .table, .update, .set,
    .delete, .drop, .as, .primary, .key, .unique, .not, .null, .int, .float, .bool, .datetime,
    .string, .true, .false]

def text : Keyword → String
  | .select => "SELECT"
  | .distinct => "DISTINCT"
  | .from => "FROM"
  | .where => "WHERE"
  | .insert => "INSERT"
  | .into => "INTO"
  | .values => "VALUES"
  | .create => "CREATE"
  | .table => "TABLE"
  | .update => "UPDATE"
  | .set => "SET"
  | .delete => "DELETE"
  | .drop => "DROP"
  | .as => "AS"
  | .primary => "PRIMARY"
  | .key => "KEY"
  | .unique => "UNIQUE"
  | .not => "NOT"
  | .null => "NULL"
  | .int => "INT"
  | .float => "FLOAT"
  | .bool => "BOOL"
  | .datetime => "DATETIME"
  | .string => "STRING"
  | .true => "TRUE"
  | .false => "FALSE"

def ofText? (word : String) : Option Keyword := all.find? fun keyword ↦ keyword.text = word

end Keyword

inductive Symbol
  | leftParen | rightParen | comma | semicolon | star | plus | minus | slash
  | equal | notEqual | lower | lowerEqual | greater | greaterEqual
  deriving DecidableEq

def Symbol.text : Symbol → String
  | .leftParen => "("
  | .rightParen => ")"
  | .comma => ","
  | .semicolon => ";"
  | .star => "*"
  | .plus => "+"
  | .minus => "-"
  | .slash => "/"
  | .equal => "="
  | .notEqual => "<>"
  | .lower => "<"
  | .lowerEqual => "<="
  | .greater => ">"
  | .greaterEqual => ">="

inductive Token
  | keyword (k : Keyword)
  | symbol (s : Symbol)
  | identifier (name : String)
  /-- An unsigned integer below `2 ^ 64`. -/
  | number (n : Nat)
  | float (x : Double)
  | string (s : String)
  | endOfInput
  deriving DecidableEq

namespace Token

def display : Token → String
  | .keyword k => k.text
  | .symbol s => "'" ++ s.text ++ "'"
  | .identifier name => "identifier " ++ name
  | .number n => String.ofList (Numeral.ofNat n)
  | .float x => String.ofList (Layout.literal.double x)
  | .string s => "'" ++ s ++ "'"
  | .endOfInput => "end of input"

end Token

end TableStore
