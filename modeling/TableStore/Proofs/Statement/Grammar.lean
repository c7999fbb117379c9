import TableStore.Statement.Basic
import TableStore.Token.Basic

namespace TableStore

def DataType.keyword : DataType → Keyword
  | .int => .int
  | .float => .float
  | .bool => .bool
  | .string => .string
  | .datetime => .datetime

def Operator.symbol : Operator → Symbol
  | .add => .plus
  | .sub => .minus
  | .mul => .star
  | .div => .slash
  | .eq => .equal
  | .ne => .notEqual
  | .lt => .lower
  | .le => .lowerEqual
  | .gt => .greater
  | .ge => .greaterEqual

namespace Expr

/-- Whether a negation reaches to the end of an expression. It takes the operators after it. -/
def endsInNot : Expr → Bool
  | .not _ => true
  | .binary _ _ right => right.endsInNot
  | _ => false

/-- Every right operand is a single one, and no negation comes before an operator, except within
parentheses. -/
def LeftGrouped : Expr → Prop
  | .binary left _ right =>
    (∀ l op r, right ≠ .binary l op r) ∧ (∀ e, left ≠ .not e) ∧
      (∀ l op e, left ≠ .binary l op (.not e)) ∧ left.LeftGrouped ∧ right.LeftGrouped
  | .not inner => inner.LeftGrouped
  | .nested inner => inner.LeftGrouped
  | _ => True

end Expr

def Statement.condition? : Statement → Option Expr
  | .select _ _ _ condition => condition
  | .update _ _ condition => condition
  | .delete _ condition => condition
  | _ => none

/-- A constraint of a column, as it is written. -/
inductive Constraint
  | primaryKey
  | unique
  | nullability (n : Nullability)
  deriving DecidableEq

namespace Constraint

def tokens : Constraint → List Token
  | .primaryKey => [.keyword .primary, .keyword .key]
  | .unique => [.keyword .unique]
  | .nullability .null => [.keyword .null]
  | .nullability .notNull => [.keyword .not, .keyword .null]

def nullability? : Constraint → Option Nullability
  | .nullability n => some n
  | _ => none

/-- The two constraints about nulls are of one kind. -/
def kind : Constraint → Constraint
  | .nullability _ => .nullability .null
  | constraint => constraint

end Constraint

namespace Grammar

def parenthesized (ts : List Token) : List Token :=
  .symbol .leftParen :: (ts ++ [.symbol .rightParen])

/-- Items with commas between them, at least one. -/
inductive Separated {α : Type} (item : List Token → α → Prop) : List Token → List α → Prop
  | single {ts : List Token} {a : α} (h : item ts a) : Separated item ts [a]
  | cons {ts us : List Token} {a : α} {as : List α} (h : item ts a) (hrest : Separated item us as) :
    Separated item (ts ++ .symbol .comma :: us) (a :: as)

inductive Name : List Token → String → Prop
  | mk (name : String) : Name [.identifier name] name

/-- A number may have a minus right before it. An integer has 64 bits, together with its sign. -/
inductive Literal : List Token → Value → Prop
  | int {n : Nat} {i : Int64} (h : i.toInt = n) : Literal [.number n] (.int i)
  | negativeInt {n : Nat} {i : Int64} (h : i.toInt = -n) :
    Literal [.symbol .minus, .number n] (.int i)
  | float (x : Double) : Literal [.float x] (.float x)
  | negativeFloat (x : Double) : Literal [.symbol .minus, .float x] (.float x.neg)
  | datetime {s : String} {t : Timestamp} (h : Timestamp.ofText? s = some t) :
    Literal [.string s] (.datetime t)
  | text {s : String} (h : Timestamp.ofText? s = none) : Literal [.string s] (.text s)
  | yes : Literal [.keyword .true] (.bool true)
  | no : Literal [.keyword .false] (.bool false)
  | null : Literal [.keyword .null] .null

mutual

inductive Operand : List Token → Expr → Prop
  | literal {ts : List Token} {v : Value} (h : Literal ts v) : Operand ts (.literal v)
  | column (name : String) : Operand [.identifier name] (.column name)
  | nested {ts : List Token} {e : Expr} (h : Expression ts e) :
    Operand (parenthesized ts) (.nested e)
  | not {ts : List Token} {e : Expr} (h : Expression ts e) : Operand (.keyword .not :: ts) (.not e)

/-- Operands with operators between them, all on one level and grouped to the left. A negation takes
the whole expression after it, so that it is not on the left of an operator. -/
inductive Expression : List Token → Expr → Prop
  | operand {ts : List Token} {e : Expr} (h : Operand ts e) : Expression ts e
  | binary {ts us : List Token} {left right : Expr} (hleft : Expression ts left)
    (hends : left.endsInNot = false) (op : Operator) (hright : Operand us right) :
    Expression (ts ++ .symbol op.symbol :: us) (.binary left op right)

end

inductive Condition : List Token → Option Expr → Prop
  | none : Condition [] none
  | some {ts : List Token} {e : Expr} (h : Expression ts e) :
    Condition (.keyword .where :: ts) (some e)

inductive Item : List Token → SelectItem → Prop
  | plain (column : String) : Item [.identifier column] ⟨column, none⟩
  | renamed (column name : String) :
    Item [.identifier column, .identifier name] ⟨column, some name⟩
  | renamedAs (column name : String) :
    Item [.identifier column, .keyword .as, .identifier name] ⟨column, some name⟩

inductive Selected : List Token → Selection → Prop
  | all : Selected [.symbol .star] .all
  | items {ts : List Token} {items : List SelectItem} (h : Separated Item ts items) :
    Selected ts (.items items)

inductive ColumnList : List Token → Option (List String) → Prop
  | none : ColumnList [] none
  | some {ts : List Token} {names : List String} (h : Separated Name ts names) :
    ColumnList (parenthesized ts) (some names)

/-- A name, a type and constraints in any order, of each kind at most one. -/
inductive Column : List Token → ColumnDefinition → Prop
  | mk (name : String) (type : DataType) {constraints : List Constraint}
    (h : (constraints.map Constraint.kind).Nodup) :
    Column (.identifier name :: .keyword type.keyword :: constraints.flatMap Constraint.tokens)
      { name, type
        primaryKey := .primaryKey ∈ constraints
        unique := .unique ∈ constraints
        nullability := constraints.findSome? Constraint.nullability? }

inductive Change : List Token → String × Value → Prop
  | mk (column : String) {ts : List Token} {v : Value} (h : Literal ts v) :
    Change (.identifier column :: .symbol .equal :: ts) (column, v)

/-- The six forms of a statement. -/
inductive Form : List Token → Statement → Prop
  | select (distinct : Bool) {ts us : List Token} {selection : Selection} (table : String)
    {condition : Option Expr} (h : Selected ts selection) (hcondition : Condition us condition) :
    Form (.keyword .select :: ((if distinct then [.keyword .distinct] else []) ++ ts ++
      .keyword .from :: .identifier table :: us)) (.select distinct selection table condition)
  | insert (table : String) {ts us : List Token} {columns : Option (List String)}
    {values : List Value} (h : ColumnList ts columns) (hvalues : Separated Literal us values) :
    Form (.keyword .insert :: .keyword .into :: .identifier table ::
      (ts ++ .keyword .values :: parenthesized us)) (.insert table columns values)
  | createTable (table : String) {ts : List Token} {columns : List ColumnDefinition}
    (h : Separated Column ts columns) :
    Form (.keyword .create :: .keyword .table :: .identifier table :: parenthesized ts)
      (.createTable table columns)
  | update (table : String) {ts us : List Token} {changes : List (String × Value)}
    {condition : Option Expr} (h : Separated Change ts changes)
    (hcondition : Condition us condition) :
    Form (.keyword .update :: .identifier table :: .keyword .set :: (ts ++ us))
      (.update table changes condition)
  | delete (table : String) {us : List Token} {condition : Option Expr}
    (hcondition : Condition us condition) :
    Form (.keyword .delete :: .keyword .from :: .identifier table :: us) (.delete table condition)
  | dropTable (table : String) :
    Form [.keyword .drop, .keyword .table, .identifier table] (.dropTable table)

/-- A statement, perhaps with a semicolon after it. -/
inductive Sentence : List Token → Statement → Prop
  | bare {ts : List Token} {s : Statement} (h : Form ts s) : Sentence ts s
  | closed {ts : List Token} {s : Statement} (h : Form ts s) :
    Sentence (ts ++ [.symbol .semicolon]) s

end Grammar

end TableStore
