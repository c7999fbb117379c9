import TableStore.Json.Basic
import TableStore.Number.Layout

namespace TableStore.Json

def escape (c : Char) : List Char :=
  if c = '"' then ['\\', '"']
  else if c = '\\' then ['\\', '\\']
  else if c = '\x08' then ['\\', 'b']
  else if c = '\t' then ['\\', 't']
  else if c = '\n' then ['\\', 'n']
  else if c = '\x0c' then ['\\', 'f']
  else if c = '\r' then ['\\', 'r']
  else if c.toNat < 32 then
    ['\\', 'u', '0', '0', Nat.digitChar (c.toNat / 16), Nat.digitChar (c.toNat % 16)]
  else [c]

def stringText (s : String) : List Char := '"' :: (s.toList.flatMap escape ++ ['"'])

def Number.text : Number → List Char
  | .integer n => Numeral.ofInt n
  | .float x => Layout.json.finite x

def Scalar.text : Scalar → List Char
  | .null => ['n', 'u', 'l', 'l']
  | .bool true => ['t', 'r', 'u', 'e']
  | .bool false => ['f', 'a', 'l', 's', 'e']
  | .number n => n.text
  | .string s => stringText s

def newline (indent : Nat) : List Char := '\n' :: List.replicate indent ' '

mutual

def compact : Json → List Char
  | .scalar s => s.text
  | .array [] => ['[', ']']
  | .array (item :: rest) => '[' :: (compact item ++ compactItems rest)
  | .object [] => ['\x7b', '\x7d']
  | .object ((name, json) :: rest) =>
    '\x7b' :: (stringText name ++ ':' :: (compact json ++ compactMembers rest))

def compactItems : List Json → List Char
  | [] => [']']
  | item :: rest => ',' :: (compact item ++ compactItems rest)

def compactMembers : List (String × Json) → List Char
  | [] => ['\x7d']
  | (name, json) :: rest =>
    ',' :: (stringText name ++ ':' :: (compact json ++ compactMembers rest))

end

mutual

/-- The text with every item and member on a line of its own, two blanks deeper than its parent. -/
def pretty (indent : Nat) : Json → List Char
  | .scalar s => s.text
  | .array [] => ['[', ']']
  | .array (item :: rest) =>
    '[' :: (newline (indent + 2) ++ pretty (indent + 2) item ++ prettyItems indent rest)
  | .object [] => ['\x7b', '\x7d']
  | .object ((name, json) :: rest) =>
    '\x7b' :: (newline (indent + 2) ++ stringText name ++ ':' :: ' ' ::
      (pretty (indent + 2) json ++ prettyMembers indent rest))

def prettyItems (indent : Nat) : List Json → List Char
  | [] => newline indent ++ [']']
  | item :: rest =>
    ',' :: (newline (indent + 2) ++ pretty (indent + 2) item ++ prettyItems indent rest)

def prettyMembers (indent : Nat) : List (String × Json) → List Char
  | [] => newline indent ++ ['\x7d']
  | (name, json) :: rest =>
    ',' :: (newline (indent + 2) ++ stringText name ++ ':' :: ' ' ::
      (pretty (indent + 2) json ++ prettyMembers indent rest))

end

def compactText (json : Json) : String := String.ofList json.compact

def prettyText (json : Json) : String := String.ofList (json.pretty 0)

end TableStore.Json
