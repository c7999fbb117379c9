import TableStore.SyntaxError
import TableStore.Text.Blank
import TableStore.Text.Letter

namespace TableStore.Token

open Text

def isWordStart (c : Char) : Bool := isAlphabetic c || c = '_'

def isWordPart (c : Char) : Bool := isAlphanumeric c || c = '_'

/-- A whole word: a keyword if it is spelled just like one, and a name otherwise. -/
def ofWord (word : List Char) : Token :=
  let word := String.ofList word
  match Keyword.ofText? word with
  | some k => .keyword k
  | none => .identifier word

/-- The symbol at the front of a text, the longest one that is there, and what follows it. -/
def symbol? : List Char → Option (Symbol × List Char)
  | '<' :: '=' :: cs => some (.lowerEqual, cs)
  | '<' :: '>' :: cs => some (.notEqual, cs)
  | '>' :: '=' :: cs => some (.greaterEqual, cs)
  | '<' :: cs => some (.lower, cs)
  | '>' :: cs => some (.greater, cs)
  | '(' :: cs => some (.leftParen, cs)
  | ')' :: cs => some (.rightParen, cs)
  | ',' :: cs => some (.comma, cs)
  | ';' :: cs => some (.semicolon, cs)
  | '*' :: cs => some (.star, cs)
  | '+' :: cs => some (.plus, cs)
  | '-' :: cs => some (.minus, cs)
  | '/' :: cs => some (.slash, cs)
  | '=' :: cs => some (.equal, cs)
  | _ => none

def scanNumber (cs : List Char) : Except SyntaxError (Token × List Char) :=
  let whole := cs.takeWhile Char.isDigit
  match cs.dropWhile Char.isDigit with
  | '.' :: cs =>
    let fraction := cs.takeWhile Char.isDigit
    match cs.dropWhile Char.isDigit with
    | '.' :: _ =>
      .error ⟨[.wellFormedNumber], String.ofList (whole ++ '.' :: (fraction ++ ['.']))⟩
    | cs =>
      let value : Decimal := ⟨false, Numeral.value (whole ++ fraction), -fraction.length⟩
      .ok (.float value.toDouble, cs)
  | cs =>
    if Numeral.value whole < Numeral.wordLimit then .ok (.number (Numeral.value whole), cs)
    else .error ⟨[.integerWord], String.ofList whole⟩

def scanString (cs : List Char) : Except SyntaxError (Token × List Char) :=
  match cs.dropWhile (· ≠ '\'') with
  | [] => .error ⟨[.closingQuote], endOfInput.display⟩
  | _ :: rest => .ok (.string (String.ofList (cs.takeWhile (· ≠ '\''))), rest)

/-- Reads the token at the front of a text that starts with no blank. -/
def scanOne : List Char → Except SyntaxError (Token × List Char)
  | [] => .ok (.endOfInput, [])
  | c :: cs =>
    match symbol? (c :: cs) with
    | some (s, rest) => .ok (.symbol s, rest)
    | none =>
      if isWordStart c then
        .ok (ofWord ((c :: cs).takeWhile isWordPart), (c :: cs).dropWhile isWordPart)
      else if c.isDigit then scanNumber (c :: cs)
      else if c = '\'' then scanString cs
      else .error ⟨[.anyToken], String.ofList ['\'', c, '\'']⟩

/-- The tokens of a text, of which every token takes at least one character. -/
def scanAll : Nat → List Char → Except SyntaxError (List Token)
  | 0, _ => .ok [.endOfInput]
  | fuel + 1, cs =>
    match cs.dropWhile isBlank with
    | [] => .ok [.endOfInput]
    | c :: cs => do
      let (token, rest) ← scanOne (c :: cs)
      return token :: (← scanAll fuel rest)

def scan (text : String) : Except SyntaxError (List Token) :=
  let cs := text.toList
  scanAll cs.length cs

end TableStore.Token
