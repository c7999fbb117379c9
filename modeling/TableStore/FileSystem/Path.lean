namespace TableStore

/-- A path as it is written, and the names that lead along it. Among them are the dots; the name `/`
comes first in an absolute path, which leads from the top. -/
structure Path where
  text : String
  names : List String
  deriving DecidableEq

namespace Path

def parts : List Char → List (List Char)
  | [] => [[]]
  | '/' :: cs => [] :: parts cs
  | c :: cs =>
    match parts cs with
    | [] => [[c]]
    | part :: rest => (c :: part) :: rest

def namesOf (cs : List Char) : List String :=
  ((parts cs).map String.ofList).filter (· ≠ "")

def isAbsolute (cs : List Char) : Bool := cs.head? = some '/'

def ofText (text : String) : Path :=
  ⟨text, (if isAbsolute text.toList then ["/"] else []) ++ namesOf text.toList⟩

/-- The path that leads on from `path`. An absolute text replaces it. -/
def join (path : Path) (text : String) : Path :=
  if isAbsolute text.toList then ofText text
  else
    let separator := if path.text.toList = [] ∨ path.text.toList.getLast? = some '/' then "" else "/"
    ⟨path.text ++ separator ++ text, path.names ++ namesOf text.toList⟩

/-- A slash at the end asks for a directory. -/
def endsInSlash (path : Path) : Bool := path.text.toList.getLast? = some '/'

/-- The names that lead along a path, and then those that lead to each directory above, from the
nearest one up. A directory above is found in the text: single dots do not count, double dots do. -/
def ascent (path : Path) : List (List String) :=
  let steps := path.names.filter (· ≠ ".")
  path.names :: (List.range steps.length).reverse.map steps.take

def parent (path : Path) : Path :=
  ofText (String.intercalate "/" (path.names.filter (· ≠ ".")).dropLast)

end Path

end TableStore
