/-!
# Paths

A path is the text it was given as. Joining keeps the texts, so that a path is reported the way it
was put together; repeated separators and single dots count only when a path is looked up.
-/

namespace Winding.Files

/-- Whether a path starts at the root. -/
def isAbsolute (path : String) : Bool := path.toList.head? = some '/'

/-- A path below a directory; an absolute path stands for itself. -/
def join (base path : String) : String :=
  if isAbsolute path || base.isEmpty then path
  else if base.toList.getLast? = some '/' then base ++ path
  else base ++ "/" ++ path

/-- Cuts a text at each separator. -/
def splitSlashes : List Char → List (List Char)
  | [] => [[]]
  | c :: cs =>
    if c = '/' then [] :: splitSlashes cs
    else match splitSlashes cs with
      | [] => [[c]]
      | p :: ps => (c :: p) :: ps

/-- The names along a path, without empty ones. -/
def names (path : String) : List String :=
  ((splitSlashes path.toList).filter (!·.isEmpty)).map String.ofList

/-- Whether a path can only name a directory: it ends with a separator or a dot. -/
def asDirectory (path : String) : Bool :=
  match (splitSlashes path.toList).getLast? with
  | some last => last.isEmpty || last == ['.'] || last == ['.', '.']
  | none => false

/-- Drops separators, and names that are a single dot, from the end of a reversed path. -/
def dropNothing : List Char → List Char
  | '/' :: rest => if rest.isEmpty then ['/'] else dropNothing rest
  | '.' :: '/' :: rest => if rest.isEmpty then ['/'] else dropNothing rest
  | rest => rest

/-- The path without its last name; `none` for the root and for an empty path. -/
def parent? (path : String) : Option String :=
  match dropNothing path.toList.reverse with
  | [] | ['/'] => none
  | cs =>
    match cs.dropWhile (· ≠ '/') with
    | [] => some ""
    | rest => some (String.ofList (dropNothing rest).reverse)

end Winding.Files
