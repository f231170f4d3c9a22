import Winding.Toml.Scalar

/-!
# Reading TOML documents

A document is a sequence of lines, each a header, a key with its value, or nothing but a comment
(`read?`). Every form of version 1.0 is read. All that is not a document gives `none`: what is wrong
with it is never reported.
-/

namespace Winding.Toml

/-- Characters of a bare key. -/
def inKey (c : Char) : Bool := c.isAlphanum || c = '_' || c = '-'

/-- A key without dots. -/
def simpleKey? (cs : List Char) : Option (String × List Char) :=
  match cs with
  | [] => none
  | c :: _ =>
    if c = '"' || c = '\'' then lineString? cs
    else
      let key := cs.takeWhile inKey
      if key.isEmpty then none else some (String.ofList key, cs.dropWhile inKey)

/-- A key: simple keys with dots between them, and spaces around each. -/
def key? (fuel : Nat) (cs : List Char) : Option (List String × List Char) :=
  match fuel with
  | 0 => none
  | fuel + 1 => do
    let (key, rest) ← simpleKey? (skipSpaces cs)
    match skipSpaces rest with
    | '.' :: rest => do
      let (keys, rest) ← key? fuel rest
      return (key :: keys, rest)
    | rest => return ([key], rest)

/-- Drops a comment; the newline after it stays. -/
def skipComment? (cs : List Char) : Option (List Char) :=
  match cs with
  | '#' :: rest =>
    let isEnd (c : Char) : Bool := c = '\n' || c = '\r'
    if (rest.takeWhile (!isEnd ·)).any isForbidden then none else some (rest.dropWhile (!isEnd ·))
  | _ => some cs

/-- Drops the rest of a line, which holds at most a comment. -/
def endLine? (cs : List Char) : Option (List Char) := do
  match ← skipComment? (skipSpaces cs) with
  | [] => return []
  | rest => newline? rest

/-- Drops spaces, newlines and comments. -/
def skipLines? (fuel : Nat) (cs : List Char) : Option (List Char) :=
  match fuel with
  | 0 => none
  | fuel + 1 => do
    let rest ← skipComment? (skipSpaces cs)
    match newline? rest with
    | some rest => skipLines? fuel rest
    | none => return rest

mutual

/-- A value. -/
def value? (fuel : Nat) (cs : List Char) : Option (Value × List Char) :=
  match fuel with
  | 0 => none
  | fuel + 1 =>
    match cs with
    | [] => none
    | '[' :: rest => do
      let (values, rest) ← elements? fuel rest
      return (.list values, rest)
    | '\x7b' :: rest => do
      let (entries, rest) ← braces? fuel rest
      return (.table .inline entries, rest)
    | c :: _ =>
      if c = '"' || c = '\'' then do
        let (text, rest) ← string? cs
        return (.text text, rest)
      else do
        let (word, rest) := token cs
        return (← tokenValue? word, rest)

/-- The elements of a list after its opening bracket; the last one may be followed by a comma. -/
def elements? (fuel : Nat) (cs : List Char) : Option (List Value × List Char) :=
  match fuel with
  | 0 => none
  | fuel + 1 => do
    match ← skipLines? (cs.length + 1) cs with
    | ']' :: rest => return ([], rest)
    | rest => do
      let (v, rest) ← value? fuel rest
      match ← skipLines? (rest.length + 1) rest with
      | ']' :: rest => return ([v], rest)
      | ',' :: rest => do
        let (vs, rest) ← elements? fuel rest
        return (v :: vs, rest)
      | _ => none

/-- The entries of a table in braces after the opening one. -/
def braces? (fuel : Nat) (cs : List Char) : Option (List (String × Value) × List Char) :=
  match fuel with
  | 0 => none
  | fuel + 1 =>
    match skipSpaces cs with
    | '\x7d' :: rest => some ([], rest)
    | rest => (entries? fuel (.header, []) rest).map fun (t, rest) => (t.2, rest)

/-- The entries from one on, added to those before it. -/
def entries? (fuel : Nat) (t : Table) (cs : List Char) : Option (Table × List Char) :=
  match fuel with
  | 0 => none
  | fuel + 1 => do
    let (keys, rest) ← key? (cs.length + 1) cs
    let (v, rest) ← value? fuel (skipSpaces (← expect? '=' rest))
    let t ← t.define? keys v
    match skipSpaces rest with
    | '\x7d' :: rest => return (t, rest)
    | ',' :: rest => entries? fuel t rest
    | _ => none

end

/-- A header after its opening brackets: its key, and what follows the closing ones. -/
def header? (closing : List Char) (cs : List Char) : Option (List String × List Char) := do
  let (keys, rest) ← key? (cs.length + 1) cs
  return (keys, ← after? closing rest)

/-- One line of a document: changes the tables and the header under which keys stand. -/
def statement? (root : Table) (path : List String) (cs : List Char) :
    Option ((Table × List String) × List Char) :=
  match cs with
  | '[' :: '[' :: rest => do
    let (keys, rest) ← header? [']', ']'] rest
    return ((← root.append? keys, keys), rest)
  | '[' :: rest => do
    let (keys, rest) ← header? [']'] rest
    return ((← root.open? keys, keys), rest)
  | _ => do
    let (keys, rest) ← key? (cs.length + 1) cs
    let (v, rest) ← value? (2 * rest.length + 2) (skipSpaces (← expect? '=' rest))
    return ((← Table.within? false (·.define? keys v) path root, path), rest)

/-- The tables of all lines from here on. -/
def statements? (fuel : Nat) (root : Table) (path : List String) (cs : List Char) : Option Table :=
  match fuel with
  | 0 => none
  | fuel + 1 => do
    match ← skipLines? (cs.length + 1) cs with
    | [] => return root
    | rest => do
      let ((root, path), rest) ← statement? root path rest
      statements? fuel root path (← endLine? rest)

/-- The document that a text writes, after a byte order mark. -/
def read? (text : String) : Option (List (String × Value)) :=
  let cs := match text.toList with
    | '\uFEFF' :: rest => rest
    | cs => cs
  (statements? (cs.length + 1) (.header, []) [] cs).map (·.2)

end Winding.Toml
