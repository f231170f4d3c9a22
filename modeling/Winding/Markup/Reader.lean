import Winding.Markup.Document

/-!
# Reading flat XML documents

The text is cut into pieces: tags, and what may stand between them without meaning, which is blank
text, comments, processing instructions and document types (`piece?`). The root's name is free, what
follows the root is not read, and text that is not blank is a fault. Names count without the part up
to their first colon.
-/

namespace Winding.Markup

/-- The blank characters of XML. -/
def isSpace (c : Char) : Bool := c = ' ' || c = '\t' || c = '\n' || c = '\r'

/-- A part of a document. -/
inductive Piece where
  | opening (tag : Tag)
  | single (tag : Tag)
  | closing (name : String)
  | nothing
deriving DecidableEq, Repr

/-! ## Tags -/

/-- A name without the part up to its first colon. -/
def localName (name : List Char) : List Char :=
  match name.dropWhile (· ≠ ':') with
  | [] => name
  | _ :: rest => rest

/-- The local name of an attribute; declarations of name spaces keep their whole name. -/
def attributeName (name : List Char) : String :=
  String.ofList (if "xmlns:".toList.isPrefixOf name then name else localName name)

/-- The quoted value at the start of a text, and what follows. -/
def quotedValue? : List Char → Option (List Char × List Char)
  | quote :: cs =>
    if quote = '"' || quote = '\'' then
      match cs.dropWhile (· ≠ quote) with
      | [] => none
      | _ :: rest => some (cs.takeWhile (· ≠ quote), rest)
    else none
  | [] => none

/-- The attributes in the inside of a tag: names and values as they are written. -/
def rawAttributes? (fuel : Nat) (text : List Char) :
    Option (List (List Char × List Char)) :=
  match fuel with
  | 0 => none
  | fuel + 1 =>
    match text.dropWhile isSpace with
    | [] => some []
    | c :: cs =>
      let name := c :: cs.takeWhile fun d => !(d = '=' || isSpace d)
      match (cs.dropWhile fun d => !(d = '=' || isSpace d)).dropWhile isSpace with
      | '=' :: rest => do
        let (value, rest) ← quotedValue? (rest.dropWhile isSpace)
        let others ← rawAttributes? fuel rest
        return (name, value) :: others
      | _ => none

/-- Whether a list has no element twice. -/
def allDistinct {α : Type} [BEq α] : List α → Bool
  | [] => true
  | a :: as => !as.contains a && allDistinct as

/-- The tag with this inside; its written names must differ. -/
def tag? (name inside : List Char) : Option Tag := do
  let raw ← rawAttributes? (inside.length + 1) inside
  if allDistinct (raw.map (·.1)) then
    let attributes ← raw.mapM fun (key, value) => do
      return (attributeName key, String.ofList (← unescape value))
    return ⟨String.ofList name, attributes⟩
  else none

/-- Splits at the first `>` outside quotes. -/
def splitTag? (quote : Option Char) : List Char → Option (List Char × List Char)
  | [] => none
  | c :: cs =>
    let keep (quote : Option Char) :=
      (splitTag? quote cs).map fun (inside, rest) => (c :: inside, rest)
    match quote with
    | some q => keep (if c = q then none else some q)
    | none =>
      if c = '>' then some ([], cs)
      else keep (if c = '"' || c = '\'' then some c else none)

/-! ## What stands between tags -/

/-- What follows the first occurrence of a text. -/
def afterText? (text : List Char) : List Char → Option (List Char)
  | [] => none
  | c :: cs => match after? text (c :: cs) with
    | some rest => some rest
    | none => afterText? text cs

/-- Splits a document type at its closing `>`; `depth` more are open inside it. -/
def splitDoctype? (depth : Nat) : List Char → Option (List Char × List Char)
  | [] => none
  | c :: cs =>
    let keep (depth : Nat) := (splitDoctype? depth cs).map fun (inside, rest) => (c :: inside, rest)
    if c = '>' then
      if depth = 0 then some ([], cs) else keep (depth - 1)
    else keep (if c = '<' then depth + 1 else depth)

/-- What follows a document type, after its `<!`. -/
def afterDoctype? (cs : List Char) : Option (List Char) := do
  let (inside, rest) ← splitDoctype? 0 cs
  if lowerAscii (inside.take 7) = "doctype".toList && !(inside.drop 7).all isSpace then
    return rest
  else none

/-- The next piece of a document, and what follows it. -/
def piece? : List Char → Option (Piece × List Char)
  | '<' :: '!' :: '-' :: '-' :: cs => (afterText? "-->".toList cs).map (.nothing, ·)
  | '<' :: '!' :: cs => (afterDoctype? cs).map (.nothing, ·)
  | '<' :: '?' :: cs => (afterText? "?>".toList cs).map (.nothing, ·)
  | '<' :: '/' :: cs =>
    match cs.dropWhile (· ≠ '>') with
    | [] => none
    | _ :: rest =>
      let name := ((cs.takeWhile (· ≠ '>')).reverse.dropWhile isSpace).reverse
      some (.closing (String.ofList name), rest)
  | '<' :: cs => do
    let (inside, rest) ← splitTag? none cs
    let (content, isSingle) := match beforeLast? '/' inside with
      | some content => (content, true)
      | none => (inside, false)
    let name := content.takeWhile (!isSpace ·)
    let tag ← tag? name (content.dropWhile (!isSpace ·))
    return (if isSingle then .single tag else .opening tag, rest)
  | c :: cs => if isSpace c then some (.nothing, cs) else none
  | [] => none

/-! ## Documents -/

/-- What follows the end of an element without content that was opened with this name. -/
def closeLeaf? (fuel : Nat) (name : String) (text : List Char) : Option (List Char) :=
  match fuel with
  | 0 => none
  | fuel + 1 =>
    match piece? text with
    | some (.nothing, rest) => closeLeaf? fuel name rest
    | some (.closing name', rest) => if name' = name then some rest else none
    | _ => none

/-- The children up to the end of the root that was opened with this name. -/
def children? (fuel : Nat) (name : String) (text : List Char) : Option (List Tag) :=
  match fuel with
  | 0 => none
  | fuel + 1 =>
    match piece? text with
    | some (.nothing, rest) => children? fuel name rest
    | some (.closing name', _) => if name' = name then some [] else none
    | some (.single tag, rest) => (children? fuel name rest).map (tag :: ·)
    | some (.opening tag, rest) => do
      let rest ← closeLeaf? fuel tag.name rest
      return tag :: (← children? fuel name rest)
    | none => none

/-- A tag under its local name. -/
def Tag.localized (t : Tag) : Tag := { t with name := String.ofList (localName t.name.toList) }

/-- The document from its root on. -/
def documentFrom? (fuel : Nat) (text : List Char) : Option Document :=
  match fuel with
  | 0 => none
  | fuel + 1 =>
    match piece? text with
    | some (.nothing, rest) => documentFrom? fuel rest
    | some (.single tag, _) => some ⟨tag.localized, []⟩
    | some (.opening tag, rest) => do
      let children ← children? fuel tag.name rest
      return ⟨tag.localized, children.map Tag.localized⟩
    | _ => none

/-- The document that a text writes, after a byte order mark. Every piece is at least one character
long. -/
def Document.ofText? (text : String) : Option Document :=
  let cs := match text.toList with
    | '\uFEFF' :: rest => rest
    | cs => cs
  documentFrom? (cs.length + 1) cs

/-! ## Attributes as fields -/

/-- The value of an attribute. -/
def Tag.get? (t : Tag) (key : String) : Option String := t.attributes.lookup key

/-- Whether a tag has only attributes with these names, each at most once. -/
def Tag.within (t : Tag) (keys : List String) : Bool :=
  t.attributes.all (fun (key, _) => keys.contains key) && allDistinct (t.attributes.map (·.1))

/-- An attribute that may be missing, read by `read`. -/
def Tag.optional {α : Type} (t : Tag) (key : String) (read : String → Option α) :
    Option (Option α) :=
  match t.get? key with
  | none => some none
  | some value => (read value).map some

end Winding.Markup
