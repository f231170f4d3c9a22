import Winding.Text.Blank

/-!
# Flat XML documents

All persisted documents have one shape: a root element whose children carry attributes and nothing
else. A document is written without indentation; attribute values escape the characters that would
end them or start markup (`escape`), and `unescape` undoes this.
-/

namespace Winding.Markup

/-- A name and attributes in the order in which they are written. -/
structure Tag where
  name : String
  attributes : List (String × String)
deriving DecidableEq, Repr

/-- A root element and its children. -/
structure Document where
  root : Tag
  children : List Tag
deriving DecidableEq, Repr

/-! ## Escaping -/

/-- The written form of one character of an attribute value. -/
def escapeChar (c : Char) : List Char :=
  if c = '&' then "&amp;".toList
  else if c = '<' then "&lt;".toList
  else if c = '>' then "&gt;".toList
  else if c = '"' then "&quot;".toList
  else [c]

/-- The written form of an attribute value. -/
def escape (cs : List Char) : List Char := cs.flatMap escapeChar

/-- The value of a hexadecimal digit. -/
def hexValue? (c : Char) : Option Nat :=
  if c.isDigit then some (c.toNat - '0'.toNat)
  else if 'a' ≤ c ∧ c ≤ 'f' then some (c.toNat - 'a'.toNat + 10)
  else if 'A' ≤ c ∧ c ≤ 'F' then some (c.toNat - 'A'.toNat + 10)
  else none

/-- The number that digits write, in base 16 or 10. -/
def codeOf? (base : Nat) (cs : List Char) : Option Nat :=
  if cs.isEmpty then none
  else cs.foldlM (fun n c => (hexValue? c).bind fun d =>
    if d < base then some (n * base + d) else none) 0

/-- The character with a code, above zero. -/
def charOf? (n : Nat) : Option Char :=
  if h : n.isValidChar then if n = 0 then none else some (Char.ofNatAux n h) else none

/-- The character that a reference between `&` and `;` stands for. -/
def referenced? (name : List Char) : Option Char :=
  match name with
  | '#' :: 'x' :: digits => (codeOf? 16 digits).bind charOf?
  | '#' :: digits => (codeOf? 10 digits).bind charOf?
  | _ =>
    if name = "lt".toList then some '<'
    else if name = "gt".toList then some '>'
    else if name = "amp".toList then some '&'
    else if name = "apos".toList then some '\''
    else if name = "quot".toList then some '"'
    else none

/-- Splits a reference at its semicolon; another ampersand before it is a fault. -/
def splitReference? : List Char → Option (List Char × List Char)
  | [] => none
  | c :: cs =>
    if c = ';' then some ([], cs)
    else if c = '&' then none
    else (splitReference? cs).map fun (name, rest) => (c :: name, rest)

theorem length_splitReference? {cs name rest : List Char}
    (h : splitReference? cs = some (name, rest)) : rest.length < cs.length := by
  induction cs generalizing name with
  | nil => simp [splitReference?] at h
  | cons c cs ih =>
    simp only [splitReference?] at h
    split at h
    · cases h; simp
    · split at h
      · simp at h
      · simp only [Option.map_eq_some_iff, Prod.mk.injEq, Prod.exists] at h
        obtain ⟨name', rest', h', -, rfl⟩ := h
        have := ih h'
        simp; omega

/-- The value that a written attribute value stands for. -/
def unescape (text : List Char) : Option (List Char) :=
  match text with
  | [] => some []
  | c :: cs =>
    if c = '&' then
      match _h : splitReference? cs with
      | none => none
      | some (name, rest) => do
        let character ← referenced? name
        return character :: (← unescape rest)
    else (unescape cs).map (c :: ·)
termination_by text.length
decreasing_by
  · have := length_splitReference? _h; simp; omega
  · simp

/-! ## Writing -/

/-- The attributes of a tag. -/
def attributesText (attributes : List (String × String)) : String :=
  String.join (attributes.map fun (key, value) =>
    " " ++ key ++ "=\"" ++ String.ofList (escape value.toList) ++ "\"")

/-- An element without content. -/
def Tag.text (t : Tag) : String := "<" ++ t.name ++ attributesText t.attributes ++ "/>"

/-- The written form of a document. -/
def Document.text (d : Document) : String :=
  if d.children.isEmpty then d.root.text
  else
    "<" ++ d.root.name ++ attributesText d.root.attributes ++ ">" ++
      String.join (d.children.map Tag.text) ++ "</" ++ d.root.name ++ ">"

end Winding.Markup
