import Winding.Markup.Reader
import Winding.Proofs.Text.Lines

/-!
# Documents are read back

A document whose names are made of letters is what its text says, whatever the values of its
attributes are (`Document.ofText?_text`): a value ends at no character that it is written with, and
every reference in it stands for its character.
-/

namespace Winding.Markup

/-! ## Escaping -/

theorem splitReference?_append {name : List Char} (h : ∀ c ∈ name, c ≠ ';' ∧ c ≠ '&')
    (rest : List Char) : splitReference? (name ++ ';' :: rest) = some (name, rest) := by
  induction name with
  | nil => rfl
  | cons c name ih =>
    obtain ⟨semicolon, ampersand⟩ := h c List.mem_cons_self
    rw [List.cons_append, splitReference?, if_neg semicolon, if_neg ampersand,
      ih fun d hd => h d (List.mem_cons_of_mem c hd)]
    rfl

/-- A reference stands for its character. -/
theorem unescape_reference (name : List Char) {c : Char} (h : ∀ d ∈ name, d ≠ ';' ∧ d ≠ '&')
    (found : referenced? name = some c) (rest : List Char) :
    unescape ('&' :: name ++ ';' :: rest) = (unescape rest).map (c :: ·) := by
  rw [List.cons_append, unescape, if_pos rfl]
  split
  · next none =>
    rw [splitReference?_append h rest] at none
    cases none
  · next name' rest' found' =>
    rw [splitReference?_append h rest] at found'
    obtain ⟨rfl, rfl⟩ := Prod.mk.inj (Option.some.inj found')
    rw [found]
    rcases unescape rest with _ | cs
    · rfl
    · rfl

theorem unescape_escapeChar (c : Char) (rest : List Char) :
    unescape (escapeChar c ++ rest) = (unescape rest).map (c :: ·) := by
  unfold escapeChar
  split
  · next h => exact h ▸ unescape_reference ['a', 'm', 'p'] (by simp) rfl rest
  · split
    · next h => exact h ▸ unescape_reference ['l', 't'] (by simp) rfl rest
    · split
      · next h => exact h ▸ unescape_reference ['g', 't'] (by simp) rfl rest
      · split
        · next h =>
          exact h ▸ unescape_reference ['q', 'u', 'o', 't'] (by simp) rfl rest
        · next ampersand _ _ _ => rw [List.singleton_append, unescape, if_neg ampersand]

/-- A value is read back from its written form. -/
theorem unescape_escape (cs : List Char) : unescape (escape cs) = some cs := by
  induction cs with
  | nil => rw [escape, List.flatMap_nil, unescape]
  | cons c cs ih =>
    rw [escape, List.flatMap_cons, unescape_escapeChar]
    exact congrArg (Option.map (c :: ·)) ih

/-- The written form of a value does not end it. -/
theorem quote_not_mem_escape (cs : List Char) : '"' ∉ escape cs := by
  rw [escape, List.mem_flatMap]
  rintro ⟨c, -, h⟩
  unfold escapeChar at h
  split at h
  · exact absurd h (by decide)
  · split at h
    · exact absurd h (by decide)
    · split at h
      · exact absurd h (by decide)
      · split at h
        · exact absurd h (by decide)
        · next other => exact other (List.mem_singleton.mp h).symm

/-! ## Names -/

/-- A name of letters. -/
structure IsName (name : List Char) : Prop where
  ne_nil : name ≠ []
  letters : ∀ c ∈ name, c.isAlpha = true

namespace IsName

variable {name : List Char}

theorem of_all {names : List String}
    (h : names.all (fun name => !name.toList.isEmpty && name.toList.all Char.isAlpha) = true) :
    ∀ name ∈ names, IsName name.toList := by
  intro name hn
  obtain ⟨some, letters⟩ := Bool.and_eq_true_iff.mp (List.all_eq_true.mp h name hn)
  rw [Bool.not_eq_true', List.isEmpty_eq_false_iff] at some
  exact ⟨some, List.all_eq_true.mp letters⟩

theorem ne (h : IsName name) {c d : Char} (hc : c ∈ name) (other : d.isAlpha = false) : c ≠ d := by
  rintro rfl
  rw [h.letters c hc] at other
  cases other

theorem isSpace_eq_false (h : IsName name) {c : Char} (hc : c ∈ name) : isSpace c = false := by
  simp only [isSpace, Bool.or_eq_false_iff, decide_eq_false_iff_not]
  exact ⟨⟨⟨h.ne hc rfl, h.ne hc rfl⟩, h.ne hc rfl⟩, h.ne hc rfl⟩

theorem localName (h : IsName name) : localName name = name := by
  have none := (takeWhile_append_stop (p := (· ≠ ':')) (r := [])
    (fun c hc => decide_eq_true (h.ne hc rfl)) nofun).2
  rw [List.append_nil] at none
  rw [Markup.localName, none]

theorem attributeName (h : IsName name) : attributeName name = String.ofList name := by
  have plain : "xmlns:".toList.isPrefixOf name = false := by
    rw [Bool.eq_false_iff]
    intro part
    have colon : ':' ∈ name := (List.isPrefixOf_iff_prefix.mp part).subset (by decide)
    exact h.ne colon rfl rfl
  rw [Markup.attributeName, plain, if_neg Bool.false_ne_true, h.localName]

end IsName

/-! ## Tags -/

/-- A tag whose names are made of letters, with different attributes. -/
structure Tag.IsPlain (t : Tag) : Prop where
  name : IsName t.name.toList
  keys : ∀ a ∈ t.attributes, IsName a.1.toList
  distinct : allDistinct (t.attributes.map (·.1)) = true

theorem allDistinct_of_nodup {l : List String} (h : l.Nodup) : allDistinct l = true := by
  induction l with
  | nil => rfl
  | cons a l ih =>
    obtain ⟨new, rest⟩ := List.nodup_cons.mp h
    have absent : l.contains a = false := by simpa using new
    rw [allDistinct, absent, ih rest]
    rfl

/-- A tag is plain when its attributes are some of those with different names of letters. -/
theorem Tag.IsPlain.of_sublist {t : Tag} {keys : List String}
    (some : (t.attributes.map (·.1)).Sublist keys) (nodup : keys.Nodup)
    (names : ∀ key ∈ t.name :: keys, IsName key.toList) : t.IsPlain where
  name := names t.name List.mem_cons_self
  keys a ha := names a.1 (List.mem_cons_of_mem _ (some.subset (List.mem_map_of_mem ha)))
  distinct := allDistinct_of_nodup (nodup.sublist some)

/-- Some of the attributes that a tag may have. -/
theorem Tag.within_of_sublist {t : Tag} {keys : List String}
    (some : (t.attributes.map (·.1)).Sublist keys) (nodup : keys.Nodup) : t.within keys = true := by
  rw [Tag.within, Bool.and_eq_true_iff]
  refine ⟨List.all_eq_true.mpr fun a ha => ?_, allDistinct_of_nodup (nodup.sublist some)⟩
  exact List.contains_iff_mem.mpr (some.subset (List.mem_map_of_mem ha))

/-- The characters of attributes. -/
def attributeChars (attributes : List (String × String)) : List Char :=
  attributes.flatMap fun a => ' ' :: a.1.toList ++ '=' :: '"' :: escape a.2.toList ++ ['"']

theorem toList_attributesText (attributes : List (String × String)) :
    (attributesText attributes).toList = attributeChars attributes := by
  unfold attributesText attributeChars
  induction attributes with
  | nil => rfl
  | cons a attributes ih =>
    rw [List.map_cons, List.flatMap_cons, ← ih]
    simp

variable {attributes : List (String × String)}

theorem attributeChars_cons (a : String × String) (attributes : List (String × String)) :
    attributeChars (a :: attributes) = ' ' :: (a.1.toList ++ '=' :: '"' ::
      (escape a.2.toList ++ '"' :: attributeChars attributes)) := by
  simp [attributeChars]

theorem quotedValue?_escape (value rest : List Char) :
    quotedValue? ('"' :: (escape value ++ '"' :: rest)) = some (escape value, rest) := by
  obtain ⟨take, drop⟩ := takeWhile_append_stop (p := (· ≠ '"')) (r := '"' :: rest)
    (fun c hc => decide_eq_true fun quote => quote_not_mem_escape value (quote ▸ hc))
    (by rintro c ⟨⟩; rfl)
  rw [quotedValue?, if_pos (by decide), take, drop]

/-- Attributes are split as they were written. -/
theorem rawAttributes?_chars (keys : ∀ a ∈ attributes, IsName a.1.toList) {fuel : Nat}
    (enough : attributes.length < fuel) :
    rawAttributes? fuel (attributeChars attributes) =
      some (attributes.map fun a => (a.1.toList, escape a.2.toList)) := by
  induction attributes generalizing fuel with
  | nil =>
    obtain ⟨fuel, rfl⟩ := Nat.exists_eq_add_one_of_ne_zero (Nat.ne_of_gt enough)
    rfl
  | cons a attributes ih =>
    obtain ⟨fuel, rfl⟩ := Nat.exists_eq_add_one_of_ne_zero (Nat.ne_of_gt (Nat.zero_lt_of_lt enough))
    have key := keys a List.mem_cons_self
    have rest := ih (fun b hb => keys b (List.mem_cons_of_mem a hb)) (Nat.lt_of_succ_lt_succ enough)
    obtain ⟨c, cs, name⟩ := List.exists_cons_of_ne_nil key.ne_nil
    have part : ∀ d ∈ a.1.toList, (!(d = '=' || isSpace d)) = true := fun d hd => by
      rw [key.isSpace_eq_false hd, decide_eq_false (key.ne hd rfl)]
      rfl
    have start : isSpace c = false := key.isSpace_eq_false (name ▸ List.mem_cons_self)
    rw [name] at part
    obtain ⟨take, drop⟩ := takeWhile_append_stop (l := cs) (r := '=' :: '"' ::
      (escape a.2.toList ++ '"' :: attributeChars attributes))
      (fun d hd => part d (List.mem_cons_of_mem c hd)) (by rintro d ⟨⟩; rfl)
    have text : (attributeChars (a :: attributes)).dropWhile isSpace = c :: (cs ++ '=' :: '"' ::
        (escape a.2.toList ++ '"' :: attributeChars attributes)) := by
      rw [attributeChars_cons, name, List.dropWhile_cons_of_pos rfl, List.cons_append,
        List.dropWhile_cons_of_neg (by rw [start]; exact Bool.false_ne_true)]
    have quote : List.dropWhile isSpace ('=' :: '"' ::
        (escape a.2.toList ++ '"' :: attributeChars attributes)) = '=' :: '"' ::
        (escape a.2.toList ++ '"' :: attributeChars attributes) := rfl
    have value : List.dropWhile isSpace ('"' ::
        (escape a.2.toList ++ '"' :: attributeChars attributes)) = '"' ::
        (escape a.2.toList ++ '"' :: attributeChars attributes) := rfl
    rw [rawAttributes?, text]
    simp only [take, drop, quote, value, quotedValue?_escape, rest, bind, Option.bind, pure]
    rw [List.map_cons, name]

theorem allDistinct_map {α β : Type} [BEq α] [BEq β] [LawfulBEq α] [LawfulBEq β] {f : α → β}
    (injective : ∀ a b, f a = f b → a = b) (l : List α) :
    allDistinct (l.map f) = allDistinct l := by
  induction l with
  | nil => rfl
  | cons a l ih =>
    have there : (l.map f).contains (f a) = l.contains a := by
      rw [Bool.eq_iff_iff, List.contains_iff_mem, List.contains_iff_mem, List.mem_map]
      constructor
      · rintro ⟨b, hb, same⟩
        exact injective b a same ▸ hb
      · exact fun ha => ⟨a, ha, rfl⟩
    rw [List.map_cons, allDistinct, allDistinct, there, ih]

/-- A tag is read back from its name and its attributes. -/
theorem Tag.IsPlain.tag? {t : Tag} (h : t.IsPlain) :
    tag? t.name.toList (attributeChars t.attributes) = some t := by
  have long : t.attributes.length ≤ (attributeChars t.attributes).length :=
    length_le_length_flatMap (fun a => List.append_ne_nil_of_right_ne_nil _ (by simp)) _
  have distinct : allDistinct ((t.attributes.map fun a => (a.1.toList, escape a.2.toList)).map
      (·.1)) = true := by
    rw [← h.distinct, ← allDistinct_map (f := String.toList) fun _ _ => String.toList_inj.mp,
      List.map_map, List.map_map]
    rfl
  rw [Markup.tag?, rawAttributes?_chars h.keys (Nat.lt_succ_of_le long)]
  show (if _ then _ else _) = _
  rw [if_pos distinct]
  show Option.bind _ _ = _
  rw [mapM_map_eq_some, String.ofList_toList]
  · rfl
  · intro a ha
    simp only [unescape_escape, (h.keys a ha).attributeName, bind, Option.bind, pure,
      String.ofList_toList]

/-! ## Pieces -/

/-- The inside of a tag. -/
def Tag.chars (t : Tag) : List Char := t.name.toList ++ attributeChars t.attributes

theorem splitTag?_append {inside : List Char} (plain : ∀ c ∈ inside, c ≠ '>' ∧ c ≠ '"' ∧ c ≠ '\'')
    (rest : List Char) : splitTag? none (inside ++ rest) =
      (splitTag? none rest).map fun (i, r) => (inside ++ i, r) := by
  induction inside with
  | nil => simp
  | cons c inside ih =>
    obtain ⟨close, double, single⟩ := plain c List.mem_cons_self
    rw [List.cons_append, splitTag?]
    simp only [if_neg close, double, single, decide_false, Bool.or_self, Bool.false_eq_true,
      if_false, ih fun d hd => plain d (List.mem_cons_of_mem c hd), Option.map_map]
    rfl

/-- What stands in quotes does not end a tag. -/
theorem splitTag?_quoted (value rest : List Char) (closed : '"' ∉ value) :
    splitTag? (some '"') (value ++ '"' :: rest) =
      (splitTag? none rest).map fun (i, r) => (value ++ '"' :: i, r) := by
  induction value with
  | nil => simp [splitTag?]
  | cons c value ih =>
    have other : c ≠ '"' := fun e => closed (e ▸ List.mem_cons_self)
    rw [List.cons_append, splitTag?]
    simp only [if_neg other, ih fun h => closed (List.mem_cons_of_mem c h), Option.map_map]
    rfl

theorem splitTag?_attributes (keys : ∀ a ∈ attributes, IsName a.1.toList) (rest : List Char) :
    splitTag? none (attributeChars attributes ++ rest) =
      (splitTag? none rest).map fun (i, r) => (attributeChars attributes ++ i, r) := by
  induction attributes with
  | nil => simp [attributeChars]
  | cons a attributes ih =>
    have key := keys a List.mem_cons_self
    have front : ∀ c ∈ ' ' :: (a.1.toList ++ ['=']), c ≠ '>' ∧ c ≠ '"' ∧ c ≠ '\'' := by
      intro c hc
      rcases List.mem_cons.mp hc with rfl | hc
      · decide
      · rcases List.mem_append.mp hc with hc | hc
        · exact ⟨key.ne hc rfl, key.ne hc rfl, key.ne hc rfl⟩
        · rw [List.mem_singleton.mp hc]
          decide
    have split : attributeChars (a :: attributes) ++ rest = ' ' :: (a.1.toList ++ ['=']) ++
        '"' :: (escape a.2.toList ++ '"' :: (attributeChars attributes ++ rest)) := by
      simp [attributeChars_cons]
    have quoted : splitTag? none ('"' :: (escape a.2.toList ++ '"' ::
        (attributeChars attributes ++ rest))) = (splitTag? none rest).map fun (i, r) =>
          ('"' :: (escape a.2.toList ++ '"' :: (attributeChars attributes ++ i)), r) := by
      have opens (cs : List Char) : splitTag? none ('"' :: cs) =
          (splitTag? (some '"') cs).map fun (i, r) => ('"' :: i, r) := by
        rw [splitTag?]
        rfl
      rw [opens, splitTag?_quoted _ _ (quote_not_mem_escape _),
        ih fun b hb => keys b (List.mem_cons_of_mem a hb), Option.map_map, Option.map_map]
      rfl
    rw [split, splitTag?_append front, quoted, Option.map_map]
    congr 1
    funext r
    simp [attributeChars_cons]

variable {t : Tag}

/-- A tag ends where it was closed. -/
theorem Tag.IsPlain.splitTag? (h : t.IsPlain) (rest : List Char) :
    splitTag? none (t.chars ++ rest) =
      (splitTag? none rest).map fun (i, r) => (t.chars ++ i, r) := by
  have name := splitTag?_append fun c hc =>
    ⟨h.name.ne hc rfl, h.name.ne hc rfl, h.name.ne hc rfl⟩
  rw [Tag.chars, List.append_assoc, name, splitTag?_attributes h.keys, Option.map_map]
  congr 1
  funext r
  exact Prod.ext (List.append_assoc ..).symm rfl

theorem Tag.IsPlain.name_chars (h : t.IsPlain) :
    t.chars.takeWhile (!isSpace ·) = t.name.toList ∧
      t.chars.dropWhile (!isSpace ·) = attributeChars t.attributes := by
  refine takeWhile_append_stop (fun c hc => ?_) fun c hc => ?_
  · rw [h.name.isSpace_eq_false hc]
    rfl
  · rcases attributes : t.attributes with _ | ⟨a, as⟩
    · rw [attributes] at hc
      cases hc
    · rw [attributes, attributeChars_cons] at hc
      cases hc
      rfl

/-- What begins with a letter after the angle is a tag. -/
theorem piece?_letter {c : Char} (letter : c.isAlpha = true) (cs : List Char) :
    piece? ('<' :: c :: cs) = (do
      let (inside, rest) ← splitTag? none (c :: cs)
      let (content, isSingle) := match beforeLast? '/' inside with
        | some content => (content, true)
        | none => (inside, false)
      let name := content.takeWhile (!isSpace ·)
      let tag ← Markup.tag? name (content.dropWhile (!isSpace ·))
      return (if isSingle then .single tag else .opening tag, rest)) := by
  have other {d : Char} (h : d.isAlpha = false) : c ≠ d := by
    rintro rfl
    rw [letter] at h
    cases h
  unfold piece?
  split
  · next e => exact absurd (List.cons.inj (List.cons.inj e).2).1 (other rfl)
  · next e => exact absurd (List.cons.inj (List.cons.inj e).2).1 (other rfl)
  · next e => exact absurd (List.cons.inj (List.cons.inj e).2).1 (other rfl)
  · next e => exact absurd (List.cons.inj (List.cons.inj e).2).1 (other rfl)
  · next e =>
    cases (List.cons.inj e).2
    rfl
  · next no e => exact absurd (List.cons.inj e).1.symm no
  · next e => cases e

theorem attributeChars_ends (some : attributes ≠ []) :
    ∃ front, attributeChars attributes = front ++ ['"'] := by
  obtain ⟨as, a, rfl⟩ := List.eq_nil_or_concat attributes |>.resolve_left some
  refine ⟨attributeChars as ++ ' ' :: (a.1.toList ++ '=' :: '"' :: escape a.2.toList), ?_⟩
  simp [attributeChars]

namespace Tag.IsPlain

/-- The inside of a tag does not end with the mark of a tag without content. -/
theorem chars_ends (h : t.IsPlain) : ∃ front c, t.chars = front ++ [c] ∧ c ≠ '/' := by
  rcases attributes : t.attributes with _ | ⟨a, as⟩
  · obtain ⟨front, c, name⟩ := List.eq_nil_or_concat t.name.toList |>.resolve_left h.name.ne_nil
    rw [List.concat_eq_append] at name
    refine ⟨front, c, ?_, h.name.ne (name ▸ List.mem_append_right _ List.mem_cons_self) rfl⟩
    rw [Tag.chars, attributes, name]
    exact List.append_nil _
  · obtain ⟨front, ends⟩ := attributeChars_ends (List.cons_ne_nil a as)
    refine ⟨t.name.toList ++ front, '"', ?_, by decide⟩
    rw [Tag.chars, attributes, ends, List.append_assoc]

theorem piece?_eq (h : t.IsPlain) {text inside rest : List Char}
    (ends : Markup.splitTag? none text = some (inside, rest)) :
    piece? ('<' :: (t.chars ++ text)) = (do
      let (content, isSingle) := match beforeLast? '/' (t.chars ++ inside) with
        | some content => (content, true)
        | none => (t.chars ++ inside, false)
      let name := content.takeWhile (!isSpace ·)
      let tag ← Markup.tag? name (content.dropWhile (!isSpace ·))
      return (if isSingle then .single tag else .opening tag, rest)) := by
  obtain ⟨c, cs, name⟩ := List.exists_cons_of_ne_nil h.name.ne_nil
  have letter := h.name.letters c (name ▸ List.mem_cons_self)
  have chars : t.chars ++ text = c :: (cs ++ attributeChars t.attributes ++ text) := by
    rw [Tag.chars, name]
    rfl
  have split := h.splitTag? text
  rw [ends] at split
  rw [chars] at split ⊢
  rw [piece?_letter letter, split]
  rfl

/-- A tag without content is read back. -/
theorem piece?_single (h : t.IsPlain) (rest : List Char) :
    piece? ('<' :: (t.chars ++ '/' :: '>' :: rest)) = some (.single t, rest) := by
  obtain ⟨take, drop⟩ := h.name_chars
  have ends : Markup.splitTag? none ('/' :: '>' :: rest) = some (['/'], rest) := rfl
  rw [h.piece?_eq ends, beforeLast?_concat, if_pos rfl]
  simp only [take, drop, h.tag?]
  rfl

/-- A tag with content is read back. -/
theorem piece?_opening (h : t.IsPlain) (rest : List Char) :
    piece? ('<' :: (t.chars ++ '>' :: rest)) = some (.opening t, rest) := by
  obtain ⟨take, drop⟩ := h.name_chars
  obtain ⟨front, c, ends, other⟩ := h.chars_ends
  have none : beforeLast? '/' t.chars = none := by
    rw [ends, beforeLast?_concat, if_neg other]
  have closed : Markup.splitTag? Option.none ('>' :: rest) = some ([], rest) := rfl
  rw [h.piece?_eq closed, List.append_nil, none]
  simp only [take, drop, h.tag?]
  rfl

theorem localized (h : t.IsPlain) : t.localized = t := by
  rw [Tag.localized, h.name.localName, String.ofList_toList]

end Tag.IsPlain

theorem piece?_closing {name : List Char} (h : IsName name) (rest : List Char) :
    piece? ('<' :: '/' :: (name ++ '>' :: rest)) = some (.closing (String.ofList name), rest) := by
  obtain ⟨take, drop⟩ := takeWhile_append_stop (p := (· ≠ '>')) (r := '>' :: rest)
    (fun c hc => decide_eq_true (h.ne hc rfl)) (by rintro c ⟨⟩; rfl)
  have untrimmed : (name.reverse.dropWhile isSpace).reverse = name := by
    obtain ⟨c, cs, reversed⟩ := List.exists_cons_of_ne_nil (List.reverse_ne_nil_iff.mpr h.ne_nil)
    have letter := h.isSpace_eq_false (List.mem_reverse.mp (reversed ▸ List.mem_cons_self))
    rw [reversed, List.dropWhile_cons_of_neg (by rw [letter]; exact Bool.false_ne_true),
      ← reversed, List.reverse_reverse]
  rw [piece?]
  simp only [take, drop, untrimmed]

/-! ## Documents -/

/-- A document whose names are made of letters. -/
structure Document.IsPlain (d : Document) : Prop where
  root : d.root.IsPlain
  children : ∀ t ∈ d.children, t.IsPlain

/-- The characters of elements without content. -/
def childrenChars (children : List Tag) : List Char :=
  children.flatMap fun t => '<' :: (t.chars ++ ['/', '>'])

theorem Tag.toList_text (t : Tag) : t.text.toList = '<' :: (t.chars ++ ['/', '>']) := by
  simp [Tag.text, Tag.chars, toList_attributesText]

theorem toList_join_children (children : List Tag) :
    (String.join (children.map Tag.text)).toList = childrenChars children := by
  induction children with
  | nil => rfl
  | cons t children ih =>
    rw [childrenChars, List.flatMap_cons, ← childrenChars, ← ih, ← t.toList_text]
    simp

/-- Elements are read up to the end of the one around them. -/
theorem children?_chars {children : List Tag} (plain : ∀ t ∈ children, t.IsPlain)
    {name : List Char} (h : IsName name) (rest : List Char) {fuel : Nat}
    (enough : children.length < fuel) :
    children? fuel (String.ofList name)
      (childrenChars children ++ '<' :: '/' :: (name ++ '>' :: rest)) = some children := by
  induction children generalizing fuel with
  | nil =>
    obtain ⟨fuel, rfl⟩ := Nat.exists_eq_add_one_of_ne_zero (Nat.ne_of_gt enough)
    rw [childrenChars, List.flatMap_nil, List.nil_append, children?, piece?_closing h]
    exact if_pos rfl
  | cons t children ih =>
    obtain ⟨fuel, rfl⟩ := Nat.exists_eq_add_one_of_ne_zero (Nat.ne_of_gt (Nat.zero_lt_of_lt enough))
    have chars : childrenChars (t :: children) ++ '<' :: '/' :: (name ++ '>' :: rest) =
        '<' :: (t.chars ++ '/' :: '>' ::
          (childrenChars children ++ '<' :: '/' :: (name ++ '>' :: rest))) := by
      simp [childrenChars]
    rw [chars, children?, (plain t List.mem_cons_self).piece?_single]
    simp only [ih (fun u hu => plain u (List.mem_cons_of_mem t hu)) (Nat.lt_of_succ_lt_succ enough)]
    rfl

theorem Document.toList_text (d : Document) : d.text.toList =
    if d.children = [] then '<' :: (d.root.chars ++ ['/', '>'])
    else '<' :: (d.root.chars ++ '>' ::
      (childrenChars d.children ++ '<' :: '/' :: (d.root.name.toList ++ ['>']))) := by
  rcases children : d.children with _ | ⟨t, ts⟩
  · rw [if_pos rfl, Document.text, children]
    exact d.root.toList_text
  · rw [if_neg (List.cons_ne_nil t ts), Document.text, children,
      if_neg (by exact Bool.false_ne_true), ← toList_join_children]
    simp [Tag.chars, toList_attributesText]

theorem Document.length_children (d : Document) :
    ∃ cs, d.text.toList = '<' :: cs ∧ d.children.length ≤ cs.length := by
  rw [d.toList_text]
  split
  · next none => exact ⟨_, rfl, by rw [none]; exact Nat.zero_le _⟩
  · refine ⟨_, rfl, ?_⟩
    have long : d.children.length ≤ (childrenChars d.children).length :=
      length_le_length_flatMap (fun _ => List.cons_ne_nil _ _) _
    simp only [List.length_append, List.length_cons]
    omega

theorem Document.IsPlain.documentFrom? {d : Document} (h : d.IsPlain) {fuel : Nat}
    (enough : d.children.length + 1 < fuel) : documentFrom? fuel d.text.toList = some d := by
  obtain ⟨fuel, rfl⟩ := Nat.exists_eq_add_one_of_ne_zero (Nat.ne_of_gt (Nat.zero_lt_of_lt enough))
  have localized : d.children.map Tag.localized = d.children := by
    rw [List.map_congr_left fun t ht => (h.children t ht).localized, List.map_id']
  rw [d.toList_text]
  split
  · next none =>
    rw [Markup.documentFrom?, h.root.piece?_single]
    simp only [h.root.localized, ← none]
  · have read := children?_chars h.children h.root.name [] (Nat.lt_of_succ_lt_succ enough)
    rw [String.ofList_toList] at read
    rw [Markup.documentFrom?, h.root.piece?_opening]
    simp only [read, h.root.localized, localized, bind, Option.bind, pure]

/-- A document is read back from its text. -/
theorem Document.IsPlain.ofText?_text {d : Document} (h : d.IsPlain) :
    Document.ofText? d.text = some d := by
  obtain ⟨cs, chars, long⟩ := d.length_children
  have enough : d.children.length + 1 < d.text.toList.length + 1 := by
    rw [chars, List.length_cons]
    omega
  have read := h.documentFrom? enough
  rw [chars] at read
  rw [Document.ofText?, chars]
  exact read

end Winding.Markup
