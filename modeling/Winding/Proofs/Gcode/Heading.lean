import Winding.Proofs.Gcode.Feeds
import Winding.Proofs.Gcode.Layout
import Winding.Proofs.Gcode.Sealed
import Winding.Proofs.Number.Exact

/-!
# The heading of a recipe

The lines of a recipe up to the one that names its layer are its heading. They are found by their
first and last characters, and read as all other lines are. Blank lines and notes say nothing, and
neither does a line that is comments to its end (`Gcode.readLine_eq_none_iff`); but a line that only
begins with a comment may be a statement, also in the heading. The statements of a recipe come after
its heading exactly if no line of the heading has a word behind its comments (`read_headed`).
-/

namespace Winding

namespace Gcode

/-! ## Lines that say nothing -/

/-- A text of blanks and closed comments, and a note behind them. -/
inductive IsRemark : List Char → Prop
  | done : IsRemark []
  | note (rest : List Char) : IsRemark (';' :: rest)
  | gap {gap text : List Char} (h : IsGap gap) (more : IsRemark text) : IsRemark (gap ++ text)

theorem isRemark_append_blanks {blanks text : List Char} (h : ∀ c ∈ blanks, isBlank c = true)
    (more : IsRemark text) : IsRemark (blanks ++ text) := by
  induction blanks with
  | nil => exact more
  | cons c blanks ih =>
    obtain ⟨first, others⟩ := List.forall_mem_cons.mp h
    rw [List.cons_append, ← List.singleton_append]
    exact .gap (.blank first) (ih others)

theorem isRemark_of_trimStart {line : List Char} (h : IsRemark (trimStart line)) :
    IsRemark line := by
  rw [← List.takeWhile_append_dropWhile (p := isBlank) (l := line)]
  exact isRemark_append_blanks (List.all_eq_true.mp List.all_takeWhile) h

theorem isRemark_of_trim_nil {line : List Char} (h : trim line = []) : IsRemark line := by
  obtain ⟨blanks, blank, whole⟩ := exists_blanks (trimStart line)
  rw [← trim, h, List.nil_append] at whole
  refine isRemark_of_trimStart ?_
  rw [whole, ← List.append_nil blanks]
  exact isRemark_append_blanks blank .done

theorem isRemark_of_trim_note {line cs : List Char} (h : trim line = ';' :: cs) :
    IsRemark line := by
  obtain ⟨blanks, -, whole⟩ := exists_blanks (trimStart line)
  rw [← trim, h] at whole
  refine isRemark_of_trimStart ?_
  rw [whole]
  exact .note _

variable {R : Type} [Scalar R] {last : Option Nat} {source : Nat} {text : List Char}

theorem spells_nil_iff : Spells (R := R) text [] ↔ IsRemark text := by
  constructor
  · intro h
    generalize none : ([] : List (Token R)) = ts at h
    induction h with
    | done => exact .done
    | note rest => exact .note rest
    | gap h _ ih => exact .gap h (ih none)
    | word => cases none
  · intro h
    induction h with
    | done => exact .done
    | note rest => exact .note rest
    | gap h _ ih => exact .gap h ih

/-- A line is no statement exactly if it says nothing. -/
theorem readLine_eq_none_iff : readLine (R := R) last source text = .ok none ↔ IsRemark text := by
  rw [← spells_nil_iff (R := R)]
  constructor
  · intro h
    obtain ⟨words, scanned, rest⟩ := bind_eq_ok (mapError_eq_ok h)
    split at rest
    · next none =>
      rw [List.isEmpty_iff.mp none] at scanned
      exact spells_of_scanWords scanned
    · obtain ⟨l, -, e⟩ := map_eq_ok rest
      cases e
  · intro h
    obtain ⟨words, scanned, none⟩ := h.scanWords 1
    obtain rfl := List.map_eq_nil_iff.mp none
    rw [readLine, readWords, scanned]
    rfl

/-! ## The lines that statements come from -/

theorem source_of_readLine {l : Line R} (h : readLine last source text = .ok (some l)) :
    l.source = source := by
  obtain ⟨words, -, made⟩ := readLine_eq_ok h
  obtain ⟨d, n, commands, -, -, -, rfl⟩ := lineOfWords_eq_ok made
  rfl

/-- Line `n` of texts that are counted from `source` on says something. -/
def Speaks (source : Nat) (texts : List (List Char)) (n : Nat) : Prop :=
  ∃ i text, texts[i]? = some text ∧ ¬IsRemark text ∧ source + i = n

theorem not_speaks_nil {n : Nat} : ¬Speaks source [] n := by
  rintro ⟨i, text, at_, -⟩
  cases at_

theorem speaks_cons {texts : List (List Char)} {n : Nat} :
    Speaks source (text :: texts) n ↔
      (¬IsRemark text ∧ source = n) ∨ Speaks (source + 1) texts n := by
  constructor
  · rintro ⟨_ | i, t, at_, statement, place⟩
    · cases at_
      exact .inl ⟨statement, place⟩
    · exact .inr ⟨i, t, at_, statement, by omega⟩
  · rintro (⟨statement, place⟩ | ⟨i, t, at_, statement, place⟩)
    · exact ⟨0, text, rfl, statement, place⟩
    · exact ⟨i + 1, t, at_, statement, by omega⟩

/-- The statements of a program come from the lines that say something. -/
theorem exists_source_iff {texts : List (List Char)} {ls : List (Line R)}
    (h : readLines last source texts = .ok ls) (n : Nat) :
    (∃ l ∈ ls, l.source = n) ↔ Speaks source texts n := by
  induction texts generalizing last source ls with
  | nil =>
    cases h
    exact iff_of_false (by simp) not_speaks_nil
  | cons text texts ih =>
    obtain ⟨read, first, rest⟩ := bind_eq_ok h
    rw [speaks_cons]
    cases read with
    | none =>
      rw [ih rest]
      exact (or_iff_right fun said => said.1 (readLine_eq_none_iff.mp first)).symm
    | some line =>
      obtain ⟨ls', others, rfl⟩ := map_eq_ok rest
      have statement : ¬IsRemark text := fun remark =>
        nomatch first.symm.trans (readLine_eq_none_iff.mpr remark)
      rw [← ih others, and_iff_right statement, ← source_of_readLine first]
      exact List.exists_mem_cons_iff ..

end Gcode

namespace Recipe

open Gcode

variable {R : Type} [Scalar R] {digest : String → String} {text : String} {r : Recipe R}

/-! ## The heading -/

/-- A line of the heading is passed or frames the layer. It says nothing, or it begins with a
comment. -/
theorem IsPassed.isRemark {line : List Char} (h : IsPassed line) :
    IsRemark line ∨ (trim line).head? = some '(' := by
  rcases h with none | ⟨-, c, cs, starts, rfl | rfl⟩
  · exact .inl (isRemark_of_trim_nil none)
  · exact .inr (by rw [starts]; rfl)
  · exact .inl (isRemark_of_trim_note starts)

theorem head?_of_framed {line name : List Char} (h : framed? layerStart (trim line) = some name) :
    (trim line).head? = some '(' := by
  obtain ⟨inner, whole, -⟩ := framed?_eq_some_iff.mp h
  rw [whole]
  rfl

/-- What is accepted was sealed, names its layer and is read line by line. -/
theorem read_eq_ok (h : read digest text = .ok r) :
    ∃ body, IsSealed digest text.toList body ∧ NamesLayer (linesOf body) r.layer.toList ∧
      readLines none 1 (linesOf body) = .ok r.lines := by
  unfold read at h
  split at h
  · cases h
  · next body expected trailer =>
    simp only at h
    split at h
    · cases h
    · next same =>
      split at h
      · cases h
      · next layer found =>
        split at h
        · cases h
        · next lines program =>
          cases h
          obtain ⟨last, blanks, inner, whole, closed, line, blank, framed, rfl⟩ :=
            splitTrailer?_eq_some trailer
          refine ⟨body, ⟨last, blanks, inner, whole, closed, line, blank, framed,
            (not_not.mp same).symm⟩, ?_, program⟩
          rw [String.toList_ofList]
          exact findLayer?_eq_some_iff.mp found

/-- No line of a heading is a statement. -/
def IsSilent (R : Type) [Scalar R] (lines : List (List Char)) : Prop :=
  ∀ l ∈ lines, ∀ last source, readLine (R := R) last source l = .ok none

theorem isSilent_iff {lines : List (List Char)} :
    IsSilent R lines ↔ ∀ l ∈ lines, IsRemark l :=
  forall₂_congr fun _ _ => ⟨fun h => readLine_eq_none_iff.mp (h none 0),
    fun h _ _ => readLine_eq_none_iff.mpr h⟩

/-- The heading of an accepted recipe: the lines before the one that names the layer, and that
one. -/
structure Headed (digest : String → String) (text : String) (r : Recipe R)
    (before : List (List Char)) (named : List Char) : Prop where
  /-- They are the first lines of what was sealed. -/
  body : ∃ body rest, IsSealed digest text.toList body ∧ linesOf body = before ++ named :: rest
  passed : ∀ l ∈ before, IsPassed l
  layer : framed? layerStart (trim named) = some r.layer.toList
  /-- Only a line that begins with a comment can say something. -/
  starts : ∀ l ∈ before ++ [named], IsRemark l ∨ (trim l).head? = some '('
  /-- No line is a statement exactly if all that begin with a comment are comments to their end. -/
  silent : IsSilent R (before ++ [named]) ↔
    ∀ l ∈ before ++ [named], (trim l).head? = some '(' → IsRemark l
  /-- No line is a statement exactly if all statements come from later lines. -/
  statements : IsSilent R (before ++ [named]) ↔ ∀ s ∈ r.lines, before.length + 1 < s.source

/-- Every accepted recipe has a heading, and all its statements come after it exactly if no line of
the heading that begins with a comment has a word behind its comments. -/
theorem read_headed (h : read digest text = .ok r) :
    ∃ before named, Headed digest text r before named := by
  obtain ⟨body, isSealed, ⟨before, named, rest, split, passed, framed, -⟩, program⟩ := read_eq_ok h
  have starts : ∀ l ∈ before ++ [named], IsRemark l ∨ (trim l).head? = some '(' := by
    intro l hl
    rcases List.mem_append.mp hl with earlier | this
    · exact (passed l earlier).isRemark
    · rw [List.mem_singleton.mp this]
      exact .inr (head?_of_framed framed)
  refine ⟨before, named, ⟨body, rest, isSealed, split⟩, passed, framed, starts, ?_, ?_⟩
  · rw [isSilent_iff]
    exact forall₂_congr fun l hl => ⟨fun remark _ => remark, fun h => (starts l hl).elim id h⟩
  · have sources := exists_source_iff program
    rw [isSilent_iff]
    constructor
    · intro remarks s hs
      obtain ⟨i, line, at_, statement, place⟩ := (sources s.source).mp ⟨s, hs, rfl⟩
      by_contra early
      refine statement (remarks line (List.mem_of_getElem? (i := i) ?_))
      have inside : i < (before ++ [named]).length := by
        rw [List.length_append, List.length_singleton]
        omega
      rw [split, ← List.singleton_append, ← List.append_assoc,
        List.getElem?_append_left inside] at at_
      exact at_
    · intro late l hl
      by_contra statement
      obtain ⟨i, at_⟩ := List.getElem?_of_mem hl
      have inside : i < (before ++ [named]).length := (List.getElem?_eq_some_iff.mp at_).1
      obtain ⟨s, hs, place⟩ := (sources (1 + i)).mpr ⟨i, l, by
        rw [split, ← List.singleton_append, ← List.append_assoc, List.getElem?_append_left inside,
          at_], statement, rfl⟩
      have after := late s hs
      rw [List.length_append, List.length_singleton] at inside
      omega

/-- A sealed body with a layer is read if its program is. -/
theorem exists_read_of_program (body : String) (name : List Char) (sources : List Nat)
    (found : findLayer? (linesOf (closed body).toList) = some name)
    (program : (readProgram (R := R) (closed body)).toOption.map (·.map Line.source) =
      some sources) :
    ∃ r : Recipe R, read Sha256.hex (sealText Sha256.hex body) = .ok r ∧
      r.layer = String.ofList name ∧ r.lines.map Line.source = sources := by
  have empty : ∀ c ∈ "".toList, isBlank c = true := nofun
  have sealed_ := read_seal (R := R) isDigest_hex body empty
  rw [String.append_empty, found] at sealed_
  rcases accepted : readProgram (R := R) (closed body) with e | lines
  · rw [accepted] at program
    cases program
  · rw [accepted] at sealed_ program
    exact ⟨_, sealed_, rfl, Option.some.inj program⟩

/-- The heading of a recipe with notes and a comment above its layer. -/
theorem noted_headed : ∃ (r : Recipe Whole) (before : List (List Char)) (named : List Char),
    Headed Sha256.hex (sealText Sha256.hex "; a note\n\n(made by hand)\n(LAYER X)\nM0\n") r
      before named := by
  obtain ⟨r, accepted, -, -⟩ := exists_read_of_program (R := Whole)
    "; a note\n\n(made by hand)\n(LAYER X)\nM0\n" ['X'] [5] (by decide) (by decide +kernel)
  exact ⟨r, read_headed accepted⟩

/-- A statement behind a comment is accepted above the line that names the layer. -/
theorem statement_above_layer :
    linesOf "(note) M0\n(LAYER X)\nM0\n".toList =
        ["(note) M0".toList, "(LAYER X)".toList, "M0".toList] ∧
      ∃ r : Recipe Whole, read Sha256.hex (sealText Sha256.hex "(note) M0\n(LAYER X)\nM0\n") =
        .ok r ∧ r.layer = "X" ∧ r.lines.map Line.source = [1, 3] :=
  ⟨by decide, exists_read_of_program _ ['X'] _ (by decide) (by decide +kernel)⟩

end Recipe

end Winding
