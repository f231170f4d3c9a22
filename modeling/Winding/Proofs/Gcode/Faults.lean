import Winding.Gcode.RecipeFile
import Winding.Proofs.Gcode.Accepted
import Winding.Proofs.Gcode.Sealed
import Winding.Proofs.Text.OneLine

/-!
# What is told about a faulty recipe

Faults repeat letters and numbers of the recipe. Whatever the recipe is, they are told on one line
(`Recipe.oneLine_ofText`), and so is the layer that it names (`Recipe.oneLine_layer`).
-/

namespace Winding

namespace Gcode

variable {R : Type}

/-! ## Faults -/

theorem oneLine_quoted {c : Char} (h : c ≠ '\n') : OneLine (quoted c) :=
  .append (.append (by decide) (oneLine_toString.mpr h)) (by decide)

theorem Code.oneLine_text (code : Code) : OneLine code.text := by
  cases code <;> decide

/-- What a fault repeats of the line. -/
def Fault.repeats : Fault R → List Char
  | .malformedNumber text | .unknownFunction text | .invalidLineNumber text => text.toList
  | .unexpectedCharacter c | .unknownLetter c | .duplicateWord c | .parameterWithoutFunction c
  | .unexpectedParameter _ c | .missingParameter _ c | .duplicateParameter _ c => [c]
  | .invalidParameter _ c text => c :: text.toList
  | .duplicateMotion | .lineNumberRegression _ _ | .nonPositiveFeed _ | .unterminatedComment => []

/-- What a fault repeats is on its line. -/
def Fault.Inline (f : Fault R) : Prop := '\n' ∉ f.repeats

theorem Fault.oneLine_message [Scalar R] [LineScalar R] {f : Fault R} (h : f.Inline) :
    OneLine f.message := by
  have letter {c : Char} {rest : List Char} (h : '\n' ∉ c :: rest) : OneLine (quoted c) :=
    oneLine_quoted (Ne.symm (List.ne_of_not_mem_cons h))
  cases f with
  | malformedNumber text | invalidLineNumber text => exact .append (.append (by decide) h) (by decide)
  | unknownFunction text => exact .append (by decide) h
  | unexpectedCharacter c | unknownLetter c => exact .append (by decide) (letter h)
  | duplicateWord c | parameterWithoutFunction c =>
    exact .append (.append (by decide) (letter h)) (by decide)
  | unexpectedParameter code c | missingParameter code c =>
    exact .append (.append code.oneLine_text (by decide)) (letter h)
  | duplicateParameter code c =>
    exact .append (.append (.append code.oneLine_text (by decide)) (letter h)) (by decide)
  | invalidParameter code c text =>
    exact .append (.append (.append (.append code.oneLine_text (by decide)) (letter h)) (by decide))
      (List.not_mem_of_not_mem_cons h)
  | lineNumberRegression previous found =>
    exact .append (.append (.append (by decide) (oneLine_nat found)) (by decide))
      (oneLine_nat previous)
  | nonPositiveFeed feed => exact .append (by decide) (LineScalar.text feed)
  | duplicateMotion => exact (by decide : OneLine "more than one motion code on the line")
  | unterminatedComment => exact (by decide : OneLine "unterminated comment")

/-! ## Words -/

/-- Both the letter and the number of a word are on its line. -/
structure Word.Inline (w : Word R) : Prop where
  letter : w.letter ≠ '\n'
  raw : '\n' ∉ w.raw

theorem Word.Inline.oneLine {w : Word R} (h : w.Inline) : OneLine (String.ofList w.raw) :=
  oneLine_ofList.mpr h.raw

theorem newline_notMem_of_isNumberChar {raw : List Char} (h : ∀ c ∈ raw, isNumberChar c = true) :
    '\n' ∉ raw := by
  intro newline
  have number := h _ newline
  cases number

theorem toUpper_ne_newline {c : Char} (h : c.isAlpha = true) : c.toUpper ≠ '\n' := by
  intro newline
  have value : c.toUpper.val = 10 := by rw [newline]; rfl
  unfold Char.toUpper at value
  split at value
  · next lower =>
    have low : (97 : UInt32) ≤ c.val := lower.1
    have shifted : c.val + (65 - 97) = 10 := value
    have back : c.val = 10 - (65 - 97) := by rw [← shifted, UInt32.add_sub_cancel]
    rw [back] at low
    exact absurd low (by decide)
  · have same : c = '\n' := Char.ext value
    rw [same] at h
    cases h

variable [Scalar R]

/-- Whatever a text is, its words are inline, and so is what a fault repeats of it. -/
theorem scanWords_inline (column : Nat) (text : List Char) :
    match scanWords (R := R) column text with
    | .ok words => ∀ w ∈ words, w.Inline
    | .error e => e.fault.Inline := by
  have digits (cs : List Char) : '\n' ∉ cs.takeWhile isNumberChar :=
    newline_notMem_of_isNumberChar (List.all_eq_true.mp List.all_takeWhile)
  induction column, text using scanWords.induct with
  | case1 =>
    rw [scanWords]
    exact List.forall_mem_nil _
  | case2 column c cs blank ih => rwa [scanWords_blank blank]
  | case3 column cs blank =>
    rw [scanWords, if_neg blank, if_pos rfl]
    exact List.forall_mem_nil _
  | case4 column cs unclosed =>
    rw [scanWords_comment, unclosed]
    exact List.not_mem_nil
  | case5 column cs rest closed _ _ ih => rwa [scanWords_comment, closed]
  | case6 column c cs blank line comment alpha raw =>
    rename_i malformed
    have malformed : Decimal.ofPlain? (cs.takeWhile isNumberChar) = none := malformed
    rw [scanWords, if_neg blank, if_neg line, if_neg comment, if_pos alpha]
    simp only [malformed]
    exact oneLine_ofList.mpr (digits cs)
  | case7 column c cs blank line comment alpha raw =>
    rename_i d number ih
    have number : Decimal.ofPlain? (cs.takeWhile isNumberChar) = some d := number
    rw [scanWords, if_neg blank, if_neg line, if_neg comment, if_pos alpha]
    simp only [number]
    have ih : match scanWords (R := R) (column + 1 + (cs.takeWhile isNumberChar).length)
        (cs.dropWhile isNumberChar) with
      | .ok words => ∀ w ∈ words, w.Inline
      | .error e => e.fault.Inline := ih
    rcases rest : scanWords (R := R) (column + 1 + (cs.takeWhile isNumberChar).length)
      (cs.dropWhile isNumberChar) with e | words
    · rw [rest] at ih
      exact ih
    · rw [rest] at ih
      exact List.forall_mem_cons.mpr ⟨⟨toUpper_ne_newline alpha, digits cs⟩, ih⟩
  | case8 column c cs blank line comment other =>
    rw [scanWords, if_neg blank, if_neg line, if_neg comment, if_neg other]
    intro newline
    rw [← List.mem_singleton.mp newline] at blank
    exact blank rfl

/-! ## Lines -/

namespace Draft

variable {d : Draft R} {w : Word R} {e : Misread R}

theorem take_inline (inline : w.Inline) (h : d.take w = .error e) :
    e.fault.Inline := by
  have letter : '\n' ∉ [w.letter] :=
    List.not_mem_cons_of_ne_of_not_mem inline.letter.symm List.not_mem_nil
  have parameter (h : d.takeParameter w = .error e) : e.fault.Inline := by
    unfold takeParameter at h
    split at h
    · cases h
      exact letter
    · cases h
  have axis (h : d.takeAxis w = .error e) : e.fault.Inline := by
    unfold takeAxis at h
    split at h
    · cases h
      exact letter
    · cases h
  have code (h : d.takeCode w = .error e) : e.fault.Inline := by
    unfold takeCode at h
    split at h
    · cases h
      exact oneLine_ofList.mpr (List.not_mem_cons_of_ne_of_not_mem inline.letter.symm inline.raw)
    · split at h
      · cases h
        exact List.not_mem_nil
      · cases h
    · cases h
  unfold take at h
  split at h
  · unfold takeNumber at h
    split at h
    · cases h
      exact (by decide : '\n' ∉ ['N'])
    · split at h
      · cases h
        exact inline.oneLine
      · cases h
  · exact axis h
  · exact axis h
  · exact axis h
  · split at h
    · exact parameter h
    · unfold takeFeed at h
      split at h
      · cases h
        exact (by decide : '\n' ∉ ['F'])
      · split at h
        · cases h
          exact List.not_mem_nil
        · cases h
  · split at h
    · exact parameter h
    · cases h
      exact (by decide : '\n' ∉ ['B'])
  iterate 5 exact parameter h
  · exact code h
  · exact code h
  · cases h
    exact letter

end Draft

theorem gather_inline {words : List (Word R)} {e : Misread R}
    (inline : ∀ w ∈ words, w.Inline) (h : gather words = .error e) : e.fault.Inline := by
  unfold gather at h
  generalize Draft.start = d at h
  induction words generalizing d with
  | nil => cases h
  | cons w words ih =>
    obtain ⟨first, more⟩ := List.forall_mem_cons.mp inline
    rcases bind_eq_error h with h | ⟨d', -, h⟩
    · exact d.take_inline first h
    · exact ih more d' h

omit [Scalar R] in
theorem parameterFault?_inline {code : Code} {seen : List Char} {params : List (Word R)}
    {e : Misread R} (inline : ∀ w ∈ params, w.Inline)
    (h : parameterFault? code seen params = some e) : e.fault.Inline := by
  induction params generalizing seen with
  | nil => cases h
  | cons w params ih =>
    obtain ⟨first, more⟩ := List.forall_mem_cons.mp inline
    have letter : '\n' ∉ [w.letter] :=
      List.not_mem_cons_of_ne_of_not_mem first.letter.symm List.not_mem_nil
    unfold parameterFault? at h
    split at h
    · cases h
      exact letter
    · split at h
      · cases h
        exact letter
      · exact ih more h

omit [Scalar R] in
theorem invalid_inline {code : Code} {w : Word R} (inline : w.Inline) :
    (invalid code w).fault.Inline :=
  List.not_mem_cons_of_ne_of_not_mem inline.letter.symm inline.oneLine

omit [Scalar R] in
theorem requireP_inline {α : Type} {code : Code} {column : Nat} {params : List (Word R)}
    {read : Word R → Option α} {e : Misread R} (inline : ∀ w ∈ params, w.Inline)
    (h : requireP code column params read = .error e) : e.fault.Inline := by
  unfold requireP at h
  split at h
  · cases h
    exact (by decide : '\n' ∉ ['P'])
  · next w found =>
    split at h
    · cases h
      exact invalid_inline (inline w (List.mem_of_find?_eq_some found))
    · cases h

theorem pinParam_inline {params : List (Word R)} {letter : Char} {e : Misread R}
    (inline : ∀ w ∈ params, w.Inline) (h : pinParam params letter = .error e) :
    e.fault.Inline := by
  unfold pinParam at h
  split at h
  · cases h
  · next w found =>
    split at h
    · cases h
      exact invalid_inline (inline w (List.mem_of_find?_eq_some found))
    · cases h

theorem commandOf_inline {target : Target R} {feed : Option R} {code : Code} {column : Nat}
    {params : List (Word R)} {e : Misread R} (inline : ∀ w ∈ params, w.Inline)
    (h : commandOf target feed code column params = .error e) : e.fault.Inline := by
  unfold commandOf at h
  split at h
  · next found =>
    cases h
    exact parameterFault?_inline inline found
  · split at h
    · cases h
    iterate 4
      · exact requireP_inline inline (map_eq_error h)
    · cases h
    · cases h
    · rcases bind_eq_error h with h | ⟨front, -, h⟩
      · exact pinParam_inline inline h
      · rcases bind_eq_error h with h | ⟨back, -, h⟩
        · exact pinParam_inline inline h
        · split at h
          · cases h
            exact (by decide : '\n' ∉ ['F'])
          · cases h

theorem slotCommand_inline {s : Slot R} {target : Target R} {feed : Option R} {e : Misread R}
    (inline : ∀ w ∈ s.params, w.Inline) (h : s.command target feed = .error e) :
    e.fault.Inline := by
  cases s with
  | axes => cases h
  | call code column params => exact commandOf_inline inline h

omit [Scalar R] in
theorem lineNumber_inline {last : Option Nat} {given : Option (Nat × Nat)} {e : Misread R}
    (h : lineNumber last given = .error e) : e.fault.Inline := by
  unfold lineNumber at h
  split at h
  · split at h
    · split at h
      · cases h
        exact List.not_mem_nil
      · cases h
    · cases h
  · split at h
    · split at h
      · cases h
      · cases h
        exact List.not_mem_nil
    · cases h

theorem lineOfWords_inline {last : Option Nat} {source : Nat} {words : List (Word R)}
    {e : Misread R} (inline : ∀ w ∈ words, w.Inline)
    (h : lineOfWords last source words = .error e) : e.fault.Inline := by
  rcases bind_eq_error h with h | ⟨d, gathered, h⟩
  · exact gather_inline inline h
  · have built : d.Built Word.Inline := Draft.built_start.foldlM inline gathered
    rcases bind_eq_error h with h | ⟨number, -, h⟩
    · exact lineNumber_inline h
    · rcases bind_eq_error h with h | ⟨commands, -, h⟩
      · obtain ⟨s, hs, failed⟩ := mapM_eq_error h
        exact slotCommand_inline (built.params s (List.mem_reverse.mp hs)) failed
      · cases h

theorem readLine_inline {last : Option Nat} {source : Nat} {text : List Char} {e : ReadError R}
    (h : readLine last source text = .error e) : e.fault.Inline := by
  obtain ⟨misread, unread, rfl⟩ := mapError_eq_error h
  have scanned := scanWords_inline (R := R) 1 text
  rcases bind_eq_error unread with h | ⟨words, read, h⟩
  · rwa [h] at scanned
  · rw [read] at scanned
    split at h
    · cases h
    · exact lineOfWords_inline scanned (map_eq_error h)

theorem readLines_inline {last : Option Nat} {source : Nat} {texts : List (List Char)}
    {e : ReadError R} (h : readLines last source texts = .error e) : e.fault.Inline := by
  induction texts generalizing last source with
  | nil => cases h
  | cons text texts ih =>
    rcases bind_eq_error h with h | ⟨read, -, h⟩
    · exact readLine_inline h
    · cases read with
      | none => exact ih h
      | some line => exact ih (map_eq_error h)

end Gcode

/-! ## Recipes -/

namespace Recipe

/-- The layer that is named stands on one of the lines. -/
theorem NamesLayer.newline_notMem {lines : List (List Char)} {name : List Char}
    (h : NamesLayer lines name) (none : ∀ line ∈ lines, '\n' ∉ line) : '\n' ∉ name := by
  obtain ⟨before, line, after, rfl, -, framed, -⟩ := h
  obtain ⟨inner, trimmed, rfl⟩ := framed?_eq_some_iff.mp framed
  intro newline
  have inside : '\n' ∈ trim line := by
    rw [trimmed]
    exact List.mem_append_right _ (List.mem_append_left _ (mem_of_mem_trim newline))
  exact none line (by simp) (mem_of_mem_trim inside)

variable {R : Type} [Scalar R]

theorem oneLine_layer {text : String} {r : Recipe R} (h : ofText text = .ok r) :
    OneLine r.layer := by
  have h := mapError_eq_ok h
  unfold Recipe.read at h
  split at h
  · cases h
  · simp only at h
    split at h
    · cases h
    · split at h
      · cases h
      · next found =>
        split at h
        · cases h
        · cases h
          have named := findLayer?_eq_some_iff.mp found
          exact oneLine_ofList.mpr
            (named.newline_notMem fun _ => newline_notMem_of_mem_linesOf)

theorem splitTrailer?_isHexDigit {text body hash : List Char}
    (h : splitTrailer? text = some (body, hash)) : hash.all isHexDigit = true := by
  obtain ⟨found, -, h⟩ := Option.bind_eq_some_iff.mp h
  split at h
  · next digits =>
    cases h
    exact (Bool.and_eq_true_iff.mp digits).2
  · cases h

/-- What is wrong with a recipe text is told on one line. -/
theorem oneLine_ofText [LineScalar R] {text : String} {e : RecipeError R}
    (h : ofText text = .error e) : OneLine e.message := by
  obtain ⟨fault, unread, rfl⟩ := mapError_eq_error h
  unfold Recipe.read at unread
  split at unread
  · cases unread
    exact (by decide : OneLine "Recipe has no (SHA256 ...) trailer")
  · next body expected trailer =>
    simp only at unread
    split at unread
    · cases unread
      have given : OneLine (String.ofList expected) := oneLine_ofList.mpr fun newline =>
        nomatch List.all_eq_true.mp (splitTrailer?_isHexDigit trailer) _ newline
      have actual : OneLine (Sha256.hex (String.ofList body)) := fun newline =>
        ((isDigest_hex _).isHexDigit _ newline).2.2 rfl
      exact .append (.append (.append (by decide) given) (by decide)) actual
    · split at unread
      · cases unread
        exact (by decide : OneLine "Recipe does not name its layer")
      · split at unread
        · next e unreadable =>
          cases unread
          have fault := Gcode.Fault.oneLine_message (Gcode.readLines_inline unreadable)
          have place : OneLine ("line " ++ toString e.line ++ ", column " ++ toString e.column) :=
            .append (.append (.append (by decide) (oneLine_nat e.line)) (by decide))
              (oneLine_nat e.column)
          exact .append (by decide) (.append (place.append (by decide)) fault)
        · cases unread

end Recipe

end Winding
