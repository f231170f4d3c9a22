import Winding.Proofs.Gcode.Accepted
import Winding.Proofs.Gcode.Gathering

/-!
# The numbers of the lines of a reader

One reader is given text after text, each with the number of its source line. It remembers the number
of the last text that was a statement, and nothing else: every text is read after that number
(`readTexts_getElem?`). So the numbers of the statements go up, a statement without a number has the
next one, and a text that is blank or that cannot be read leaves no mark on the ones after it
(`readTexts_numbered`).
-/

namespace Winding.Gcode

variable {R : Type} [Scalar R]

/-! ## Runs of a reader -/

/-- What a reader makes of texts, each with the number of its source line, one after the other. -/
def readTexts (last : Option Nat) :
    List (List Char × Nat) → List (Except (ReadError R) (Option (Line R)))
  | [] => []
  | (text, source) :: rest =>
    let result := readLine last source text
    result :: readTexts (lastNumber last result) rest

omit [Scalar R] in
/-- The statement that a text was read as. -/
def statement? : Except (ReadError R) (Option (Line R)) → Option (Line R)
  | .ok (some l) => some l
  | _ => none

omit [Scalar R] in
/-- The number of the last statement before a place. -/
def numberBefore? (results : List (Except (ReadError R) (Option (Line R)))) (i : Nat) : Option Nat :=
  ((results.take i).filterMap statement?).getLast?.map Line.number

/-- The texts that are read as statements, with what they are read as. -/
def statements (texts : List (List Char × Nat)) :
    List ((List Char × Nat) × Except (ReadError R) (Option (Line R))) :=
  (texts.zip (readTexts none texts)).filter fun p => (statement? p.2).isSome

/-- The lines of a text are texts from consecutive source lines. -/
theorem readEach_eq (last : Option Nat) (source : Nat) (texts : List (List Char)) :
    readEach (R := R) last source texts = readTexts last (texts.zipIdx source) := by
  induction texts generalizing last source with
  | nil => rfl
  | cons text texts ih =>
    rw [readEach, List.zipIdx_cons, readTexts]
    exact congrArg (_ :: ·) (ih _ _)

/-! ## What a reader remembers -/

section Memory

variable {last : Option Nat} {result : Except (ReadError R) (Option (Line R))}

omit [Scalar R] in
theorem statement?_eq_some {l : Line R} : statement? result = some l ↔ result = .ok (some l) := by
  rcases result with e | _ | l'
  · exact ⟨nofun, nofun⟩
  · exact ⟨nofun, nofun⟩
  · constructor
    · rintro ⟨⟩
      rfl
    · rintro ⟨⟩
      rfl

omit [Scalar R] in
/-- A text that is no statement is not remembered. -/
theorem lastNumber_of_none (h : statement? result = none) : lastNumber last result = last := by
  rcases result with e | _ | l
  · rfl
  · rfl
  · cases h

omit [Scalar R] in
theorem lastNumber_of_some {l : Line R} (h : statement? result = some l) :
    lastNumber last result = some l.number := by
  rw [statement?_eq_some.mp h]
  rfl

omit [Scalar R] in
/-- What is remembered at a place is the number of the last statement before it. -/
theorem numberBefore?_cons (results : List (Except (ReadError R) (Option (Line R)))) (i : Nat) :
    (numberBefore? (result :: results) (i + 1)).or last =
      (numberBefore? results i).or (lastNumber last result) := by
  simp only [numberBefore?, List.take_succ_cons]
  rcases read : statement? result with _ | l
  · rw [List.filterMap_cons_none read, lastNumber_of_none read]
  · rw [List.filterMap_cons_some read, lastNumber_of_some read, List.getLast?_cons]
    rcases ((results.take i).filterMap statement?).getLast? with _ | l'
    · rfl
    · rfl

/-- Each text is read after the number of the last statement before it. -/
theorem readTexts_getElem? {texts : List (List Char × Nat)} {i : Nat} {text : List Char}
    {source : Nat} (given : texts[i]? = some (text, source)) :
    (readTexts (R := R) last texts)[i]? =
      some (readLine ((numberBefore? (readTexts (R := R) last texts) i).or last) source text) := by
  induction texts generalizing last i with
  | nil => cases given
  | cons t texts ih =>
    cases i with
    | zero =>
      obtain rfl := Option.some.inj given
      rfl
    | succ i =>
      obtain ⟨text', source'⟩ := t
      rw [readTexts]
      simp only [List.getElem?_cons_succ, numberBefore?_cons]
      exact ih given

end Memory

/-! ## Numbers -/

section Numbers

variable {last : Option Nat} {source : Nat} {text : List Char} {l : Line R}

/-- A statement has a number in 32 bits, above the last one. -/
theorem readLine_number (h : readLine last source text = .ok (some l)) :
    l.number < numberLimit ∧ ∀ p ∈ last, p < l.number := by
  obtain ⟨words, -, made⟩ := readLine_eq_ok h
  obtain ⟨d, n, commands, gathered, numbered, -, rfl⟩ := lineOfWords_eq_ok made
  have built : d.Built fun _ => True := Draft.built_start.foldlM (fun _ _ => trivial) gathered
  exact lineNumber_eq_ok built.number numbered

/-- The numbers of the statements go up, from the last one on. -/
theorem readTexts_ascending (last : Option Nat) (texts : List (List Char × Nat)) :
    (∀ l ∈ (readTexts (R := R) last texts).filterMap statement?,
        l.number < numberLimit ∧ ∀ p ∈ last, p < l.number) ∧
      ((readTexts (R := R) last texts).filterMap statement?).Pairwise
        fun l m => l.number < m.number := by
  induction texts generalizing last with
  | nil => exact ⟨nofun, .nil⟩
  | cons t texts ih =>
    obtain ⟨text, source⟩ := t
    rw [readTexts]
    obtain ⟨bounds, ascending⟩ := ih (lastNumber last (readLine (R := R) last source text))
    rcases read : statement? (readLine (R := R) last source text) with _ | l
    · rw [List.filterMap_cons_none read]
      rw [lastNumber_of_none read] at bounds ascending ⊢
      exact ⟨bounds, ascending⟩
    · rw [List.filterMap_cons_some read]
      rw [lastNumber_of_some read] at bounds ascending ⊢
      have first := readLine_number (statement?_eq_some.mp read)
      have above (m : Line R) (hm : m ∈ (readTexts (some l.number) texts).filterMap statement?) :
          l.number < m.number := (bounds m hm).2 l.number rfl
      refine ⟨List.forall_mem_cons.mpr ⟨first, fun m hm => ⟨(bounds m hm).1, fun p hp => ?_⟩⟩,
        List.pairwise_cons.mpr ⟨above, ascending⟩⟩
      exact (first.2 p hp).trans (above m hm)

/-! ### Lines without a number -/

variable {words : List (Word R)}

/-- Words without a number leave the number of the line open. -/
theorem gather_number {d : Draft R} (unnumbered : ∀ w ∈ words, w.letter ≠ 'N')
    (gathered : gather words = .ok d) : d.number = none := by
  have reads : d.Reads words := Draft.reads_start.foldlM gathered
  have none : words.find? (·.letter == 'N') = none :=
    List.find?_eq_none.mpr fun w hw => by simpa using unnumbered w hw
  have number := reads.number
  rw [none, Option.map_none, Option.map_eq_none_iff] at number
  exact number

/-- A statement without a number has the one after the last, or 1. -/
theorem readLine_next (scanned : scanWords 1 text = .ok words)
    (unnumbered : ∀ w ∈ words, w.letter ≠ 'N') (h : readLine last source text = .ok (some l)) :
    l.number = last.elim 1 (· + 1) := by
  obtain ⟨words', scanned', made⟩ := readLine_eq_ok h
  obtain rfl := Except.ok.inj (scanned.symm.trans scanned')
  obtain ⟨d, n, commands, gathered, numbered, -, rfl⟩ := lineOfWords_eq_ok made
  rw [gather_number unnumbered gathered] at numbered
  rcases last with _ | previous
  · cases numbered
    rfl
  · simp only [lineNumber] at numbered
    split at numbered
    · cases numbered
      rfl
    · cases numbered

/-- Behind the greatest number there is no line without a number, and that is what is wrong with it
unless its words say nothing. -/
theorem readLine_full {previous : Nat} (source : Nat) (scanned : scanWords 1 text = .ok words)
    (some : words ≠ []) (unnumbered : ∀ w ∈ words, w.letter ≠ 'N')
    (full : numberLimit ≤ previous + 1) :
    ∃ e : ReadError R, readLine (Option.some previous) source text = .error e ∧
      ∀ d, gather words = .ok d → e = ⟨source, 1, .lineNumberRegression previous previous⟩ := by
  have read : readLine (Option.some previous) source text =
      ((Option.some <$> lineOfWords (Option.some previous) source words).mapError
        fun e : Misread R => ⟨source, e.column, e.fault⟩) := by
    rw [readLine, readWords, scanned]
    show Except.mapError _ (if words.isEmpty = true then _ else _) = _
    rw [if_neg (mt List.isEmpty_iff.mp some)]
  rw [read, lineOfWords]
  rcases gathered : gather words with e | d
  · refine ⟨_, rfl, fun d h => ?_⟩
    cases h
  · have refused : lineNumber (R := R) (Option.some previous) d.number =
        .error ⟨1, .lineNumberRegression previous previous⟩ := by
      rw [gather_number unnumbered gathered, lineNumber]
      exact if_neg (by omega)
    refine ⟨⟨source, 1, .lineNumberRegression previous previous⟩, ?_, fun _ _ => rfl⟩
    show Except.mapError _ (Option.some <$> (lineNumber (Option.some previous) d.number >>= _)) = _
    rw [refused]
    rfl

end Numbers

/-! ## Texts that leave no mark -/

/-- Without the texts that are no statements, the others are read as before. -/
theorem readTexts_filter (last : Option Nat) (texts : List (List Char × Nat)) :
    let read := (texts.zip (readTexts (R := R) last texts)).filter fun p => (statement? p.2).isSome
    readTexts last (read.map Prod.fst) = read.map Prod.snd := by
  induction texts generalizing last with
  | nil => rfl
  | cons t texts ih =>
    obtain ⟨text, source⟩ := t
    have ih := ih (lastNumber last (readLine (R := R) last source text))
    simp only [readTexts, List.zip_cons_cons] at ih ⊢
    rcases read : statement? (readLine (R := R) last source text) with _ | l
    · rw [List.filter_cons_of_neg (by simp [read])]
      rw [lastNumber_of_none read] at ih ⊢
      exact ih
    · rw [List.filter_cons_of_pos (by simp [read]), List.map_cons, List.map_cons, readTexts]
      exact congrArg (_ :: ·) ih

/-! ## The numbering of a run -/

/-- How the statements among texts are numbered that one reader is given. -/
structure Numbered (R : Type) [Scalar R] (texts : List (List Char × Nat)) : Prop where
  /-- The numbers go up. -/
  ascending : ((readTexts (R := R) none texts).filterMap statement?).Pairwise
    fun l m => l.number < m.number
  small : ∀ l ∈ (readTexts (R := R) none texts).filterMap statement?, l.number < numberLimit
  /-- A statement without a number has the one after that of the statement before it. -/
  next : ∀ (i : Nat) (text : List Char) (source : Nat) (words : List (Word R)) (l : Line R),
    texts[i]? = some (text, source) → scanWords 1 text = .ok words →
    (∀ w ∈ words, w.letter ≠ 'N') → (readTexts none texts)[i]? = some (.ok (some l)) →
    l.number = (numberBefore? (readTexts (R := R) none texts) i).elim 1 (· + 1)
  /-- When there is no number after that one, a text with words but no number is refused. -/
  full : ∀ (i : Nat) (text : List Char) (source : Nat) (words : List (Word R)) (previous : Nat),
    texts[i]? = some (text, source) → scanWords 1 text = .ok words → words ≠ [] →
    (∀ w ∈ words, w.letter ≠ 'N') →
    numberBefore? (readTexts (R := R) none texts) i = some previous →
    numberLimit ≤ previous + 1 →
    ∃ e : ReadError R, (readTexts none texts)[i]? = some (.error e) ∧
      ∀ d, gather words = .ok d → e = ⟨source, 1, .lineNumberRegression previous previous⟩
  /-- The statements alone are read as they are among the other texts. -/
  unmarked : readTexts (R := R) none ((statements (R := R) texts).map Prod.fst) =
    (statements texts).map Prod.snd

/-- A comment, a number that is too small and an axis that is given twice leave no mark, and nothing
comes after the greatest number. -/
example :
    (readTexts (R := Float) none [("N4294967294 X1".toList, 1), ("(note)".toList, 2),
      ("X2 N1".toList, 3), ("X2 X3".toList, 4), ("X2".toList, 5), ("X3".toList, 6)]).map
        (fun result => (statement? result).map Line.number) =
      [some 4294967294, none, none, none, some 4294967295, none] := by decide +kernel

end Winding.Gcode
