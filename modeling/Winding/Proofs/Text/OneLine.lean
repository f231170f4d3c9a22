import Winding.Operator.Report
import Winding.Proofs.Number.Exact
import Winding.Proofs.Number.Plain
import Winding.Proofs.Text.Lines

/-!
# Texts on one line

A text that is put together from others is on one line exactly if all of them are
(`oneLine_append`). Words, and the lines of a text, have no newline in them
(`newline_notMem_of_mem_wordsOf`, `newline_notMem_of_mem_linesOf`), nor have numbers that are written
in digits (`LineScalar`). A report is on one line whatever it reports
(`Operator.Report.oneLine_written`).
-/

namespace Winding

/-- A text without a newline. -/
def OneLine (s : String) : Prop := '\n' ∉ s.toList

instance (s : String) : Decidable (OneLine s) := inferInstanceAs (Decidable ('\n' ∉ s.toList))

theorem oneLine_append {s t : String} : OneLine (s ++ t) ↔ OneLine s ∧ OneLine t := by
  rw [OneLine, String.toList_append, List.mem_append, not_or]
  exact Iff.rfl

theorem OneLine.append {s t : String} (hs : OneLine s) (ht : OneLine t) : OneLine (s ++ t) :=
  oneLine_append.mpr ⟨hs, ht⟩

theorem oneLine_ofList {cs : List Char} : OneLine (String.ofList cs) ↔ '\n' ∉ cs := by
  rw [OneLine, String.toList_ofList]

theorem oneLine_toString {c : Char} : OneLine c.toString ↔ c ≠ '\n' := by
  rw [OneLine, Char.toString_eq_singleton, String.toList_singleton, List.mem_singleton]
  exact ne_comm

theorem OneLine.intercalate {s : String} (h : OneLine s) {ts : List String}
    (parts : ∀ t ∈ ts, OneLine t) : OneLine (s.intercalate ts) := by
  induction ts with
  | nil => exact (by decide : OneLine "")
  | cons t ts ih =>
    obtain ⟨first, more⟩ := List.forall_mem_cons.mp parts
    rcases ts with _ | ⟨u, ts⟩
    · rwa [String.intercalate_singleton]
    · rw [String.intercalate_cons_cons]
      exact (first.append h).append (ih more)

/-! ## Words and lines -/

theorem newline_notMem_of_dark {cs : List Char} (h : ∀ c ∈ cs, isBlank c = false) : '\n' ∉ cs := by
  intro newline
  have blank := h _ newline
  cases blank

theorem newline_notMem_of_mem_wordsOf {cs word : List Char} (h : word ∈ wordsOf cs) :
    '\n' ∉ word := by
  induction cs using wordsOf.induct with
  | case1 cs none =>
    rw [wordsOf] at h
    split at h
    · cases h
    · next found => cases none.symm.trans found
  | case2 cs c rest start ih =>
    rw [wordsOf] at h
    split at h
    · cases h
    · next start' =>
      cases start.symm.trans start'
      rcases List.mem_cons.mp h with rfl | later
      · have first : isBlank c = false := by
          have stop := List.head?_dropWhile_not isBlank cs
          rwa [← trimStart, start] at stop
        exact newline_notMem_of_dark
          (List.forall_mem_cons.mpr ⟨first, forall_dark List.all_takeWhile⟩)
      · exact ih later

/-- A newline ends a piece. -/
theorem exists_of_mem_pieces {cs piece : List Char} (h : piece ∈ pieces cs) :
    ∃ line, '\n' ∉ line ∧ (piece = line ∨ piece = line ++ ['\n']) := by
  induction cs generalizing piece with
  | nil => cases h
  | cons c cs ih =>
    rw [pieces] at h
    split at h
    · next newline =>
      rcases List.mem_cons.mp h with rfl | later
      · exact ⟨[], List.not_mem_nil, .inr (newline ▸ rfl)⟩
      · exact ih later
    · next other =>
      have longer {line : List Char} (some : '\n' ∉ line) : '\n' ∉ c :: line :=
        List.not_mem_cons_of_ne_of_not_mem (Ne.symm other) some
      split at h
      · rw [List.mem_singleton.mp h]
        exact ⟨[c], longer List.not_mem_nil, .inl rfl⟩
      · next first rest split =>
        rcases List.mem_cons.mp h with rfl | later
        · obtain ⟨line, none, e⟩ := ih (split ▸ List.mem_cons_self)
          exact ⟨c :: line, longer none, e.imp (congrArg (c :: ·)) (congrArg (c :: ·))⟩
        · exact ih (split ▸ List.mem_cons_of_mem first later)

theorem newline_notMem_of_mem_linesOf {cs line : List Char} (h : line ∈ linesOf cs) :
    '\n' ∉ line := by
  obtain ⟨piece, cut, rfl⟩ := List.mem_map.mp h
  obtain ⟨line, none, rfl | rfl⟩ := exists_of_mem_pieces cut
  · rwa [stripNewline_line none]
  · have turned : (line ++ ['\n']).reverse = '\n' :: line.reverse := by
      rw [List.reverse_append, List.reverse_singleton, List.singleton_append]
    unfold stripNewline
    rw [turned]
    split
    · next rest e =>
      -- a carriage return goes with the newline
      have line : line.reverse = '\r' :: rest := (List.cons.inj e).2
      intro inside
      refine none (List.mem_reverse.mp ?_)
      rw [line]
      exact List.mem_cons_of_mem _ (List.mem_reverse.mp inside)
    · next e =>
      rw [← (List.cons.inj e).2, List.reverse_reverse]
      exact none
    · next other => exact absurd rfl (other _)

theorem mem_of_mem_trim {cs : List Char} {c : Char} (h : c ∈ trim cs) : c ∈ cs := by
  have inside := (List.dropWhile_suffix isBlank).subset (List.mem_reverse.mp h)
  exact (List.dropWhile_suffix isBlank).subset (List.mem_reverse.mp inside)

/-! ## Numbers -/

theorem newline_notMem_digitsOf (n : Nat) : '\n' ∉ digitsOf n := by
  intro newline
  have digit := (AreDigits.digitsOf n).digits _ newline
  cases digit

theorem oneLine_nat (n : Nat) : OneLine (toString n) := by
  rw [OneLine, toString, instToStringNat, Nat.toList_repr]
  exact newline_notMem_digitsOf n

theorem oneLine_int (n : Int) : OneLine (toString n) := by
  rcases n with n | n
  · exact oneLine_nat n
  · exact .append (by decide) (oneLine_nat (n + 1))

theorem Decimal.oneLine_text (d : Decimal) : OneLine d.text := by
  refine oneLine_ofList.mpr fun newline => ?_
  have number := ofPlain?_isNumberChar (ofPlain?_chars d) _ newline
  cases number

namespace BinaryNumber

theorem oneLine_textWith {write : Nat → String} (h : ∀ n, OneLine (write n)) (x : BinaryNumber) :
    OneLine (x.textWith write) := by
  rcases x with ⟨negative, magnitude⟩ | negative | -
  · cases negative with
    | false => exact h magnitude
    | true => exact .append (by decide) (h magnitude)
  · cases negative with
    | false => exact (by decide : OneLine "inf")
    | true => exact (by decide : OneLine "-inf")
  · exact (by decide : OneLine "NaN")

theorem oneLine_text (f : BinaryFormat) (x : BinaryNumber) : OneLine (x.text f) :=
  oneLine_textWith (fun _ => Decimal.oneLine_text _) x

theorem oneLine_fixedText (f : BinaryFormat) (places : Nat) (x : BinaryNumber) :
    OneLine (x.fixedText f places) :=
  oneLine_textWith (fun _ => Decimal.oneLine_text _) x

end BinaryNumber

/-- A number system whose numbers are written without newlines. -/
class LineScalar (R : Type) [Scalar R] : Prop where
  text : ∀ a : R, OneLine (Scalar.text a)
  fixed : ∀ (places : Nat) (a : R), OneLine (Scalar.fixed places a)

instance : LineScalar Float where
  text x := BinaryNumber.oneLine_text .double (.ofFloat x)
  fixed places x := BinaryNumber.oneLine_fixedText .double places (.ofFloat x)

instance : LineScalar Whole where
  text a := oneLine_int a.value
  fixed _ a := oneLine_int a.value

/-! ## Reports -/

namespace Operator.Report

theorem newline_notMem_escapeChar (c : Char) : '\n' ∉ escapeChar c := by
  unfold escapeChar
  split_ifs with _ _ newline _ _ _ _ control
  iterate 7 decide
  · have digits : ∀ n < 16, hexDigit n ≠ '\n' := by decide
    have high := digits (c.toNat / 16) (by omega)
    have low := digits (c.toNat % 16) (Nat.mod_lt _ (by decide))
    simp [high.symm, low.symm]
  · simpa using Ne.symm newline

theorem oneLine_quoted (s : String) : OneLine (quoted s) := by
  refine oneLine_ofList.mpr fun newline => ?_
  have frame : '\n' ≠ '"' := by decide
  rcases List.mem_cons.mp newline with front | inside
  · exact frame front
  · rcases List.mem_append.mp inside with inside | back
    · obtain ⟨c, -, inside⟩ := List.mem_flatMap.mp inside
      exact newline_notMem_escapeChar c inside
    · exact frame (List.mem_singleton.mp back)

variable {R : Type} [Scalar R]

mutual

/-- A report is on one line, whatever texts it has in it. -/
theorem oneLine_written [LineScalar R] : ∀ r : Report R, OneLine r.written
  | .nothing => (by decide : OneLine "null")
  | .flag true => (by decide : OneLine "true")
  | .flag false => (by decide : OneLine "false")
  | .whole n => oneLine_int n
  | .number x => by
    rw [written]
    split
    · exact LineScalar.text x
    · decide
  | .text s => oneLine_quoted s
  | .list items => by
    rw [written]
    exact .append (.append (by decide) (.intercalate (by decide) (oneLine_writtenItems items)))
      (by decide)
  | .group fields => by
    rw [written]
    exact .append (.append (by decide) (.intercalate (by decide) (oneLine_writtenFields fields)))
      (by decide)

theorem oneLine_writtenItems [LineScalar R] :
    ∀ items : List (Report R), ∀ t ∈ writtenItems items, OneLine t
  | [] => nofun
  | item :: items =>
    List.forall_mem_cons.mpr ⟨oneLine_written item, oneLine_writtenItems items⟩

theorem oneLine_writtenFields [LineScalar R] :
    ∀ fields : List (String × Report R), ∀ t ∈ writtenFields fields, OneLine t
  | [] => nofun
  | (key, value) :: fields =>
    List.forall_mem_cons.mpr
      ⟨.append (.append (oneLine_quoted key) (by decide)) (oneLine_written value),
        oneLine_writtenFields fields⟩

end

end Operator.Report

end Winding
