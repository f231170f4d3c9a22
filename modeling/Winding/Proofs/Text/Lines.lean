import Winding.Proofs.Basic
import Winding.Text.Blank

/-!
# Blanks and lines of a text

What trimming takes off a text (`trimEnd_append_blanks`, `exists_blanks`), and the lines that texts
make when they are joined by newlines (`linesOf_intercalate`).
-/

namespace Winding

/-! ## Characters -/

/-- A visible character of ASCII is not blank. -/
theorem isBlank_visible {c : Char} (low : 32 < c.toNat) (high : c.toNat < 127) :
    isBlank c = false := by
  unfold isBlank
  simp only [Bool.or_eq_false_iff, Bool.and_eq_false_iff, decide_eq_false_iff_not,
    beq_eq_false_iff_ne]
  omega

theorem isBlank_digit {c : Char} (h : c.isDigit = true) : isBlank c = false := by
  obtain ⟨low, high⟩ := Char.isDigit_iff_toNat.mp h
  have low : 48 ≤ c.toNat := low
  have high : c.toNat ≤ 57 := high
  exact isBlank_visible (by omega) (by omega)

theorem beforeLast?_concat (last c : Char) (cs : List Char) :
    beforeLast? last (cs ++ [c]) = if c = last then some cs else none := by
  rw [beforeLast?, List.reverse_append]
  simp

theorem forall_dark {cs : List Char} (h : cs.all (!isBlank ·) = true) :
    ∀ c ∈ cs, isBlank c = false :=
  fun c hc => (Bool.not_eq_true' _).mp (List.all_eq_true.mp h c hc)

/-! ## Trimming -/

theorem trimEnd_append_blanks {blanks : List Char} (h : ∀ c ∈ blanks, isBlank c = true)
    (cs : List Char) : trimEnd (cs ++ blanks) = trimEnd cs := by
  rw [trimEnd, trimEnd, List.reverse_append, List.dropWhile_append_of_pos]
  exact fun c hc => h c (List.mem_reverse.mp hc)

/-- Nothing is trimmed off behind a character that is not blank. -/
theorem trimEnd_concat {c : Char} (h : isBlank c = false) (cs : List Char) :
    trimEnd (cs ++ [c]) = cs ++ [c] := by
  rw [trimEnd, List.reverse_append, List.reverse_singleton, List.singleton_append,
    List.dropWhile_cons_of_neg (by rw [h]; nofun), List.reverse_cons, List.reverse_reverse]

/-- A text is what is left of it and the blanks behind that. -/
theorem exists_blanks (cs : List Char) :
    ∃ blanks, (∀ c ∈ blanks, isBlank c = true) ∧ cs = trimEnd cs ++ blanks := by
  refine ⟨(cs.reverse.takeWhile isBlank).reverse, fun c hc => ?_, ?_⟩
  · exact List.all_eq_true.mp List.all_takeWhile c (List.mem_reverse.mp hc)
  · rw [trimEnd, ← List.reverse_append, List.takeWhile_append_dropWhile, List.reverse_reverse]

/-- A text with blanks at neither end. -/
theorem trim_framed {c d : Char} (first : isBlank c = false) (last : isBlank d = false)
    (cs : List Char) : trim (c :: (cs ++ [d])) = c :: (cs ++ [d]) := by
  rw [trim, trimStart, List.dropWhile_cons_of_neg (by rw [first]; nofun), ← List.cons_append,
    trimEnd_concat last]

theorem trim_eq_self {cs : List Char} (h : ∀ c ∈ cs, isBlank c = false) : trim cs = cs := by
  have start : trimStart cs = cs := by
    rcases cs with _ | ⟨c, cs⟩
    · rfl
    · exact List.dropWhile_cons_of_neg (by rw [h c (.head _)]; nofun)
  rw [trim, start]
  rcases List.eq_nil_or_concat cs with rfl | ⟨front, c, rfl⟩
  · rfl
  · rw [List.concat_eq_append] at h ⊢
    exact trimEnd_concat (h c (List.mem_append_right _ (.head _))) front

theorem beforeLast?_eq_some {last : Char} {cs front : List Char}
    (h : beforeLast? last cs = some front) : cs = front ++ [last] := by
  rcases List.eq_nil_or_concat cs with rfl | ⟨init, c, rfl⟩
  · cases h
  · rw [List.concat_eq_append, beforeLast?_concat] at h
    split at h
    · next same =>
      cases h
      rw [List.concat_eq_append, same]
    · cases h

theorem after?_append (start cs : List Char) : after? start (start ++ cs) = some cs := by
  rw [after?, if_pos (List.isPrefixOf_iff_prefix.mpr (List.prefix_append ..)), List.drop_left]

theorem after?_eq_some {start cs rest : List Char} (h : after? start cs = some rest) :
    cs = start ++ rest := by
  unfold after? at h
  split at h
  · next front =>
    cases h
    exact List.prefix_iff_eq_append.mp (List.isPrefixOf_iff_prefix.mp front) |>.symm
  · cases h

/-! ## Cutting -/

theorem pieces_append_newline {line : List Char} (h : '\n' ∉ line) (rest : List Char) :
    pieces (line ++ '\n' :: rest) = (line ++ ['\n']) :: pieces rest := by
  induction line with
  | nil => rw [List.nil_append, pieces, if_pos rfl, List.nil_append]
  | cons c cs ih =>
    obtain ⟨other, more⟩ := not_or.mp (mt List.mem_cons.mpr h)
    rw [List.cons_append, pieces, if_neg (Ne.symm other), ih more]
    rfl

theorem pieces_line {line : List Char} (h : '\n' ∉ line) (some : line ≠ []) :
    pieces line = [line] := by
  induction line with
  | nil => exact absurd rfl some
  | cons c cs ih =>
    obtain ⟨other, more⟩ := not_or.mp (mt List.mem_cons.mpr h)
    rw [pieces, if_neg (Ne.symm other)]
    rcases cs with _ | ⟨d, cs⟩
    · rfl
    · rw [ih more (List.cons_ne_nil d cs)]

theorem stripNewline_newline {line : List Char} (h : '\r' ∉ line) :
    stripNewline (line ++ ['\n']) = line := by
  have turned : (line ++ ['\n']).reverse = '\n' :: line.reverse := by
    rw [List.reverse_append, List.reverse_singleton, List.singleton_append]
  unfold stripNewline
  rw [turned]
  split
  · next e =>
    have inside : '\r' ∈ line.reverse := by
      rw [(List.cons.inj e).2]
      exact List.mem_cons_self
    exact absurd (List.mem_reverse.mp inside) h
  · next e => rw [← (List.cons.inj e).2, List.reverse_reverse]
  · next other => exact absurd rfl (other _)

theorem stripNewline_line {line : List Char} (h : '\n' ∉ line) : stripNewline line = line := by
  have other (rest : List Char) : line.reverse ≠ '\n' :: rest := by
    intro e
    exact h (List.mem_reverse.mp (e ▸ List.mem_cons_self))
  unfold stripNewline
  split
  · next e => exact absurd e (other _)
  · next e => exact absurd e (other _)
  · rfl

/-! ## Joining -/

/-- A text of one line. -/
structure IsLine (line : List Char) : Prop where
  ne_nil : line ≠ []
  newline : '\n' ∉ line
  carriage : '\r' ∉ line

/-- Joined lines are read as they were. -/
theorem linesOf_intercalate {lines : List (List Char)} (h : ∀ line ∈ lines, IsLine line) :
    linesOf (List.intercalate ['\n'] lines) = lines := by
  induction lines with
  | nil => rfl
  | cons line lines ih =>
    obtain ⟨first, more⟩ := List.forall_mem_cons.mp h
    rcases lines with _ | ⟨next, lines⟩
    · rw [List.intercalate_singleton, linesOf, pieces_line first.newline first.ne_nil,
        List.map_singleton, stripNewline_line first.newline]
    · rw [List.intercalate_cons_cons, List.append_assoc, List.singleton_append, linesOf,
        pieces_append_newline first.newline, List.map_cons, stripNewline_newline first.carriage]
      exact congrArg (line :: ·) (ih more)

end Winding
