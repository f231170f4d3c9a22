import Winding.Proofs.Number.Plain

/-!
# Words of a printed line

A printed line is a row of tokens, each a letter and a number behind one space. Tokens whose numbers
are plain decimals are scanned as they were printed (`scanWords_spaced`), and no line with another
token is scanned at all (`scanWords_isPlain`). A word carries the whole number that it writes, up to
the greatest one of 63 bits (`Word.whole?_eq_some_iff`), so numbers that it can carry are read as
they were written (`ReadsWhole`).
-/

namespace Winding.Gcode

/-! ## Tokens -/

/-- A letter and a number as they are printed. -/
structure Token (R : Type) where
  letter : Char
  raw : List Char
  value : R

/-- A word without the column at which it was found. -/
def Word.token {R : Type} (w : Word R) : Token R := ⟨w.letter, w.raw, w.value⟩

/-- The letters of words. -/
def letters : List Char := ['N', 'F', 'G', 'M', 'X', 'Y', 'Z', 'P', 'B', 'I', 'J']

namespace Token

variable {R : Type}

/-- A token as it is printed, behind a space. -/
def chars (t : Token R) : List Char := ' ' :: t.letter :: t.raw

/-- Tokens behind one another. -/
def spaced (ts : List (Token R)) : List Char := ts.flatMap chars

variable [Scalar R]

/-- A letter and a whole number. -/
def nat (letter : Char) (n : Nat) : Token R := ⟨letter, digitsOf n, Scalar.ofNat n⟩

/-- A letter and a number. -/
def number (letter : Char) (a : R) : Token R := ⟨letter, (Scalar.text a).toList, a⟩

/-- A token whose number is read back. -/
def IsPlain (t : Token R) : Prop :=
  ∃ d, Decimal.ofPlain? t.raw = some d ∧ Scalar.ofDecimal d = t.value

/-- A token that cannot be read. -/
def IsRefused (t : Token R) : Prop := Decimal.ofPlain? (t.raw.takeWhile isNumberChar) = none

theorem isPlain_nat (letter : Char) (n : Nat) : (nat letter n : Token R).IsPlain :=
  ⟨_, Decimal.ofPlain?_digitsOf n, rfl⟩

variable [PlainScalar R]

theorem isPlain_number (letter : Char) {a : R} (h : Scalar.isFinite a = true) :
    (number letter a).IsPlain := PlainScalar.ofPlain?_text a h

theorem isNaN_of_isPlain {t : Token R} (h : t.IsPlain) : Scalar.isNaN t.value = false := by
  obtain ⟨d, -, value⟩ := h
  rw [← value]
  exact PlainScalar.isNaN_ofDecimal d

theorem isRefused_number (letter : Char) {a : R} (h : Scalar.isFinite a = false) :
    (number letter a).IsRefused := (PlainScalar.text_of_not_finite a h).2

end Token

/-! ## Scanning -/

section Scanning

variable {R : Type} [Scalar R] {column : Nat}

theorem scanWords_blank {c : Char} (h : isBlank c = true) (cs : List Char) :
    scanWords (R := R) column (c :: cs) = scanWords (column + 1) cs := by
  rw [scanWords, if_pos h]

theorem scanWords_comment (column : Nat) (cs : List Char) :
    scanWords (R := R) column ('(' :: cs) =
      match afterComment? cs with
      | none => .error ⟨column, .unterminatedComment⟩
      | some rest => scanWords (column + 1 + (cs.length - rest.length)) rest := by
  rw [scanWords, if_neg (by decide), if_neg (by decide), if_pos rfl]
  split
  · next unclosed => rw [unclosed]
  · next closed => rw [closed]

theorem bounds_of_isAlpha {c : Char} (h : c.isAlpha = true) : 65 ≤ c.toNat ∧ c.toNat ≤ 122 := by
  rcases Bool.or_eq_true_iff.mp h with upper | lower
  · obtain ⟨low, high⟩ := of_decide_eq_true upper
    exact ⟨UInt32.le_iff_toNat_le.mp low,
      Nat.le_trans (UInt32.le_iff_toNat_le.mp high) (by decide)⟩
  · obtain ⟨low, high⟩ := Bool.and_eq_true_iff.mp lower
    exact ⟨Nat.le_trans (by decide) (UInt32.le_iff_toNat_le.mp (of_decide_eq_true low)),
      UInt32.le_iff_toNat_le.mp (of_decide_eq_true high)⟩

theorem isBlank_of_isAlpha {c : Char} (h : c.isAlpha = true) : isBlank c = false := by
  obtain ⟨low, high⟩ := bounds_of_isAlpha h
  exact isBlank_visible (by omega) (by omega)

theorem ne_of_isAlpha {c d : Char} (h : c.isAlpha = true) (other : d.isAlpha = false) : c ≠ d := by
  rintro rfl
  rw [h] at other
  cases other

/-- What a letter begins is a word, and needs a plain decimal. -/
theorem scanWords_alpha {c : Char} (h : c.isAlpha = true) (cs : List Char) :
    scanWords (R := R) column (c :: cs) =
      match Decimal.ofPlain? (cs.takeWhile isNumberChar) with
      | none => .error ⟨column, .malformedNumber (String.ofList (cs.takeWhile isNumberChar))⟩
      | some d => (scanWords (column + 1 + (cs.takeWhile isNumberChar).length)
          (cs.dropWhile isNumberChar)).map
            (⟨c.toUpper, cs.takeWhile isNumberChar, Scalar.ofDecimal d, column⟩ :: ·) := by
  rw [scanWords, if_neg (Bool.eq_false_iff.mp (isBlank_of_isAlpha h)),
    if_neg (ne_of_isAlpha h rfl), if_neg (ne_of_isAlpha h rfl), if_pos h]
  simp only
  rcases Decimal.ofPlain? (cs.takeWhile isNumberChar) with _ | d
  · rfl
  · rfl

theorem scanWords_letter {c : Char} (h : c ∈ letters) (cs : List Char) :
    scanWords (R := R) column (c :: cs) =
      match Decimal.ofPlain? (cs.takeWhile isNumberChar) with
      | none => .error ⟨column, .malformedNumber (String.ofList (cs.takeWhile isNumberChar))⟩
      | some d => (scanWords (column + 1 + (cs.takeWhile isNumberChar).length)
          (cs.dropWhile isNumberChar)).map
            (⟨c, cs.takeWhile isNumberChar, Scalar.ofDecimal d, column⟩ :: ·) := by
  have alpha := List.all_eq_true.mp (show letters.all Char.isAlpha = true by decide) c h
  have upper : c.toUpper = c :=
    beq_iff_eq.mp (List.all_eq_true.mp (show letters.all (fun c => c.toUpper == c) = true by decide)
      c h)
  rw [scanWords_alpha alpha, upper]

theorem takeWhile_append_of_stop {α : Type} {p : α → Bool} (l : List α) {r : List α}
    (stop : ∀ a ∈ r.head?, p a = false) : (l ++ r).takeWhile p = l.takeWhile p := by
  induction l with
  | nil => exact (takeWhile_append_stop nofun stop).1
  | cons a l ih => rw [List.cons_append, List.takeWhile_cons, List.takeWhile_cons, ih]

omit [Scalar R] in
/-- What the next token begins with belongs to no number. -/
theorem Token.stop_spaced (ts : List (Token R)) :
    ∀ c ∈ (spaced ts).head?, isNumberChar c = false := by
  rcases ts with _ | ⟨t, ts⟩
  · nofun
  · rintro c ⟨⟩
    rfl

/-- Tokens are scanned as they were printed. -/
theorem scanWords_spaced {ts : List (Token R)}
    (h : ∀ t ∈ ts, t.letter ∈ letters ∧ t.IsPlain) :
    ∃ ws, scanWords column (Token.spaced ts) = .ok ws ∧ ws.map Word.token = ts := by
  induction ts generalizing column with
  | nil => exact ⟨[], by rw [Token.spaced, List.flatMap_nil, scanWords], rfl⟩
  | cons t ts ih =>
    obtain ⟨⟨letter, d, read, value⟩, more⟩ := List.forall_mem_cons.mp h
    obtain ⟨take, drop⟩ := takeWhile_append_stop (Decimal.ofPlain?_isNumberChar read)
      (Token.stop_spaced ts)
    obtain ⟨ws, scanned, same⟩ := @ih (column + 1 + 1 + t.raw.length) more
    refine ⟨⟨t.letter, t.raw, t.value, column + 1⟩ :: ws, ?_, by rw [List.map_cons, same]; rfl⟩
    show scanWords column (' ' :: t.letter :: (t.raw ++ Token.spaced ts)) = _
    rw [scanWords_blank rfl, scanWords_letter letter, take, drop, read]
    simp only [scanned, value]
    rfl

/-- A row of tokens is scanned only if each can be read. -/
theorem scanWords_isPlain {ts : List (Token R)}
    (h : ∀ t ∈ ts, t.letter ∈ letters ∧ (t.IsPlain ∨ t.IsRefused)) {ws : List (Word R)}
    (scanned : scanWords column (Token.spaced ts) = .ok ws) : ∀ t ∈ ts, t.IsPlain := by
  induction ts generalizing column ws with
  | nil => exact nofun
  | cons t ts ih =>
    obtain ⟨⟨letter, readable⟩, more⟩ := List.forall_mem_cons.mp h
    have scanned : scanWords column (' ' :: t.letter :: (t.raw ++ Token.spaced ts)) = .ok ws :=
      scanned
    rw [scanWords_blank rfl, scanWords_letter letter] at scanned
    rcases readable with ⟨d, read, value⟩ | refused
    · obtain ⟨take, drop⟩ := takeWhile_append_stop (Decimal.ofPlain?_isNumberChar read)
        (Token.stop_spaced ts)
      rw [take, drop, read] at scanned
      simp only at scanned
      rcases rest : scanWords (R := R) (column + 1 + 1 + t.raw.length) (Token.spaced ts) with e | ws'
      · rw [rest] at scanned
        cases scanned
      · exact List.forall_mem_cons.mpr ⟨⟨d, read, value⟩, ih more rest⟩
    · -- The number ends before the next token, wherever it ends.
      rw [takeWhile_append_of_stop _ (Token.stop_spaced ts), refused] at scanned
      cases scanned

/-- Whatever text is scanned, a word's number is the plain decimal that is written in it. -/
theorem scanWords_isPlain_token {text : List Char} {ws : List (Word R)}
    (h : scanWords column text = .ok ws) : ∀ w ∈ ws, w.token.IsPlain := by
  induction column, text using scanWords.induct generalizing ws with
  | case1 =>
    rw [scanWords] at h
    cases h
    exact nofun
  | case2 column c cs blank ih =>
    rw [scanWords_blank blank] at h
    exact ih h
  | case3 column cs blank =>
    rw [scanWords, if_neg blank, if_pos rfl] at h
    cases h
    exact nofun
  | case4 column cs unclosed blank line =>
    rw [scanWords, if_neg blank, if_neg line, if_pos rfl] at h
    split at h
    · cases h
    · next closed => cases unclosed.symm.trans closed
  | case5 column cs rest closed blank line ih =>
    rw [scanWords, if_neg blank, if_neg line, if_pos rfl] at h
    split at h
    · cases h
    · next closed' =>
      cases closed.symm.trans closed'
      exact ih h
  | case6 column c cs blank line comment alpha raw =>
    rename_i malformed
    have malformed : Decimal.ofPlain? (cs.takeWhile isNumberChar) = none := malformed
    rw [scanWords, if_neg blank, if_neg line, if_neg comment, if_pos alpha] at h
    simp only [malformed] at h
    cases h
  | case7 column c cs blank line comment alpha raw =>
    rename_i d number ih
    have number : Decimal.ofPlain? (cs.takeWhile isNumberChar) = some d := number
    rw [scanWords, if_neg blank, if_neg line, if_neg comment, if_pos alpha] at h
    simp only [number] at h
    obtain ⟨others, scanned, e⟩ := bind_eq_ok h
    cases e
    exact List.forall_mem_cons.mpr ⟨⟨d, number, rfl⟩, ih scanned⟩
  | case8 column c cs blank line comment other =>
    rw [scanWords, if_neg blank, if_neg line, if_neg comment, if_neg other] at h
    cases h

end Scanning

/-! ## Whole numbers -/

section Whole

variable {R : Type} [Scalar R] {w : Word R}

/-- The whole number that a word without a point writes, however great it is. -/
def Word.written? (w : Word R) : Option Int :=
  if w.raw.contains '.' then none else Scalar.whole? w.value

/-- A word carries what it writes, up to the greatest number of 63 bits. -/
theorem Word.whole?_eq_some_iff {m : Int} :
    w.whole? = some m ↔
      ∃ n, w.written? = some n ∧ n.natAbs ≤ 2 ^ 63 ∧ m = min n (2 ^ 63 - 1) := by
  have limit : wholeLimit = 2 ^ 63 := rfl
  rw [whole?, written?]
  split
  · constructor
    · rintro ⟨⟩
    · rintro ⟨n, ⟨⟩, -⟩
  · rcases Scalar.whole? w.value with _ | n
    · constructor
      · rintro ⟨⟩
      · rintro ⟨n, ⟨⟩, -⟩
    · simp only [limit, Option.some.injEq]
      split
      · next large =>
        constructor
        · rintro ⟨⟩
        · rintro ⟨n, rfl, small, -⟩
          omega
      · next small =>
        constructor
        · rintro ⟨⟩
          exact ⟨n, rfl, by omega, rfl⟩
        · rintro ⟨n, rfl, -, rfl⟩
          rfl

/-- Words carry numbers of 63 bits. -/
theorem Word.whole?_lt {n : Int} (h : w.whole? = some n) : n < wholeLimit := by
  obtain ⟨m, -, -, rfl⟩ := whole?_eq_some_iff.mp h
  have limit : wholeLimit = 2 ^ 63 := rfl
  omega

/-- Below the greatest number words carry what they write. -/
theorem Word.whole?_eq_some_of_lt {m : Int} (low : 0 ≤ m) (high : m < 2 ^ 63 - 1) :
    w.whole? = some m ↔ w.written? = some m := by
  rw [whole?_eq_some_iff]
  constructor
  · rintro ⟨n, written, -, rfl⟩
    rwa [show min n (2 ^ 63 - 1) = n by omega]
  · exact fun written => ⟨m, written, by omega, by omega⟩

/-- What is looked up by a small number is looked up by the number that is written. -/
theorem Word.bind_whole?_eq_some_iff {α : Type} {f : Int → Option α} {a : α}
    (small : ∀ n, (f n).isSome = true → 0 ≤ n ∧ n < 2 ^ 63 - 1) :
    w.whole?.bind f = some a ↔ ∃ n, w.written? = some n ∧ f n = some a := by
  rw [Option.bind_eq_some_iff]
  refine exists_congr fun n => and_congr_left fun found => ?_
  obtain ⟨low, high⟩ := small n (by rw [found]; rfl)
  exact whole?_eq_some_of_lt low high

theorem Word.natBelow?_eq_some {n limit : Nat} (h : w.natBelow? limit = some n) :
    w.whole? = some (n : Int) ∧ n < limit := by
  obtain ⟨m, read, h⟩ := Option.bind_eq_some_iff.mp h
  split at h
  · next bounds =>
    cases h
    exact ⟨by rw [read, Int.toNat_of_nonneg bounds.1], by omega⟩
  · cases h

theorem Word.natBelow?_of_whole? {n limit : Nat} (whole : w.whole? = some (n : Int))
    (below : n < limit) : w.natBelow? limit = some n := by
  rw [natBelow?, whole, Option.bind_some, if_pos ⟨by omega, by omega⟩, Int.toNat_natCast]

theorem Word.natBelow?_eq_some_iff {limit n : Nat} (small : limit < 2 ^ 63) :
    w.natBelow? limit = some n ↔ w.written? = some (n : Int) ∧ n < limit := by
  constructor
  · intro h
    obtain ⟨whole, below⟩ := natBelow?_eq_some h
    exact ⟨(whole?_eq_some_of_lt (by omega) (by omega)).mp whole, below⟩
  · rintro ⟨written, below⟩
    exact natBelow?_of_whole? ((whole?_eq_some_of_lt (by omega) (by omega)).mpr written) below

/-! ### Digits -/

/-- Whether a word that writes a whole number is read as it. -/
def ReadsWhole (R : Type) [Scalar R] (n : Nat) : Prop :=
  ∀ (w : Word R) (letter : Char), w.token = .nat letter n → w.whole? = some (n : Int)

theorem ReadsWhole.lt {n : Nat} (h : ReadsWhole R n) : (n : Int) < wholeLimit :=
  Word.whole?_lt (h ⟨'P', digitsOf n, Scalar.ofNat n, 0⟩ 'P' rfl)

theorem ReadsWhole.natBelow? {n limit : Nat} {letter : Char} (h : ReadsWhole R n)
    (below : n < limit) (same : w.token = .nat letter n) : w.natBelow? limit = some n :=
  Word.natBelow?_of_whole? (h w letter same) below

theorem contains_point_digitsOf (n : Nat) : (digitsOf n).contains '.' = false := by
  rw [List.contains_eq_mem, decide_eq_false_iff_not]
  intro point
  have := (AreDigits.digitsOf n).digits '.' point
  cases this

/-- Digits write the whole number that they are rounded to. -/
theorem Word.written?_of_token {letter : Char} {n : Nat} {m : Int} (same : w.token = .nat letter n)
    (value : Scalar.whole? (Scalar.ofNat n : R) = some m) : w.written? = some m := by
  have raw : w.raw = digitsOf n := congrArg Token.raw same
  have number : w.value = Scalar.ofNat n := congrArg Token.value same
  rw [written?, raw, contains_point_digitsOf, number, value]
  rfl

/-- Digits are read as the whole number that they are rounded to, as far as words carry it. -/
theorem readsWhole_of_whole? {n m : Nat}
    (value : Scalar.whole? (Scalar.ofNat n : R) = some (m : Int)) (small : m ≤ 2 ^ 63)
    (capped : min m (2 ^ 63 - 1) = n) : ReadsWhole R n := fun _ _ same =>
  Word.whole?_eq_some_iff.mpr ⟨m, Word.written?_of_token same value, by omega, by omega⟩

variable [PlainScalar R]

theorem readsWhole_of_le {n : Nat} (h : n ≤ 2 ^ 53) : ReadsWhole R n :=
  readsWhole_of_whole? (PlainScalar.whole?_ofNat n h) (by omega) (by omega)

/-- What a word is read as is read again. -/
theorem readsWhole_of_read {n : Nat} (h : w.whole? = some (n : Int)) : ReadsWhole R n := by
  obtain ⟨m, written, small, capped⟩ := Word.whole?_eq_some_iff.mp h
  obtain ⟨k, rfl⟩ : ∃ k : Nat, m = k := ⟨m.toNat, by omega⟩
  -- Only the greatest number that is carried may have been written as the next one.
  by_cases whole : k = n
  · subst whole
    have value : Scalar.whole? w.value = some (k : Int) := by
      rw [Word.written?] at written
      split at written
      · cases written
      · exact written
    exact readsWhole_of_whole? (PlainScalar.whole?_ofNat_of_whole? _ _ value) (by omega) (by omega)
  · have greatest : n = 2 ^ 63 - 1 := by omega
    obtain ⟨r, rounded, above, below⟩ := PlainScalar.whole?_ofNat_greatest (R := R)
    rw [greatest]
    exact readsWhole_of_whole? rounded below (by omega)

end Whole

end Winding.Gcode
