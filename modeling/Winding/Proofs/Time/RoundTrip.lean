import Mathlib.Algebra.Group.Nat.Defs
import Winding.Proofs.Number.Texts
import Winding.Proofs.Text.Lines
import Winding.Time.Timestamp

/-!
# Points in time are read back from their texts

The text of a point in time that a clock can show is read as that point in time
(`Timestamp.ofText?_text`).
-/

namespace Winding.Timestamp

/-- A date and a time of day that a clock can show. -/
structure IsShown (t : Timestamp) : Prop where
  valid : t.isValid = true
  nanosecond : t.nanosecond < 10 ^ 9

/-! ## Digits of a fixed width -/

theorem toList_padded (width n : Nat) :
    (padded width n).toList =
      List.replicate (width - (digitsOf n).length) '0' ++ digitsOf n :=
  String.toList_ofList

theorem areDigits_padded (width n : Nat) : AreDigits (padded width n).toList :=
  toList_padded width n ▸ (AreDigits.digitsOf n).zeros_append _

theorem natOfDigits_padded (width n : Nat) : natOfDigits (padded width n).toList = n := by
  rw [toList_padded, natOfDigits_zeros_append, natOfDigits_digitsOf]

theorem length_padded {width n : Nat} (wide : 0 < width) (fits : n < 10 ^ width) :
    (padded width n).toList.length = width := by
  have le : (digitsOf n).length ≤ width :=
    (Nat.length_toDigits_le_iff (by decide) wide).mpr fits
  rw [toList_padded, List.length_append, List.length_replicate]
  exact Nat.sub_add_cancel le

/-- Nothing is trimmed off what starts with a digit. -/
theorem trimStart_digits {cs : List Char} (h : AreDigits cs) (rest : List Char) :
    trimStart (cs ++ rest) = cs ++ rest := by
  obtain ⟨c, ds, rfl, digit⟩ := h.head
  exact List.dropWhile_cons_of_neg (by rw [isBlank_digit digit]; nofun)

/-- A number of the whole width is read, whatever follows. -/
theorem number?_padded {width n : Nat} (wide : 0 < width) (fits : n < 10 ^ width)
    (rest : List Char) : number? width ((padded width n).toList ++ rest) = some (n, rest) := by
  have digits := areDigits_padded width n
  have length := length_padded wide fits
  have taken : (((padded width n).toList ++ rest).takeWhile Char.isDigit).take width =
      (padded width n).toList := by
    rw [List.takeWhile_append_of_pos digits.digits]
    exact List.take_left' length
  unfold number?
  rw [trimStart_digits digits]
  simp only [taken, digits.natOfDigits?, natOfDigits_padded]
  exact congrArg (fun cs => some (n, cs)) (List.drop_left' rfl)

/-! ## The year -/

theorem year?_signed {sign : Char} {n : Nat} (signed : sign = '-' ∨ sign = '+')
    {rest : List Char} (stop : ∀ c ∈ rest.head?, c.isDigit = false) :
    year? (sign :: ((padded 4 n).toList ++ rest)) =
      some (if sign = '-' then -(n : Int) else n, rest) := by
  have digits := areDigits_padded 4 n
  have taken := (takeWhile_append_stop digits.digits stop).1
  have trimmed : trimStart (sign :: ((padded 4 n).toList ++ rest)) =
      sign :: ((padded 4 n).toList ++ rest) := by
    rcases signed with rfl | rfl <;> rfl
  unfold year?
  simp only [trimmed, Bool.or_eq_true, decide_eq_true_eq, if_pos signed, taken, digits.natOfDigits?,
    natOfDigits_padded, Option.bind_eq_bind, Option.pure_def, Option.bind_some, Option.map_some,
    List.drop_left]

/-- The year is read up to what is no digit. -/
theorem year?_yearText (year : Int) {rest : List Char}
    (stop : ∀ c ∈ rest.head?, c.isDigit = false) :
    year? ((yearText year).toList ++ rest) = some (year, rest) := by
  unfold yearText
  simp only
  split
  · next negative =>
    rw [String.toList_append]
    have read := year?_signed (n := year.natAbs) (.inl rfl) stop
    rw [if_pos rfl] at read
    have value : -(year.natAbs : Int) = year := by omega
    rw [value] at read
    exact read
  · next natural =>
    split
    · rw [String.toList_append]
      have read := year?_signed (n := year.natAbs) (.inr rfl) stop
      rw [if_neg (by decide)] at read
      have value : (year.natAbs : Int) = year := by omega
      rw [value] at read
      exact read
    · next small =>
      have digits := areDigits_padded 4 year.natAbs
      have read := number?_padded (by decide : 0 < 4) (show year.natAbs < 10 ^ 4 by omega) rest
      have trimmed := trimStart_digits digits rest
      have value : (year.natAbs : Int) = year := by omega
      obtain ⟨c, ds, e, digit⟩ := digits.head
      have unsigned : ¬(c = '-' ∨ c = '+') := by
        rintro (rfl | rfl) <;> cases digit
      rw [e, List.cons_append] at read trimmed ⊢
      unfold year?
      simp only [trimmed, Bool.or_eq_true, decide_eq_true_eq, if_neg unsigned, read,
        Option.map_some, value]

/-! ## The fraction of a second -/

/-- A fraction of at most nine decimals is read up to what is no digit. -/
theorem fraction?_padded {width n : Nat} (wide : 0 < width) (le : width ≤ 9)
    (fits : n < 10 ^ width) {rest : List Char} (stop : ∀ c ∈ rest.head?, c.isDigit = false) :
    fraction? ('.' :: ((padded width n).toList ++ rest)) =
      some (n * 10 ^ (9 - width), rest) := by
  have digits := areDigits_padded width n
  have length := length_padded wide fits
  obtain ⟨taken, dropped⟩ := takeWhile_append_stop digits.digits stop
  have whole : (padded width n).toList.take 9 = (padded width n).toList :=
    List.take_of_length_le (Nat.le_trans (Nat.le_of_eq length) le)
  simp only [fraction?, taken, dropped, whole, digits.natOfDigits?, natOfDigits_padded, length,
    Option.map_some]

theorem fraction?_fractionText {n : Nat} (h : n < 10 ^ 9) {rest : List Char}
    (stop : ∀ c ∈ rest.head?, c.isDigit = false ∧ c ≠ '.') :
    fraction? ((fractionText n).toList ++ rest) = some (n, rest) := by
  have digit (c : Char) (hc : c ∈ rest.head?) : c.isDigit = false := (stop c hc).1
  unfold fractionText
  split
  · next zero =>
    rcases rest with _ | ⟨c, rest⟩
    · rw [zero]
      rfl
    · have other : c ≠ '.' := (stop c rfl).2
      rw [zero]
      simp [fraction?, other]
  · split
    · next milli =>
      have read := fraction?_padded (by decide : 0 < 3) (by decide)
          (show n / 1000000 < 10 ^ 3 by omega) digit
      rw [Nat.div_mul_cancel (Nat.dvd_of_mod_eq_zero milli)] at read
      rwa [String.toList_append]
    · split
      · next micro =>
        have read := fraction?_padded (by decide : 0 < 6) (by decide)
          (show n / 1000 < 10 ^ 6 by omega) digit
        rw [Nat.div_mul_cancel (Nat.dvd_of_mod_eq_zero micro)] at read
        rwa [String.toList_append]
      · have read := fraction?_padded (by decide : 0 < 9) (Nat.le_refl 9) h digit
        rw [Nat.sub_self, Nat.pow_zero, Nat.mul_one] at read
        rwa [String.toList_append]

/-! ## The whole text -/

variable {t : Timestamp}

theorem earlier_zero (hour : t.hour < 24) (minute : t.minute < 60) : t.earlier 0 = t := by
  have minutes : t.minuteOfDay - 0 = ((t.hour * 60 + t.minute : Nat) : Int) := Int.sub_zero _
  have same : t.withMinute (t.hour * 60 + t.minute) = t := by
    have h : (t.hour * 60 + t.minute) / 60 = t.hour := by omega
    have m : (t.hour * 60 + t.minute) % 60 = t.minute := by omega
    rw [withMinute, h, m]
  unfold earlier dayMinutes
  simp only [minutes]
  rw [if_neg (by omega), if_neg (by omega), Int.toNat_natCast, same]

/-- What follows a mark that is no blank. -/
theorem mark?_cons {c : Char} (dark : isBlank c = false) (cs : List Char) :
    mark? c (c :: cs) = some cs := by
  have trimmed : trimStart (c :: cs) = c :: cs :=
    List.dropWhile_cons_of_neg (by rw [dark]; nofun)
  unfold mark?
  rw [trimmed]
  exact if_pos rfl

/-- A point in time that a clock can show is read back from its text. -/
theorem IsShown.ofText?_text (h : t.IsShown) : ofText? t.text = some t := by
  obtain ⟨valid, nanosecond⟩ := h
  have fields := valid
  simp only [isValid, Bool.and_eq_true, decide_eq_true_eq] at fields
  obtain ⟨⟨⟨⟨⟨⟨⟨year, -⟩, month⟩, -⟩, day⟩, hour⟩, minute⟩, second⟩ := fields
  have days : daysIn t.year t.month ≤ 31 := by
    unfold daysIn
    split
    · split <;> decide
    · split <;> decide
  have two {n : Nat} (small : n < 10 ^ 2) (rest : List Char) :
      number? 2 ((padded 2 n).toList ++ rest) = some (n, rest) :=
    number?_padded (by decide : 0 < 2) small rest
  have chars : t.text.toList = (yearText t.year).toList ++ '-' :: ((padded 2 t.month).toList ++
      '-' :: ((padded 2 t.day).toList ++ 'T' :: ((padded 2 t.hour).toList ++
      ':' :: ((padded 2 t.minute).toList ++ ':' :: ((padded 2 t.second).toList ++
      ((fractionText t.nanosecond).toList ++ ['Z'])))))) := by
    have dash : "-".toList = ['-'] := rfl
    have colon : ":".toList = [':'] := rfl
    have letters : "T".toList = ['T'] ∧ "Z".toList = ['Z'] := ⟨rfl, rfl⟩
    simp only [text, localText, String.toList_append, List.append_assoc, dash, colon, letters,
      List.cons_append, List.nil_append]
  have fraction : fraction? ((fractionText t.nanosecond).toList ++ ['Z']) =
      some (t.nanosecond, ['Z']) :=
    fraction?_fractionText nanosecond (by rintro c ⟨⟩; exact ⟨rfl, by decide⟩)
  -- Each field is read up to the mark behind it.
  unfold ofText?
  rw [chars]
  refine Option.bind_eq_some_iff.mpr ⟨_, year?_yearText t.year (by rintro c ⟨⟩; rfl), ?_⟩
  refine Option.bind_eq_some_iff.mpr ⟨_, mark?_cons rfl _, ?_⟩
  refine Option.bind_eq_some_iff.mpr ⟨_, two (show t.month < 100 by omega) _, ?_⟩
  refine Option.bind_eq_some_iff.mpr ⟨_, mark?_cons rfl _, ?_⟩
  refine Option.bind_eq_some_iff.mpr ⟨_, two (show t.day < 100 by omega) _, ?_⟩
  refine Option.bind_eq_some_iff.mpr ⟨_, rfl, ?_⟩
  refine Option.bind_eq_some_iff.mpr ⟨_, two (show t.hour < 100 by omega) _, ?_⟩
  refine Option.bind_eq_some_iff.mpr ⟨_, mark?_cons rfl _, ?_⟩
  refine Option.bind_eq_some_iff.mpr ⟨_, two (show t.minute < 100 by omega) _, ?_⟩
  refine Option.bind_eq_some_iff.mpr ⟨_, mark?_cons rfl _, ?_⟩
  refine Option.bind_eq_some_iff.mpr ⟨_, two (show t.second < 100 by omega) _, ?_⟩
  refine Option.bind_eq_some_iff.mpr ⟨_, fraction, ?_⟩
  refine Option.bind_eq_some_iff.mpr ⟨(0, []), rfl, ?_⟩
  have whole : ¬(!(trimStart []).isEmpty || !t.isValid) = true := by
    rw [valid]
    decide
  show (if !(trimStart []).isEmpty || !t.isValid then none
    else if yearInRange (t.earlier 0).year then some (t.earlier 0) else none) = some t
  rw [if_neg whole, earlier_zero hour minute, if_pos year]

end Winding.Timestamp
