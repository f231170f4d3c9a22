import Mathlib.Data.List.Induction
import Winding.Proofs.Time.RoundTrip

/-!
# Points in time that are read

Whatever text a point in time is read from, with any offset from universal time, it is one that a
clock can show (`Timestamp.isShown_of_ofText?`). So it is written in the same form as any other, and
read back from that.
-/

namespace Winding.Timestamp

variable {t : Timestamp}

/-! ## The calendar -/

theorem daysIn_pos (year : Int) (month : Nat) : 1 ≤ daysIn year month := by
  unfold daysIn
  split
  · split <;> decide
  · split <;> decide

/-- The month and the day are those of a date. -/
structure IsDate (t : Timestamp) : Prop where
  month_pos : 1 ≤ t.month
  month_le : t.month ≤ 12
  day_pos : 1 ≤ t.day
  day_le : t.day ≤ daysIn t.year t.month

theorem isValid_iff : t.isValid = true ↔ yearInRange t.year = true ∧ t.IsDate ∧
    t.hour < 24 ∧ t.minute < 60 ∧ t.second ≤ 60 := by
  simp only [isValid, Bool.and_eq_true, decide_eq_true_eq]
  constructor
  · rintro ⟨⟨⟨⟨⟨⟨⟨year, low⟩, high⟩, first⟩, last⟩, hour⟩, minute⟩, second⟩
    exact ⟨year, ⟨low, high, first, last⟩, hour, minute, second⟩
  · rintro ⟨year, ⟨low, high, first, last⟩, hour, minute, second⟩
    exact ⟨⟨⟨⟨⟨⟨⟨year, low⟩, high⟩, first⟩, last⟩, hour⟩, minute⟩, second⟩

/-- A date has a date after it. -/
theorem IsDate.nextDay (h : t.IsDate) : t.nextDay.IsDate := by
  obtain ⟨low, high, first, last⟩ := h
  unfold Timestamp.nextDay
  split
  · next inside => exact ⟨low, high, Nat.succ_pos _, inside⟩
  · split
    · next inside => exact ⟨Nat.succ_pos _, inside, Nat.le_refl _, daysIn_pos _ _⟩
    · exact ⟨Nat.le_refl _, Nat.succ_pos 11, Nat.le_refl _, daysIn_pos _ _⟩

/-- A date has a date before it. -/
theorem IsDate.previousDay (h : t.IsDate) : t.previousDay.IsDate := by
  obtain ⟨low, high, first, last⟩ := h
  unfold Timestamp.previousDay
  split
  · next later =>
    refine ⟨low, high, ?_, ?_⟩
    · show 1 ≤ t.day - 1
      omega
    · show t.day - 1 ≤ daysIn t.year t.month
      omega
  · split
    · next later =>
      refine ⟨?_, ?_, daysIn_pos _ _, Nat.le_refl _⟩
      · show 1 ≤ t.month - 1
        omega
      · show t.month - 1 ≤ 12
        omega
    · exact ⟨Nat.succ_pos 11, Nat.le_refl _, Nat.succ_pos 30, Nat.le_refl 31⟩

/-- The time of day less an offset of less than a day is a time of the same day, of the one before or
of the one after. -/
theorem earlier_eq (hour : t.hour < 24) (minute : t.minute < 60) {minutes : Int}
    (low : -dayMinutes < minutes) (high : minutes < dayMinutes) :
    ∃ d m, t.earlier minutes = d.withMinute m ∧ m < 1440 ∧
      (d = t.previousDay ∨ d = t.nextDay ∨ d = t) := by
  have bound : t.minuteOfDay < dayMinutes ∧ 0 ≤ t.minuteOfDay := by
    unfold minuteOfDay dayMinutes
    omega
  unfold dayMinutes at low high bound
  unfold earlier dayMinutes
  simp only
  split
  · exact ⟨_, _, rfl, by omega, .inl rfl⟩
  · split
    · exact ⟨_, _, rfl, by omega, .inr (.inl rfl)⟩
    · exact ⟨_, _, rfl, by omega, .inr (.inr rfl)⟩

theorem nextDay_second (t : Timestamp) :
    t.nextDay.second = t.second ∧ t.nextDay.nanosecond = t.nanosecond := by
  unfold nextDay
  split
  · exact ⟨rfl, rfl⟩
  · split <;> exact ⟨rfl, rfl⟩

theorem previousDay_second (t : Timestamp) :
    t.previousDay.second = t.second ∧ t.previousDay.nanosecond = t.nanosecond := by
  unfold previousDay
  split
  · exact ⟨rfl, rfl⟩
  · split <;> exact ⟨rfl, rfl⟩

/-- A point in time that a clock can show is one after an offset is taken away, if the year is in
range. -/
theorem IsShown.earlier (h : t.IsShown) {minutes : Int} (low : -dayMinutes < minutes)
    (high : minutes < dayMinutes) (year : yearInRange (t.earlier minutes).year = true) :
    (t.earlier minutes).IsShown := by
  obtain ⟨-, date, hour, minute, second⟩ := isValid_iff.mp h.valid
  obtain ⟨d, m, e, below, day⟩ := earlier_eq hour minute low high
  rw [e] at year ⊢
  have same : d.IsDate ∧ d.second = t.second ∧ d.nanosecond = t.nanosecond := by
    rcases day with rfl | rfl | rfl
    · exact ⟨date.previousDay, t.previousDay_second⟩
    · exact ⟨date.nextDay, t.nextDay_second⟩
    · exact ⟨date, rfl, rfl⟩
  obtain ⟨⟨low, high, first, last⟩, same, fraction⟩ := same
  refine ⟨isValid_iff.mpr ⟨year, ⟨low, high, first, last⟩, ?_, ?_, ?_⟩, ?_⟩
  · show m / 60 < 24
    omega
  · exact Nat.mod_lt _ (by decide)
  · exact same ▸ second
  · exact fraction ▸ h.nanosecond

/-! ## The fields -/

/-- Digits write a number with no more digits. -/
theorem natOfDigits_lt {cs : List Char} (h : ∀ c ∈ cs, c.isDigit = true) :
    natOfDigits cs < 10 ^ cs.length := by
  induction cs using List.reverseRecOn with
  | nil => exact Nat.one_pos
  | append_singleton cs c ih =>
    have before := ih fun d hd => h d (List.mem_append_left _ hd)
    have digit : digitValue c ≤ 9 := by
      have bounds := h c (List.mem_append_right _ (List.mem_singleton_self c))
      simp only [Char.isDigit, Bool.and_eq_true, decide_eq_true_eq] at bounds
      have top : c.val.toNat ≤ 57 := bounds.2
      show c.val.toNat - 48 ≤ 9
      omega
    have value : natOfDigits (cs ++ [c]) = natOfDigits cs * 10 + digitValue c := by
      simp only [natOfDigits, List.foldl_append, List.foldl_cons, List.foldl_nil]
    rw [value, List.length_append, List.length_singleton, Nat.pow_succ]
    omega

theorem natOfDigits?_lt {cs : List Char} {n : Nat} (h : natOfDigits? cs = some n) :
    n < 10 ^ cs.length := by
  unfold natOfDigits? at h
  split at h
  · cases h
  · next digits =>
    obtain rfl := Option.some.inj h
    simp only [Bool.or_eq_true, Bool.not_eq_true', not_or, Bool.not_eq_false] at digits
    exact natOfDigits_lt (List.all_eq_true.mp digits.2)

/-- A fraction of a second is read as less than a second. -/
theorem fraction?_lt {cs rest : List Char} {n : Nat} (h : fraction? cs = some (n, rest)) :
    n < 10 ^ 9 := by
  unfold fraction? at h
  split at h
  · next cs =>
    obtain ⟨k, read, e⟩ := Option.map_eq_some_iff.mp h
    obtain ⟨rfl, -⟩ := Prod.mk.inj e
    have le : ((cs.takeWhile Char.isDigit).take 9).length ≤ 9 := List.length_take_le _ _
    calc k * 10 ^ (9 - ((cs.takeWhile Char.isDigit).take 9).length)
        < 10 ^ ((cs.takeWhile Char.isDigit).take 9).length *
            10 ^ (9 - ((cs.takeWhile Char.isDigit).take 9).length) :=
          Nat.mul_lt_mul_of_pos_right (natOfDigits?_lt read) (Nat.pow_pos (by decide))
      _ = 10 ^ 9 := by rw [← Nat.pow_add, Nat.add_sub_cancel' le]
  · cases h
    decide

/-- An offset is read as less than a day. -/
theorem offset?_lt {cs rest : List Char} {minutes : Int} (h : offset? cs = some (minutes, rest)) :
    -dayMinutes < minutes ∧ minutes < dayMinutes := by
  have none : -dayMinutes < 0 ∧ (0 : Int) < dayMinutes := by decide
  unfold offset? at h
  split at h
  · split at h
    · cases h
      exact none
    · split at h
      · cases h
        exact none
      · split at h
        · obtain ⟨⟨hours, rest₁⟩, -, h⟩ := Option.bind_eq_some_iff.mp h
          obtain ⟨⟨minutes', rest₂⟩, -, h⟩ := Option.bind_eq_some_iff.mp h
          simp only [Bool.and_eq_true, decide_eq_true_eq] at h
          split at h
          · next small =>
            obtain ⟨e, -⟩ := Prod.mk.inj (Option.some.inj h)
            unfold dayMinutes
            split at e <;> omega
          · cases h
        · cases h
  · cases h

/-! ## Whole texts -/

/-- A point in time that is read is one that a clock can show. -/
theorem isShown_of_ofText? {text : String} (h : ofText? text = some t) : t.IsShown := by
  unfold ofText? at h
  obtain ⟨⟨year, cs₁⟩, -, h⟩ := Option.bind_eq_some_iff.mp h
  obtain ⟨cs₂, -, h⟩ := Option.bind_eq_some_iff.mp h
  obtain ⟨⟨month, cs₃⟩, -, h⟩ := Option.bind_eq_some_iff.mp h
  obtain ⟨cs₄, -, h⟩ := Option.bind_eq_some_iff.mp h
  obtain ⟨⟨day, cs₅⟩, -, h⟩ := Option.bind_eq_some_iff.mp h
  obtain ⟨cs₆, -, h⟩ := Option.bind_eq_some_iff.mp h
  obtain ⟨⟨hour, cs₇⟩, -, h⟩ := Option.bind_eq_some_iff.mp h
  obtain ⟨cs₈, -, h⟩ := Option.bind_eq_some_iff.mp h
  obtain ⟨⟨minute, cs₉⟩, -, h⟩ := Option.bind_eq_some_iff.mp h
  obtain ⟨cs₁₀, -, h⟩ := Option.bind_eq_some_iff.mp h
  obtain ⟨⟨second, cs₁₁⟩, -, h⟩ := Option.bind_eq_some_iff.mp h
  obtain ⟨⟨nanosecond, cs₁₂⟩, fraction, h⟩ := Option.bind_eq_some_iff.mp h
  obtain ⟨⟨offset, cs₁₃⟩, away, h⟩ := Option.bind_eq_some_iff.mp h
  simp only at h
  split at h
  · cases h
  · next whole =>
    simp only [Bool.or_eq_true, Bool.not_eq_true', not_or, Bool.not_eq_false] at whole
    split at h
    · next inRange =>
      obtain rfl := Option.some.inj h
      have written : IsShown ⟨year, month, day, hour, minute, second, nanosecond⟩ :=
        ⟨whole.2, fraction?_lt fraction⟩
      obtain ⟨low, high⟩ := offset?_lt away
      exact written.earlier low high inRange
    · cases h

end Winding.Timestamp
