import Winding.Gcode.Reader
import Winding.Proofs.Gcode.Words

/-!
# How a draft takes a word

A word is of one kind: a line number, an axis target, a feed, a function code or a parameter. There
are six ways in which a draft takes it (`Draft.Takes`), which say all that it becomes and what it
asks of the word (`Draft.take_eq_ok_iff`). What is kept when words are taken is read off these.
-/

namespace Winding.Gcode

/-! ## Kinds of words -/

section Kinds

variable {R : Type} {w : Word R} {code : Code} {letter : Char}

/-- Whether a word writes a function code. -/
def Word.isFunction (w : Word R) : Bool := w.letter = 'G' || w.letter = 'M'

/-- Whether a word writes an axis target. -/
def Word.isAxis (w : Word R) : Bool := w.letter = 'X' || w.letter = 'Y' || w.letter = 'Z'

/-- Whether a word with this letter is a parameter of the code that it stands behind. -/
def Code.governs (code : Code) (letter : Char) : Bool :=
  ['P', 'Q', 'R', 'I', 'J'].contains letter || (code = .pin && ['F', 'B'].contains letter)

theorem Word.isFunction_iff :
    w.isFunction = true ↔ w.letter = 'G' ∨ w.letter = 'M' := by
  simp [isFunction]

theorem Word.isAxis_iff :
    w.isAxis = true ↔ w.letter = 'X' ∨ w.letter = 'Y' ∨ w.letter = 'Z' := by
  simp [isAxis, or_assoc]

theorem Code.governs_iff :
    code.governs letter = true ↔
      (letter = 'P' ∨ letter = 'Q' ∨ letter = 'R' ∨ letter = 'I' ∨ letter = 'J') ∨
        code = .pin ∧ (letter = 'F' ∨ letter = 'B') := by
  simp [governs]

theorem Word.disjoint_of_isAxis (h : w.isAxis = true) :
    w.isFunction = false ∧ w.letter ≠ 'N' ∧ w.letter ≠ 'F' := by
  rcases isAxis_iff.mp h with letter | letter | letter
  iterate 3
    · rw [isFunction, letter]
      decide

theorem Word.disjoint_of_isFunction (h : w.isFunction = true) :
    w.isAxis = false ∧ w.letter ≠ 'N' ∧ w.letter ≠ 'F' := by
  rcases isFunction_iff.mp h with letter | letter
  iterate 2
    · rw [isAxis, letter]
      decide

theorem Word.disjoint_of_governs (h : code.governs w.letter = true) :
    w.isFunction = false ∧ w.isAxis = false ∧ w.letter ≠ 'N' := by
  rcases Code.governs_iff.mp h with
    (letter | letter | letter | letter | letter) | ⟨-, letter | letter⟩
  iterate 7
    · rw [isFunction, isAxis, letter]
      decide

/-- Line numbers and feeds are neither. -/
theorem Word.disjoint_of_letter (h : w.letter = 'N' ∨ w.letter = 'F') :
    w.isFunction = false ∧ w.isAxis = false := by
  rcases h with letter | letter
  iterate 2
    · rw [isFunction, isAxis, letter]
      decide

variable [Scalar R]

/-- The code that a function word stands for. -/
def Word.code? (w : Word R) : Option Code :=
  (w.written?.filter (0 ≤ ·)).bind fun n => Code.ofNumber? w.letter n.toNat

/-- Whether a word stands for a move. -/
def Word.isMove (w : Word R) : Bool := w.code? = some .move

theorem Word.bind_natBelow?_ofNumber? (w : Word R) :
    (w.natBelow? numberLimit).bind (Code.ofNumber? w.letter) = w.code? := by
  have small {n : Nat} {code : Code} (h : Code.ofNumber? w.letter n = some code) :
      n < numberLimit := by
    unfold Code.ofNumber? at h
    split at h
    iterate 9 decide
    cases h
  refine Option.ext fun code => ?_
  rw [code?, Option.bind_eq_some_iff, Option.bind_eq_some_iff]
  constructor
  · rintro ⟨n, read, named⟩
    obtain ⟨written, -⟩ := (natBelow?_eq_some_iff (by decide)).mp read
    exact ⟨n, Option.filter_eq_some_iff.mpr ⟨written, by simp⟩, named⟩
  · rintro ⟨n, found, named⟩
    obtain ⟨written, low⟩ := Option.filter_eq_some_iff.mp found
    have low : 0 ≤ n := of_decide_eq_true low
    refine ⟨n.toNat, (natBelow?_eq_some_iff (by decide)).mpr ⟨?_, small named⟩, named⟩
    rw [written, Int.toNat_of_nonneg low]

theorem Word.isFunction_of_code? (h : w.code? = some code) : w.isFunction = true := by
  obtain ⟨n, -, named⟩ := Option.bind_eq_some_iff.mp h
  unfold Code.ofNumber? at named
  split at named
  iterate 9
    · next letter _ => rw [isFunction, letter]; rfl
  · cases named

theorem Word.code?_eq_none (h : w.isFunction = false) : w.code? = none := by
  rcases known : w.code? with _ | code
  · rfl
  · rw [isFunction_of_code? known] at h
    cases h

theorem Word.isMove_eq_false (h : w.isFunction = false) : w.isMove = false := by
  rw [isMove, code?_eq_none h]
  rfl

theorem Word.isMove_iff : w.isMove = true ↔ w.code? = some .move := decide_eq_true_iff

end Kinds

/-! ## What taking a word does -/

section Taking

variable {R : Type} [Scalar R] {d d' : Draft R} {w : Word R}

/-- What a draft becomes when it takes a word. -/
inductive Draft.Takes (d : Draft R) (w : Word R) : Draft R → Prop
  | number {n : Nat} (letter : w.letter = 'N') (fresh : d.number = none)
      (read : w.natBelow? numberLimit = some n) : Takes d w { d with number := some (n, w.column) }
  | axis (axis : w.isAxis = true) (fresh : d.axis? w.letter = none) :
      Takes d w { d with
        target := withAxis d.target w.letter w.value
        slots := if d.placed then d.slots else .axes :: d.slots
        placed := true }
  | feed (letter : w.letter = 'F') (free : openCode? d.slots ≠ some .pin) (fresh : d.feed = none)
      (above : Scalar.le w.value Scalar.zero = false) :
      Takes d w { d with feed := some w.value }
  | parameter {code : Code} (opened : openCode? d.slots = some code)
      (governed : code.governs w.letter = true) : Takes d w { d with slots := attach w d.slots }
  | move (code : w.code? = some .move) (fresh : d.slots.any Slot.isMoveCall = false) :
      Takes d w { d with
        slots := .call .move w.column [] :: d.slots.filter (!·.isAxes)
        placed := true }
  | call {code : Code} (known : w.code? = some code) (other : code ≠ .move) :
      Takes d w { d with slots := .call code w.column [] :: d.slots }

namespace Draft

theorem take_of_isFunction (h : w.isFunction = true) : d.take w = d.takeCode w := by
  rw [take]
  rcases Word.isFunction_iff.mp h with letter | letter
  iterate 2
    · rw [letter]
      rfl

theorem takes_of_takeNumber (letter : w.letter = 'N') (h : d.takeNumber w = .ok d') :
    d.Takes w d' := by
  unfold takeNumber at h
  split at h
  · cases h
  · next fresh =>
    split at h
    · cases h
    · next n read =>
      cases h
      exact .number letter (Option.not_isSome_iff_eq_none.mp fresh) read

theorem takes_of_takeAxis (axis : w.isAxis = true) (h : d.takeAxis w = .ok d') : d.Takes w d' := by
  unfold takeAxis at h
  split at h
  · cases h
  · next fresh =>
    cases h
    exact .axis axis (Option.not_isSome_iff_eq_none.mp fresh)

theorem takes_of_takeFeed (letter : w.letter = 'F') (free : openCode? d.slots ≠ some .pin)
    (h : d.takeFeed w = .ok d') : d.Takes w d' := by
  unfold takeFeed at h
  split at h
  · cases h
  · next fresh =>
    split at h
    · cases h
    · next above =>
      cases h
      exact .feed letter free (Option.not_isSome_iff_eq_none.mp fresh) (eq_false_of_ne_true above)

theorem takes_of_takeParameter
    (governed : ∀ code, openCode? d.slots = some code → code.governs w.letter = true)
    (h : d.takeParameter w = .ok d') : d.Takes w d' := by
  unfold takeParameter at h
  split at h
  · cases h
  · next opened =>
    cases h
    obtain ⟨code, opened⟩ :=
      Option.ne_none_iff_exists'.mp (mt Option.isNone_iff_eq_none.mpr opened)
    exact .parameter opened (governed code opened)

theorem takes_of_takeCode (h : d.takeCode w = .ok d') : d.Takes w d' := by
  unfold takeCode at h
  rw [w.bind_natBelow?_ofNumber?] at h
  split at h
  · cases h
  · next known =>
    split at h
    · cases h
    · next fresh =>
      cases h
      exact .move known (eq_false_of_ne_true fresh)
  · next code other known =>
    cases h
    exact .call known other

theorem takes_of_take (h : d.take w = .ok d') : d.Takes w d' := by
  -- Behind a pin code `F` and `B` are parameters too.
  have behindPin {letter : Char} (same : w.letter = letter) (pin : letter = 'F' ∨ letter = 'B')
      (opened : openCode? d.slots = some .pin) (h : d.takeParameter w = .ok d') : d.Takes w d' := by
    refine takes_of_takeParameter (fun code open' => ?_) h
    cases opened.symm.trans open'
    rw [same]
    exact Code.governs_iff.mpr (.inr ⟨rfl, pin⟩)
  unfold take at h
  split at h
  · next letter => exact takes_of_takeNumber letter h
  iterate 3
    · next letter => exact takes_of_takeAxis (by rw [Word.isAxis, letter]; rfl) h
  · next letter =>
    split at h
    · next opened => exact behindPin letter (.inl rfl) opened h
    · next free => exact takes_of_takeFeed letter free h
  · next letter =>
    split at h
    · next opened => exact behindPin letter (.inr rfl) opened h
    · cases h
  iterate 5
    · next letter => exact takes_of_takeParameter (fun code _ => by rw [letter]; rfl) h
  iterate 2 exact takes_of_takeCode h
  · cases h

theorem Takes.take_eq (h : d.Takes w d') : d.take w = .ok d' := by
  cases h with
  | number letter fresh read =>
    rw [take, letter]
    simp only [takeNumber, fresh, read]
    rfl
  | axis axis fresh =>
    have taken : d.take w = d.takeAxis w := by
      rw [take]
      rcases Word.isAxis_iff.mp axis with letter | letter | letter
      iterate 3
        · rw [letter]
          rfl
    rw [taken, takeAxis, fresh]
    rfl
  | feed letter free fresh above =>
    rw [take, letter]
    simp only [if_neg free, takeFeed, fresh, above]
    rfl
  | @parameter code opened governed =>
    have taken : d.takeParameter w = .ok { d with slots := attach w d.slots } := by
      rw [takeParameter, opened]
      rfl
    rw [← taken, take]
    rcases Code.governs_iff.mp governed with
      (letter | letter | letter | letter | letter) | ⟨rfl, letter | letter⟩
    iterate 5
      · rw [letter]
        rfl
    iterate 2
      · rw [letter]
        exact if_pos opened
  | move code fresh =>
    rw [take_of_isFunction (Word.isFunction_of_code? code), takeCode, w.bind_natBelow?_ofNumber?,
      code]
    simp only [fresh]
    rfl
  | @call code known other =>
    rw [take_of_isFunction (Word.isFunction_of_code? known), takeCode,
      w.bind_natBelow?_ofNumber?, known]
    cases code with
    | move => exact absurd rfl other
    | _ => rfl

/-- A word is taken exactly if the draft becomes something with it. -/
theorem take_eq_ok_iff : d.take w = .ok d' ↔ d.Takes w d' := ⟨takes_of_take, Takes.take_eq⟩

end Draft

end Taking

end Winding.Gcode
