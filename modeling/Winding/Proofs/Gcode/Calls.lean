import Winding.Gcode.Reader
import Winding.Proofs.Gcode.Words

/-!
# What function codes ask for

A function code and its parameters become one command. The command takes its fields from the
parameters (`Calls`), and there is one exactly if the code takes all of them, none is given twice,
none is missing and all are in their ranges (`Code.Admits`, `commandOf_eq_ok_iff`). The number of a
word counts as it is written (`Word.written?`); only a delay of `2 ^ 63` is cut by one.
-/

namespace Winding.Gcode

/-! ## Values -/

/-- Delays are kept in more bits than words carry. -/
theorem Word.natBelow?_delay {R : Type} [Scalar R] {w : Word R} {ms : Nat} :
    w.natBelow? delayLimit = some ms ↔
      ∃ n : Nat, w.written? = some (n : Int) ∧ n ≤ 2 ^ 63 ∧ ms = min n (2 ^ 63 - 1) := by
  have limit : delayLimit = 2 ^ 64 := rfl
  constructor
  · intro h
    obtain ⟨whole, -⟩ := natBelow?_eq_some h
    obtain ⟨n, written, small, carried⟩ := whole?_eq_some_iff.mp whole
    obtain ⟨k, rfl⟩ : ∃ k : Nat, n = k := ⟨n.toNat, by omega⟩
    exact ⟨k, written, by omega, by omega⟩
  · rintro ⟨n, written, small, rfl⟩
    exact natBelow?_of_whole? (whole?_eq_some_iff.mpr ⟨n, written, by omega, by omega⟩) (by omega)

theorem bounds_of_ofCode? (n : Int) (h : (Side.ofCode? n).isSome = true) :
    0 ≤ n ∧ n < 2 ^ 63 - 1 := by
  unfold Side.ofCode? at h
  split at h
  iterate 4 omega
  · cases h

theorem bounds_of_ofMask? (n : Int) (h : (TransferEdge.ofMask? n).isSome = true) :
    0 ≤ n ∧ n < 2 ^ 63 - 1 := by
  obtain ⟨e, he, found⟩ := List.find?_isSome.mp h
  have mask : e.mask ≤ 2 ^ 62 := by cases e <;> decide
  have := beq_iff_eq.mp found
  omega

/-! ## Parameters of a call -/

section Parameters

variable {R : Type} {code : Code} {column : Nat} {params : List (Word R)} {w : Word R}
  {letter : Char}

/-- The letters of which a code needs one. -/
def Code.required : Code → List Char
  | .delay | .latch | .head | .seek => ['P']
  | .pin => ['F', 'B']
  | .move | .clip | .pause => []

theorem param?_eq_none_iff :
    param? params letter = none ↔ ∀ w ∈ params, w.letter ≠ letter := by
  rw [param?, List.find?_eq_none]
  exact forall₂_congr fun w hw => by rw [beq_iff_eq]

/-- Where no letter is given twice there is at most one parameter with a letter. -/
theorem param?_eq_some_iff (once : (params.map Word.letter).Nodup) :
    param? params letter = some w ↔ w ∈ params ∧ w.letter = letter := by
  constructor
  · intro found
    have same := List.find?_some found
    exact ⟨List.mem_of_find?_eq_some found, beq_iff_eq.mp same⟩
  · rintro ⟨hw, rfl⟩
    rcases found : param? params w.letter with _ | v
    · exact absurd rfl (param?_eq_none_iff.mp found w hw)
    · have same := List.find?_some found
      rw [List.inj_on_of_nodup_map once (List.mem_of_find?_eq_some found) hw (beq_iff_eq.mp same)]

theorem parameterFault?_eq_none_iff {seen : List Char} :
    parameterFault? code seen params = none ↔
      (∀ w ∈ params, code.accepts w.letter = true ∧ w.letter ∉ seen) ∧
        (params.map Word.letter).Nodup := by
  induction params generalizing seen with
  | nil => exact ⟨fun _ => ⟨nofun, .nil⟩, fun _ => rfl⟩
  | cons w params ih =>
    rw [parameterFault?, List.forall_mem_cons, List.map_cons, List.nodup_cons]
    split
    · next refused =>
      constructor
      · nofun
      · rintro ⟨⟨⟨accepted, -⟩, -⟩, -⟩
        rw [accepted] at refused
        cases refused
    · next accepted =>
      split
      · next repeated =>
        constructor
        · nofun
        · rintro ⟨⟨⟨-, fresh⟩, -⟩, -⟩
          exact absurd (List.contains_iff_mem.mp repeated) fresh
      · next fresh =>
        rw [ih]
        have accepted : code.accepts w.letter = true := by simpa using accepted
        have fresh : w.letter ∉ seen := fun mem => fresh (List.contains_iff_mem.mpr mem)
        constructor
        · rintro ⟨others, once⟩
          refine ⟨⟨⟨accepted, fresh⟩, fun v hv => ⟨(others v hv).1, fun mem =>
            (others v hv).2 (List.mem_cons_of_mem _ mem)⟩⟩, fun mem => ?_, once⟩
          obtain ⟨v, hv, same⟩ := List.mem_map.mp mem
          exact (others v hv).2 (same ▸ List.mem_cons_self)
        · rintro ⟨⟨-, others⟩, distinct, once⟩
          refine ⟨fun v hv => ⟨(others v hv).1, fun mem => ?_⟩, once⟩
          rcases List.mem_cons.mp mem with same | old
          · exact distinct (List.mem_map.mpr ⟨v, hv, same⟩)
          · exact (others v hv).2 old

theorem requireP_eq_ok_iff {α : Type} {read : Word R → Option α} {a : α}
    (once : (params.map Word.letter).Nodup) :
    requireP code column params read = .ok a ↔
      ∃ w ∈ params, w.letter = 'P' ∧ read w = some a := by
  rw [requireP]
  constructor
  · intro h
    split at h
    · cases h
    · next w found =>
      split at h
      · cases h
      · next value =>
        cases h
        obtain ⟨hw, letter⟩ := (param?_eq_some_iff once).mp found
        exact ⟨w, hw, letter, value⟩
  · rintro ⟨w, hw, letter, value⟩
    rw [(param?_eq_some_iff once).mpr ⟨hw, letter⟩]
    simp only [value]

variable [Scalar R]

/-- A parameter in its range, of a letter that the code takes. -/
def Code.InRange (code : Code) (w : Word R) : Prop :=
  match code with
  | .delay => ∃ n : Nat, w.written? = some (n : Int) ∧ n ≤ 2 ^ 63
  | .latch | .head => ∃ n side, w.written? = some n ∧ Side.ofCode? n = some side
  | .seek => ∃ n edge, w.written? = some n ∧ TransferEdge.ofMask? n = some edge
  | .pin => w.letter = 'F' ∨ w.letter = 'B' →
      ∃ n : Nat, w.written? = some (n : Int) ∧ 1 ≤ n ∧ n < Pin.ordinalLimit
  | .move | .clip | .pause => True

/-- Parameters that a code can be called with. -/
structure Code.Admits (code : Code) (params : List (Word R)) : Prop where
  accepted : ∀ w ∈ params, code.accepts w.letter = true
  once : (params.map Word.letter).Nodup
  required : code.required = [] ∨ ∃ w ∈ params, w.letter ∈ code.required
  inRange : ∀ w ∈ params, code.InRange w

/-- The pin that a parameter names, if there is one. -/
def PinOf (params : List (Word R)) (letter : Char) : Option Nat → Prop
  | none => ∀ w ∈ params, w.letter ≠ letter
  | some n => ∃ w ∈ params, w.letter = letter ∧ w.written? = some (n : Int)

/-- The value of a parameter, or zero where it is not given. -/
def OffsetOf (params : List (Word R)) (letter : Char) (a : R) : Prop :=
  (∃ w ∈ params, w.letter = letter ∧ w.value = a) ∨
    (∀ w ∈ params, w.letter ≠ letter) ∧ a = Scalar.zero

/-- The command that a code asks for, on a line with this target and feed. -/
inductive Calls (target : Target R) (feed : Option R) (params : List (Word R)) :
    Code → Command R → Prop
  | move : Calls target feed params .move (.move target feed)
  /-- The number `2 ^ 63` is more than a word carries, and is cut by one. -/
  | delay {w : Word R} {n : Nat} (hw : w ∈ params) (letter : w.letter = 'P')
      (written : w.written? = some (n : Int)) (small : n ≤ 2 ^ 63) :
      Calls target feed params .delay (.delay (min n (2 ^ 63 - 1)))
  | latch {w : Word R} {n : Int} {side : Side} (hw : w ∈ params) (letter : w.letter = 'P')
      (written : w.written? = some n) (found : Side.ofCode? n = some side) :
      Calls target feed params .latch (.latch side)
  | head {w : Word R} {n : Int} {side : Side} (hw : w ∈ params) (letter : w.letter = 'P')
      (written : w.written? = some n) (found : Side.ofCode? n = some side) :
      Calls target feed params .head (.head side)
  | seek {w : Word R} {n : Int} {edge : TransferEdge} (hw : w ∈ params) (letter : w.letter = 'P')
      (written : w.written? = some n) (found : TransferEdge.ofMask? n = some edge) :
      Calls target feed params .seek (.seek edge)
  | pin {front back : Option Nat} {dx dy : R} (front_of : PinOf params 'F' front)
      (back_of : PinOf params 'B' back) (dx_of : OffsetOf params 'I' dx)
      (dy_of : OffsetOf params 'J' dy) : Calls target feed params .pin (.pin front back dx dy)
  | clip : Calls target feed params .clip .clip
  | pause : Calls target feed params .pause .pause

theorem pinParam_eq_ok_iff {o : Option Nat} (once : (params.map Word.letter).Nodup) :
    pinParam params letter = .ok o ↔ PinOf params letter o ∧
      ∀ n ∈ o, 1 ≤ n ∧ n < Pin.ordinalLimit := by
  have limit : Pin.ordinalLimit < 2 ^ 63 := by decide
  have ordinal (w : Word R) (n : Nat) :
      (w.natBelow? Pin.ordinalLimit).filter (1 ≤ ·) = some n ↔
        w.written? = some (n : Int) ∧ 1 ≤ n ∧ n < Pin.ordinalLimit := by
    rw [Option.filter_eq_some_iff, Word.natBelow?_eq_some_iff limit, decide_eq_true_eq]
    tauto
  rw [pinParam]
  rcases found : param? params letter with _ | w
  · have absent := param?_eq_none_iff.mp found
    cases o with
    | none => exact ⟨fun _ => ⟨absent, nofun⟩, fun _ => rfl⟩
    | some n =>
      constructor
      · nofun
      · rintro ⟨⟨w, hw, letter, -⟩, -⟩
        exact absurd letter (absent w hw)
  · obtain ⟨hw, same⟩ := (param?_eq_some_iff once).mp found
    constructor
    · intro h
      simp only at h
      split at h
      · cases h
      · next n read =>
        cases h
        obtain ⟨written, range⟩ := (ordinal w n).mp read
        refine ⟨⟨w, hw, same, written⟩, ?_⟩
        rintro _ ⟨⟩
        exact range
    · rintro ⟨named, range⟩
      cases o with
      | none => exact absurd same (named w hw)
      | some n =>
        obtain ⟨v, hv, letter, written⟩ := named
        cases found.symm.trans ((param?_eq_some_iff once).mpr ⟨hv, letter⟩)
        simp only [(ordinal w n).mpr ⟨written, range n rfl⟩]

/-- The number of the pin that a parameter names is in the range that all pins named are in. -/
theorem PinOf.inRange {o : Option Nat} (once : (params.map Word.letter).Nodup)
    (h : PinOf params letter o) (range : ∀ n ∈ o, 1 ≤ n ∧ n < Pin.ordinalLimit) (hw : w ∈ params)
    (same : w.letter = letter) :
    ∃ n : Nat, w.written? = some (n : Int) ∧ 1 ≤ n ∧ n < Pin.ordinalLimit := by
  cases o with
  | none => exact absurd same (h w hw)
  | some n =>
    obtain ⟨v, hv, letter, written⟩ := h
    obtain rfl := List.inj_on_of_nodup_map once hv hw (letter.trans same.symm)
    exact ⟨n, written, range n rfl⟩

theorem Code.Admits.pin_range (admits : Code.pin.Admits params) (pin : letter = 'F' ∨ letter = 'B')
    {o : Option Nat} (h : PinOf params letter o) : ∀ n ∈ o, 1 ≤ n ∧ n < Pin.ordinalLimit := by
  rintro n ⟨⟩
  obtain ⟨w, hw, rfl, written⟩ := h
  obtain ⟨m, same, range⟩ := admits.inRange w hw pin
  have : (m : Int) = n := Option.some.inj (same.symm.trans written)
  omega

theorem Code.Admits.pin_given (admits : Code.pin.Admits params) {front back : Option Nat}
    (front_of : PinOf params 'F' front) (back_of : PinOf params 'B' back) :
    ¬(front.isNone && back.isNone) = true := by
  rcases admits.required with none | ⟨w, hw, letter⟩
  · cases none
  · cases front with
    | some n => exact Bool.false_ne_true
    | none =>
      cases back with
      | some n => exact Bool.false_ne_true
      | none =>
        rcases List.mem_cons.mp letter with front | more
        · exact absurd front (front_of w hw)
        · exact absurd (List.mem_singleton.mp more) (back_of w hw)

theorem offsetOf_param? (once : (params.map Word.letter).Nodup) (letter : Char) (a : R) :
    ((param? params letter).map Word.value).getD Scalar.zero = a ↔ OffsetOf params letter a := by
  rcases found : param? params letter with _ | w
  · have absent := param?_eq_none_iff.mp found
    constructor
    · rintro rfl
      exact .inr ⟨absent, rfl⟩
    · rintro (⟨w, hw, same, -⟩ | ⟨-, rfl⟩)
      · exact absurd same (absent w hw)
      · rfl
  · obtain ⟨hw, same⟩ := (param?_eq_some_iff once).mp found
    constructor
    · rintro rfl
      exact .inl ⟨w, hw, same, rfl⟩
    · rintro (⟨v, hv, letter, rfl⟩ | ⟨absent, -⟩)
      · cases found.symm.trans ((param?_eq_some_iff once).mpr ⟨hv, letter⟩)
        rfl
      · exact absurd same (absent w hw)

variable {target : Target R} {feed : Option R} {c : Command R}

/-- Of a code that takes one parameter only. -/
theorem Code.Admits.of_single (only : ∀ letter, code.accepts letter = true → letter = 'P')
    (required : code.required = ['P']) (accepted : ∀ w ∈ params, code.accepts w.letter = true)
    (once : (params.map Word.letter).Nodup) (hw : w ∈ params) (inRange : code.InRange w) :
    code.Admits params := by
  have letter (v : Word R) (hv : v ∈ params) : v.letter = 'P' := only _ (accepted v hv)
  refine ⟨accepted, once, .inr ⟨w, hw, ?_⟩, fun v hv => ?_⟩
  · rw [required, letter w hw]
    exact List.mem_singleton_self _
  · rwa [List.inj_on_of_nodup_map once hv hw ((letter v hv).trans (letter w hw).symm)]

omit [Scalar R] in
theorem map_requireP_eq_ok_iff {α : Type} {make : α → Command R} {read : Word R → Option α}
    (once : (params.map Word.letter).Nodup) :
    make <$> requireP code column params read = .ok c ↔
      ∃ w ∈ params, w.letter = 'P' ∧ ∃ a, read w = some a ∧ make a = c := by
  constructor
  · intro h
    obtain ⟨a, required, rfl⟩ := map_eq_ok h
    obtain ⟨w, hw, letter, value⟩ := (requireP_eq_ok_iff once).mp required
    exact ⟨w, hw, letter, a, value, rfl⟩
  · rintro ⟨w, hw, letter, a, value, rfl⟩
    rw [(requireP_eq_ok_iff once).mpr ⟨w, hw, letter, value⟩]
    rfl

/-- A positioning takes its pins and its offsets from the parameters. -/
theorem commandOf_pin_eq_ok_iff (proper : parameterFault? .pin [] params = none) :
    commandOf target feed .pin column params = .ok c ↔
      Code.pin.Admits params ∧ Calls target feed params .pin c := by
  obtain ⟨accepted, once⟩ := parameterFault?_eq_none_iff.mp proper
  have accepted : ∀ w ∈ params, Code.pin.accepts w.letter = true := fun w hw => (accepted w hw).1
  unfold commandOf
  rw [proper]
  constructor
  · intro h
    obtain ⟨front, readFront, h⟩ := bind_eq_ok h
    obtain ⟨back, readBack, h⟩ := bind_eq_ok h
    obtain ⟨front_of, frontRange⟩ := (pinParam_eq_ok_iff once).mp readFront
    obtain ⟨back_of, backRange⟩ := (pinParam_eq_ok_iff once).mp readBack
    split at h
    · cases h
    · next given =>
      cases h
      refine ⟨⟨accepted, once, .inr ?_, fun w hw letter => ?_⟩,
        .pin front_of back_of ((offsetOf_param? once 'I' _).mp rfl)
          ((offsetOf_param? once 'J' _).mp rfl)⟩
      · rcases front with _ | n
        · rcases back with _ | n
          · exact absurd rfl given
          · obtain ⟨w, hw, letter, -⟩ := back_of
            exact ⟨w, hw, letter ▸ .tail _ (.head _)⟩
        · obtain ⟨w, hw, letter, -⟩ := front_of
          exact ⟨w, hw, letter ▸ .head _⟩
      · rcases letter with letter | letter
        · exact front_of.inRange once frontRange hw letter
        · exact back_of.inRange once backRange hw letter
  · rintro ⟨admits, ⟨⟩⟩
    next front back dx dy front_of back_of dx_of dy_of =>
      rw [(pinParam_eq_ok_iff once).mpr ⟨front_of, admits.pin_range (.inl rfl) front_of⟩,
        (pinParam_eq_ok_iff once).mpr ⟨back_of, admits.pin_range (.inr rfl) back_of⟩]
      show (if (front.isNone && back.isNone) = true then _ else
        Except.ok (Command.pin front back (((param? params 'I').map Word.value).getD Scalar.zero)
          (((param? params 'J').map Word.value).getD Scalar.zero))) = _
      rw [if_neg (admits.pin_given front_of back_of), (offsetOf_param? once 'I' dx).mpr dx_of,
        (offsetOf_param? once 'J' dy).mpr dy_of]

/-- A call becomes a command exactly if its code can be called with its parameters, and then the
command takes its fields from them. -/
theorem commandOf_eq_ok_iff :
    commandOf target feed code column params = .ok c ↔
      code.Admits params ∧ Calls target feed params code c := by
  rcases faulty : parameterFault? code [] params with _ | fault
  · obtain ⟨proper, once⟩ := parameterFault?_eq_none_iff.mp faulty
    have accepted : ∀ w ∈ params, code.accepts w.letter = true := fun w hw => (proper w hw).1
    cases code with
    | pin => exact commandOf_pin_eq_ok_iff faulty
    | move | clip | pause =>
      unfold commandOf
      rw [faulty]
      constructor
      · rintro ⟨⟩
        exact ⟨⟨accepted, once, .inl rfl, fun _ _ => trivial⟩, by constructor⟩
      · rintro ⟨-, ⟨⟩⟩
        rfl
    | delay =>
      unfold commandOf
      rw [faulty]
      refine (map_requireP_eq_ok_iff once).trans ⟨?_, ?_⟩
      · rintro ⟨w, hw, letter, ms, read, rfl⟩
        obtain ⟨n, written, small, rfl⟩ := Word.natBelow?_delay.mp read
        exact ⟨.of_single (fun _ => of_decide_eq_true) rfl accepted once hw ⟨n, written, small⟩,
          .delay hw letter written small⟩
      · rintro ⟨-, ⟨⟩⟩
        next w n hw letter written small =>
          exact ⟨w, hw, letter, _, Word.natBelow?_delay.mpr ⟨n, written, small, rfl⟩, rfl⟩
    | latch | head =>
      unfold commandOf
      rw [faulty]
      refine (map_requireP_eq_ok_iff once).trans ⟨?_, ?_⟩
      · rintro ⟨w, hw, letter, side, read, rfl⟩
        obtain ⟨n, written, found⟩ := (Word.bind_whole?_eq_some_iff bounds_of_ofCode?).mp read
        exact ⟨.of_single (fun _ => of_decide_eq_true) rfl accepted once hw
          ⟨n, side, written, found⟩, by constructor <;> assumption⟩
      · rintro ⟨-, ⟨⟩⟩
        next w n side hw letter written found =>
          exact ⟨w, hw, letter, side,
            (Word.bind_whole?_eq_some_iff bounds_of_ofCode?).mpr ⟨n, written, found⟩, rfl⟩
    | seek =>
      unfold commandOf
      rw [faulty]
      refine (map_requireP_eq_ok_iff once).trans ⟨?_, ?_⟩
      · rintro ⟨w, hw, letter, edge, read, rfl⟩
        obtain ⟨n, written, found⟩ := (Word.bind_whole?_eq_some_iff bounds_of_ofMask?).mp read
        exact ⟨.of_single (fun _ => of_decide_eq_true) rfl accepted once hw
          ⟨n, edge, written, found⟩, .seek hw letter written found⟩
      · rintro ⟨-, ⟨⟩⟩
        next w n edge hw letter written found =>
          exact ⟨w, hw, letter, edge,
            (Word.bind_whole?_eq_some_iff bounds_of_ofMask?).mpr ⟨n, written, found⟩, rfl⟩
  · unfold commandOf
    rw [faulty]
    constructor
    · nofun
    · rintro ⟨admits, -⟩
      have := parameterFault?_eq_none_iff.mpr
        ⟨fun w hw => ⟨admits.accepted w hw, List.not_mem_nil⟩, admits.once⟩
      cases faulty.symm.trans this

/-- Parameters that a code can be called with ask for a command. -/
theorem Code.Admits.exists_calls (admits : code.Admits params) (target : Target R)
    (feed : Option R) : ∃ c, Calls target feed params code c := by
  have letter {w : Word R} (hw : w ∈ params) (only : ∀ l, code.accepts l = true → l = 'P') :
      w.letter = 'P' := only _ (admits.accepted w hw)
  have given (some : code.required ≠ []) : ∃ w ∈ params, code.InRange w := by
    rcases admits.required with none | ⟨w, hw, -⟩
    · exact absurd none some
    · exact ⟨w, hw, admits.inRange w hw⟩
  cases code with
  | move => exact ⟨_, .move⟩
  | clip => exact ⟨_, .clip⟩
  | pause => exact ⟨_, .pause⟩
  | delay =>
    obtain ⟨w, hw, n, written, small⟩ := given nofun
    exact ⟨_, .delay hw (letter hw fun _ => of_decide_eq_true) written small⟩
  | latch =>
    obtain ⟨w, hw, n, side, written, found⟩ := given nofun
    exact ⟨_, .latch hw (letter hw fun _ => of_decide_eq_true) written found⟩
  | head =>
    obtain ⟨w, hw, n, side, written, found⟩ := given nofun
    exact ⟨_, .head hw (letter hw fun _ => of_decide_eq_true) written found⟩
  | seek =>
    obtain ⟨w, hw, n, edge, written, found⟩ := given nofun
    exact ⟨_, .seek hw (letter hw fun _ => of_decide_eq_true) written found⟩
  | pin =>
    have ordinal (letter : Char) (pin : letter = 'F' ∨ letter = 'B') :
        ∃ o, PinOf params letter o := by
      rcases found : param? params letter with _ | w
      · exact ⟨none, param?_eq_none_iff.mp found⟩
      · obtain ⟨hw, same⟩ := (param?_eq_some_iff admits.once).mp found
        obtain ⟨n, written, -⟩ := admits.inRange w hw (same ▸ pin)
        exact ⟨some n, w, hw, same, written⟩
    obtain ⟨front, front_of⟩ := ordinal 'F' (.inl rfl)
    obtain ⟨back, back_of⟩ := ordinal 'B' (.inr rfl)
    exact ⟨_, .pin front_of back_of ((offsetOf_param? admits.once 'I' _).mp rfl)
      ((offsetOf_param? admits.once 'J' _).mp rfl)⟩

end Parameters

end Winding.Gcode
