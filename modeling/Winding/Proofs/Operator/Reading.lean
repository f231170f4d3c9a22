import Winding.Operator.Command
import Winding.Proofs.Number.Plain
import Winding.Proofs.Text.Lines

/-!
# How a line is read

A line is words with blanks between them (`Spaced`), and nothing but the words is read
(`wordsOf_eq_iff`). What the words ask for is said by a grammar: the name of a command in upper or
lower case, and the arguments that it takes (`Operator.Asks`). Exactly what the grammar says is
accepted (`Operator.Command.ofName_eq_ok_iff`).
-/

namespace Winding

/-! ## Words -/

/-- A text is these words, with blanks around them and between them. -/
inductive Spaced : List Char → List (List Char) → Prop
  | blank {gap : List Char} (blank : ∀ c ∈ gap, isBlank c = true) : Spaced gap []
  | word {gap word rest : List Char} {words : List (List Char)}
      (blank : ∀ c ∈ gap, isBlank c = true) (some : word ≠ [])
      (dark : ∀ c ∈ word, isBlank c = false) (apart : ∀ c ∈ rest.head?, isBlank c = true)
      (more : Spaced rest words) : Spaced (gap ++ (word ++ rest)) (word :: words)

variable {cs : List Char} {words : List (List Char)}

theorem Spaced.dark (h : Spaced cs words) : ∀ word ∈ words, ∀ c ∈ word, isBlank c = false := by
  induction h with
  | blank => nofun
  | word _ _ dark _ _ ih => exact List.forall_mem_cons.mpr ⟨dark, ih⟩

theorem wordsOf_blank (blank : ∀ c ∈ cs, isBlank c = true) : wordsOf cs = [] := by
  have none : trimStart cs = [] := List.dropWhile_eq_nil_iff.mpr blank
  rw [wordsOf]
  split
  · rfl
  · next some => cases none.symm.trans some

theorem wordsOf_word {gap word rest : List Char} (blank : ∀ c ∈ gap, isBlank c = true)
    (some : word ≠ []) (dark : ∀ c ∈ word, isBlank c = false)
    (apart : ∀ c ∈ rest.head?, isBlank c = true) :
    wordsOf (gap ++ (word ++ rest)) = word :: wordsOf rest := by
  obtain ⟨c, word, rfl⟩ := List.exists_cons_of_ne_nil some
  obtain ⟨first, dark⟩ := List.forall_mem_cons.mp dark
  have start : trimStart (gap ++ (c :: word ++ rest)) = c :: (word ++ rest) := by
    rw [trimStart, List.dropWhile_append_of_pos blank, List.cons_append,
      List.dropWhile_cons_of_neg (by rw [first]; exact Bool.false_ne_true)]
  obtain ⟨taken, left⟩ := takeWhile_append_stop (p := (!isBlank ·)) (l := word) (r := rest)
    (fun c hc => by rw [dark c hc]; rfl) (fun c hc => by rw [apart c hc]; rfl)
  rw [wordsOf]
  split
  · next none => cases start.symm.trans none
  · next start' =>
    cases start.symm.trans start'
    rw [taken, left]

/-- A text is read as the words of which it is made, and as no others. -/
theorem wordsOf_eq_iff : wordsOf cs = words ↔ Spaced cs words := by
  constructor
  · rintro rfl
    -- The reader takes off a gap and a word at a time, as the relation does.
    induction cs using wordsOf.induct with
    | case1 cs none =>
      have blank := List.dropWhile_eq_nil_iff.mp none
      rw [wordsOf_blank blank]
      exact .blank blank
    | case2 cs c rest start ih =>
      have first : isBlank c = false := by
        have stop := List.head?_dropWhile_not isBlank cs
        rwa [← trimStart, start] at stop
      have blank : ∀ d ∈ cs.takeWhile isBlank, isBlank d = true :=
        List.all_eq_true.mp List.all_takeWhile
      have dark : ∀ d ∈ c :: rest.takeWhile (!isBlank ·), isBlank d = false :=
        List.forall_mem_cons.mpr ⟨first, forall_dark List.all_takeWhile⟩
      have apart : ∀ d ∈ (rest.dropWhile (!isBlank ·)).head?, isBlank d = true := by
        intro d hd
        have stop := List.head?_dropWhile_not (!isBlank ·) rest
        rw [Option.mem_def.mp hd] at stop
        exact (Bool.not_eq_false' _).mp stop
      have whole : cs.takeWhile isBlank ++
          (c :: rest.takeWhile (!isBlank ·) ++ rest.dropWhile (!isBlank ·)) = cs := by
        rw [List.cons_append, List.takeWhile_append_dropWhile, ← start, trimStart,
          List.takeWhile_append_dropWhile]
      have spaced := Spaced.word blank (List.cons_ne_nil _ _) dark apart ih
      rwa [← wordsOf_word blank (List.cons_ne_nil _ _) dark apart, whole] at spaced
  · intro h
    induction h with
    | blank blank => exact wordsOf_blank blank
    | word blank some dark apart _ ih => rw [wordsOf_word blank some dark apart, ih]

/-! ## Arguments -/

/-- A text is a natural number in digits, with a plus sign or without. -/
inductive WritesNat : List Char → Nat → Prop
  | plain {digits : List Char} (some : digits ≠ []) (all : ∀ c ∈ digits, c.isDigit = true) :
      WritesNat digits (natOfDigits digits)
  | signed {digits : List Char} (some : digits ≠ []) (all : ∀ c ∈ digits, c.isDigit = true) :
      WritesNat ('+' :: digits) (natOfDigits digits)

theorem natOfDigits?_eq_some_iff {n : Nat} : natOfDigits? cs = some n ↔
    (cs ≠ [] ∧ ∀ c ∈ cs, c.isDigit = true) ∧ n = natOfDigits cs := by
  unfold natOfDigits?
  split
  · next refused =>
    constructor
    · nofun
    · rintro ⟨⟨some, all⟩, -⟩
      rcases Bool.or_eq_true_iff.mp refused with empty | other
      · exact absurd (List.isEmpty_iff.mp empty) some
      · rw [List.all_eq_true.mpr all] at other
        cases other
  · next digits =>
    simp only [Bool.or_eq_true, List.isEmpty_iff, Bool.not_eq_true', not_or, Bool.not_eq_false,
      List.all_eq_true] at digits
    rw [Option.some_inj, eq_comm]
    exact (and_iff_right digits).symm

theorem natOfText?_eq_some_iff {n : Nat} : natOfText? cs = some n ↔ WritesNat cs n := by
  constructor
  · intro read
    unfold natOfText? at read
    split at read
    · obtain ⟨⟨some, all⟩, rfl⟩ := natOfDigits?_eq_some_iff.mp read
      exact .signed some all
    · obtain ⟨⟨some, all⟩, rfl⟩ := natOfDigits?_eq_some_iff.mp read
      exact .plain some all
  · rintro (⟨some, all⟩ | ⟨some, all⟩)
    · unfold natOfText?
      split
      · have plus := all '+' List.mem_cons_self
        cases plus
      · exact natOfDigits?_eq_some_iff.mpr ⟨⟨some, all⟩, rfl⟩
    · exact natOfDigits?_eq_some_iff.mpr ⟨⟨some, all⟩, rfl⟩

theorem natBelow?_eq_some_iff {limit n : Nat} :
    natBelow? limit cs = some n ↔ WritesNat cs n ∧ n < limit := by
  rw [natBelow?, Option.filter_eq_some_iff, natOfText?_eq_some_iff, decide_eq_true_eq]

/-- The letters that stand for a face. -/
def Face.letters : Face → List Char
  | .front => ['F', 'f']
  | .back => ['B', 'b']

/-- A text is a pin: the letter of its face and its ordinal, which is one or more. -/
inductive WritesPin : List Char → Pin → Prop
  | intro {letter : Char} {face : Face} {digits : List Char} {ordinal : Nat}
      (names : letter ∈ face.letters) (number : WritesNat digits ordinal) (pos : 1 ≤ ordinal)
      (small : ordinal < Pin.ordinalLimit) : WritesPin (letter :: digits) ⟨face, ordinal⟩

theorem Pin.faceOf?_eq_some_iff {c : Char} {face : Face} :
    faceOf? c = some face ↔ c ∈ face.letters := by
  constructor
  · intro read
    unfold faceOf? at read
    split at read
    · cases read
      simp_all [Face.letters]
    · split at read
      · cases read
        simp_all [Face.letters]
      · cases read
  · intro names
    cases face with
    | front | back =>
      rcases names with _ | ⟨_, _ | ⟨_, ⟨⟩⟩⟩
      · rfl
      · rfl

theorem Pin.ofText?_eq_some_iff {word : String} {pin : Pin}
    (dark : ∀ c ∈ word.toList, isBlank c = false) :
    Pin.ofText? word = some pin ↔ WritesPin word.toList pin := by
  unfold Pin.ofText?
  rw [trim_eq_self dark]
  constructor
  · intro read
    split at read
    · cases read
    · next c rest cut =>
      rw [cut]
      obtain ⟨face, named, read⟩ := Option.bind_eq_some_iff.mp read
      obtain ⟨ordinal, number, read⟩ := Option.bind_eq_some_iff.mp read
      obtain ⟨number, small⟩ := natBelow?_eq_some_iff.mp number
      split at read
      · cases read
      · next some =>
        cases read
        exact .intro (faceOf?_eq_some_iff.mp named) number (Nat.pos_of_ne_zero some) small
  · intro written
    cases cut : word.toList with
    | nil =>
      rw [cut] at written
      cases written
    | cons c rest =>
      rw [cut] at written
      obtain ⟨names, number, pos, small⟩ := written
      simp only [faceOf?_eq_some_iff.mpr names, natBelow?_eq_some_iff.mpr ⟨number, small⟩,
        Option.bind_eq_bind, Option.bind_some, if_neg (Nat.ne_of_gt pos)]

/-- The words for a side: its name, its first letter and its number. -/
def Side.names : Side → List String
  | .front => ["front", "f", "0"]
  | .partialFront => ["partial-front", "partial_front", "1"]
  | .partialBack => ["partial-back", "partial_back", "2"]
  | .back => ["back", "b", "3"]

/-- A word in lower case. -/
def lower (word : String) : String := String.ofList (lowerAscii word.toList)

theorem Side.ofText?_eq_some_iff {word : String} {side : Side} :
    Side.ofText? word = some side ↔ lower word ∈ side.names := by
  unfold Side.ofText?
  rw [show String.ofList (word.toList.map Char.toLower) = lower word from rfl]
  generalize lower word = name
  constructor
  · intro read
    simp only at read
    split at read
    · cases read
      assumption
    · split at read
      · cases read
        assumption
      · split at read
        · cases read
          assumption
        · split at read
          · cases read
            assumption
          · cases read
  · intro named
    cases side with
    | front | partialFront | partialBack | back =>
      rcases named with _ | ⟨_, _ | ⟨_, _ | ⟨_, ⟨⟩⟩⟩⟩
      · rfl
      · rfl
      · rfl

namespace Operator

variable {R : Type} [Scalar R]

/-- A word is a finite number. -/
def WritesNumber (word : String) (x : R) : Prop :=
  Scalar.ofText? word = some x ∧ Scalar.isFinite x = true

/-- What the name of a command in lower case and its arguments ask for. -/
inductive Asks : String → List String → Command R → Prop
  | start : Asks "start" [] .start
  | stop : Asks "stop" [] .stop
  | status : Asks "status" [] .status
  | shutdown : Asks "shutdown" [] .shutdown
  | jog {x y z : String} {target : Location R} (hx : WritesNumber x target.x)
      (hy : WritesNumber y target.y) (hz : WritesNumber z target.z) :
      Asks "jog" [x, y, z] (.jog target none)
  | jogAt {x y z v : String} {target : Location R} {velocity : R} (hx : WritesNumber x target.x)
      (hy : WritesNumber y target.y) (hz : WritesNumber z target.z) (hv : WritesNumber v velocity)
      (pos : Scalar.positive velocity = true) :
      Asks "jog" [x, y, z, v] (.jog target (some velocity))
  | head {word : String} {side : Side} (names : lower word ∈ side.names) :
      Asks "head" [word] (.head side)
  | latch {word : String} {side : Side} (names : lower word ∈ side.names) :
      Asks "latch" [word] (.latch side)
  | load {recipe : String} : Asks "load" [recipe] (.load recipe none)
  | loadAt {recipe word : String} {line : Nat} (number : WritesNat word.toList line)
      (small : line < Command.lineLimit) : Asks "load" [recipe, word] (.load recipe (some line))
  | calibrate {word : String} {pin : Pin} (writes : WritesPin word.toList pin) :
      Asks "calibrate" [word] (.calibrate pin)

/-- What words ask for; the case of the first of them does not matter. -/
inductive Means : List String → Command R → Prop
  | intro {name : String} {arguments : List String} {c : Command R}
      (asks : Asks (lower name) arguments c) : Means (name :: arguments) c

namespace Command

variable {word name : String} {arguments : List String} {c : Command R}

/-! ## Readers of arguments -/

theorem number_eq_ok_iff {x : R} : number word = .ok x ↔ WritesNumber word x := by
  constructor
  · intro read
    unfold number at read
    split at read
    · next written =>
      split at read
      · next finite =>
        cases read
        exact ⟨written, finite⟩
      · cases read
    · cases read
  · rintro ⟨written, finite⟩
    rw [number, written]
    exact if_pos finite

theorem velocity_eq_ok_iff [PlainScalar R] {v : R} :
    velocity word = .ok v ↔ WritesNumber word v ∧ Scalar.positive v = true := by
  constructor
  · intro read
    obtain ⟨v, written, read⟩ := bind_eq_ok read
    have written := number_eq_ok_iff.mp written
    split at read
    · cases read
    · next above =>
      cases read
      have zero := OrderedScalar.isNaN_of_isFinite _ (OrderedScalar.isFinite_zero (R := R))
      have number := OrderedScalar.isNaN_of_isFinite v written.2
      exact ⟨written, OrderedScalar.lt_of_not_le _ v zero number (eq_false_of_ne_true above)⟩
  · rintro ⟨written, pos⟩
    have above : Scalar.le v Scalar.zero = false := PlainScalar.not_le_of_lt _ v pos
    rw [velocity, number_eq_ok_iff.mpr written]
    exact if_neg (by rw [above]; nofun)

theorem side_eq_ok_iff {s : Side} : side word = .ok s ↔ lower word ∈ s.names := by
  rw [← Side.ofText?_eq_some_iff, side]
  cases Side.ofText? word with
  | none => exact iff_of_false nofun nofun
  | some t => rw [Except.ok.injEq, Option.some_inj]

theorem pin_eq_ok_iff {p : Pin} (dark : ∀ c ∈ word.toList, isBlank c = false) :
    pin word = .ok p ↔ WritesPin word.toList p := by
  rw [← Pin.ofText?_eq_some_iff dark, pin]
  cases Pin.ofText? word with
  | none => exact iff_of_false nofun nofun
  | some q => rw [Except.ok.injEq, Option.some_inj]

theorem line_eq_ok_iff {n : Nat} :
    line word = .ok n ↔ WritesNat word.toList n ∧ n < lineLimit := by
  rw [← natBelow?_eq_some_iff, line]
  cases natBelow? lineLimit word.toList with
  | none => exact iff_of_false nofun nofun
  | some k => rw [Except.ok.injEq, Option.some_inj]

/-! ## Commands -/

theorem asks_of_jogOf [PlainScalar R] (read : jogOf arguments = .ok c) :
    Asks "jog" arguments c := by
  unfold jogOf at read
  split at read
  · obtain ⟨x, hx, read⟩ := bind_eq_ok read
    obtain ⟨y, hy, read⟩ := bind_eq_ok read
    obtain ⟨z, hz, ⟨⟩⟩ := bind_eq_ok read
    exact .jog (number_eq_ok_iff.mp hx) (number_eq_ok_iff.mp hy) (number_eq_ok_iff.mp hz)
  · obtain ⟨x, hx, read⟩ := bind_eq_ok read
    obtain ⟨y, hy, read⟩ := bind_eq_ok read
    obtain ⟨z, hz, read⟩ := bind_eq_ok read
    obtain ⟨v, hv, ⟨⟩⟩ := bind_eq_ok read
    obtain ⟨hv, pos⟩ := velocity_eq_ok_iff.mp hv
    exact .jogAt (number_eq_ok_iff.mp hx) (number_eq_ok_iff.mp hy) (number_eq_ok_iff.mp hz) hv pos
  · cases read

omit [Scalar R] in
theorem eq_of_alone {command : Command R} (read : alone name command arguments = .ok c) :
    arguments = [] ∧ c = command := by
  unfold alone at read
  split at read
  · cases read
    exact ⟨rfl, rfl⟩
  · cases read

/-- The names of commands take the arguments that the grammar says, and no others. -/
theorem ofName_eq_ok_iff [PlainScalar R]
    (dark : ∀ word ∈ arguments, ∀ c ∈ word.toList, isBlank c = false) :
    ofName name arguments = .ok c ↔ Asks name arguments c := by
  constructor
  · intro read
    unfold ofName at read
    split at read
    · obtain ⟨rfl, rfl⟩ := eq_of_alone read
      exact .start
    · obtain ⟨rfl, rfl⟩ := eq_of_alone read
      exact .stop
    · obtain ⟨rfl, rfl⟩ := eq_of_alone read
      exact .status
    · obtain ⟨rfl, rfl⟩ := eq_of_alone read
      exact .shutdown
    · exact asks_of_jogOf read
    · unfold loadOf at read
      split at read
      · cases read
        exact .load
      · obtain ⟨n, number, ⟨⟩⟩ := bind_eq_ok read
        obtain ⟨number, small⟩ := line_eq_ok_iff.mp number
        exact .loadAt number small
      · cases read
    · split at read
      · obtain ⟨s, named, ⟨⟩⟩ := bind_eq_ok read
        exact .head (side_eq_ok_iff.mp named)
      · cases read
    · split at read
      · obtain ⟨s, named, ⟨⟩⟩ := bind_eq_ok read
        exact .latch (side_eq_ok_iff.mp named)
      · cases read
    · split at read
      · obtain ⟨p, written, ⟨⟩⟩ := bind_eq_ok read
        exact .calibrate ((pin_eq_ok_iff (dark _ List.mem_cons_self)).mp written)
      · cases read
    · cases read
  · intro asks
    cases asks with
    | start | stop | status | shutdown | load => rfl
    | jog hx hy hz =>
      simp only [ofName, jogOf, number_eq_ok_iff.mpr hx, number_eq_ok_iff.mpr hy,
        number_eq_ok_iff.mpr hz]
      rfl
    | jogAt hx hy hz hv pos =>
      simp only [ofName, jogOf, number_eq_ok_iff.mpr hx, number_eq_ok_iff.mpr hy,
        number_eq_ok_iff.mpr hz, velocity_eq_ok_iff.mpr ⟨hv, pos⟩]
      rfl
    | head names | latch names =>
      simp only [ofName, side_eq_ok_iff.mpr names]
      rfl
    | loadAt number small =>
      simp only [ofName, loadOf, line_eq_ok_iff.mpr ⟨number, small⟩]
      rfl
    | calibrate writes =>
      simp only [ofName, (pin_eq_ok_iff (dark _ List.mem_cons_self)).mpr writes]
      rfl

/-- A line is accepted exactly if its words say something, and as what they say. -/
theorem ofText_eq_ok_iff [PlainScalar R] {s : String} (spaced : Spaced s.toList words) :
    ofText s = .ok c ↔ Means (words.map String.ofList) c := by
  rw [ofText, wordsOf_eq_iff.mpr spaced]
  cases words with
  | nil =>
    refine iff_of_false ?_ nofun
    show Except.error CommandError.empty ≠ _
    nofun
  | cons name arguments =>
    have dark : ∀ word ∈ arguments.map String.ofList, ∀ c ∈ word.toList, isBlank c = false := by
      intro word hword c hc
      obtain ⟨word, inside, rfl⟩ := List.mem_map.mp hword
      rw [String.toList_ofList] at hc
      exact spaced.dark word (List.mem_cons_of_mem name inside) c hc
    have named : lower (String.ofList name) = String.ofList (lowerAscii name) := by
      rw [lower, String.toList_ofList]
    rw [List.map_cons]
    constructor
    · intro read
      exact .intro (named ▸ (ofName_eq_ok_iff dark).mp read)
    · rintro ⟨asks⟩
      exact (ofName_eq_ok_iff dark).mpr (named ▸ asks)

end Command

end Operator

end Winding
