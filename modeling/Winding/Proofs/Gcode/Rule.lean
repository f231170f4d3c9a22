import Winding.Proofs.Gcode.Calls
import Winding.Proofs.Gcode.Feeds
import Winding.Proofs.Gcode.Gathering

/-!
# The rule by which words become a line

What the words of a line say is said once, without the order in which they are taken
(`Line.Follows`): the parameters of every code, the feed, the number, and the commands in their
places, each with the target and the feed of the whole line or with its own parameters. A text is
read as a line exactly if its words are admissible, and then as the line that follows from them
(`readLine_follows`). Only a delay can differ from its parameter, by one (`delay_cut`).
-/

namespace Winding.Gcode

/-! ## The rule -/

section Rule

variable {R : Type}

/-- The target that the axis words of a line make, wherever they stand. -/
structure Target.Of (ws : List (Word R)) (t : Target R) : Prop where
  x : t.x.toList = axisOf ws 'X'
  y : t.y.toList = axisOf ws 'Y'
  z : t.z.toList = axisOf ws 'Z'

variable [Scalar R]

/-- The command that stands at a place, on a line with this target and feed. -/
inductive Place.Asks (target : Target R) (feed : Option R) (p : Place R) : Command R → Prop
  | axes (axis : p.word.isAxis = true) : Asks target feed p (.move target feed)
  | call {code : Code} {c : Command R} (known : p.word.code? = some code)
      (calls : Calls target feed p.params code c) : Asks target feed p c

/-- The number of a line: the one that is written, or the one after the last. -/
def NumberOf (last : Option Nat) (ws : List (Word R)) (n : Nat) : Prop :=
  match ws.find? (·.letter == 'N') with
  | some w => w.written? = some (n : Int)
  | none => n = last.elim 1 (· + 1)

/-- What the words of a line say. -/
structure Line.Follows (last : Option Nat) (source : Nat) (ws : List (Word R)) (l : Line R) :
    Prop where
  number : NumberOf last ws l.number
  parameters : ((places ws).filter Place.isParameter).map Place.word =
    (places ws).flatMap Place.params
  feed : l.feed.toList = feedsOf ws
  commands : ∃ target, Target.Of ws target ∧
    List.Forall₂ (Place.Asks target l.feed) (heads ws) l.commands
  source : l.source = source

/-- Words of which a line can be made. -/
structure Admissible (last : Option Nat) (ws : List (Word R)) : Prop where
  nonempty : ws ≠ []
  words : ∀ p ∈ places ws, p.Fits
  calls : ∀ p ∈ places ws, ∀ code, p.word.code? = some code → code.Admits p.params
  number : ∃ n, NumberOf last ws n ∧ n < numberLimit ∧ ∀ m ∈ last, m < n

end Rule

/-! ## Lines -/

section Lines

variable {R : Type} [Scalar R] {d : Draft R} {ws : List (Word R)} {last : Option Nat}

/-- The number that is given to a line is the one that is written, or the one after the last. -/
theorem Draft.Reads.lineNumber_eq_ok_iff (reads : d.Reads ws) {n : Nat} :
    lineNumber (R := R) last d.number = .ok n ↔
      NumberOf last ws n ∧ n < numberLimit ∧ ∀ m ∈ last, m < n := by
  have number := reads.number
  rw [NumberOf]
  rcases given : d.number with _ | ⟨k, column⟩
  · rw [reads.number_none given]
    rcases last with _ | previous
    · simp only [lineNumber, Option.elim_none]
      constructor
      · rintro ⟨⟩
        exact ⟨rfl, by decide, nofun⟩
      · rintro ⟨rfl, -⟩
        rfl
    · simp only [lineNumber, Option.elim_some]
      split
      · next small =>
        constructor
        · rintro ⟨⟩
          exact ⟨rfl, small, by simp⟩
        · rintro ⟨rfl, -⟩
          rfl
      · next large =>
        constructor
        · nofun
        · rintro ⟨rfl, small, -⟩
          exact absurd small large
  · rw [given] at number
    obtain ⟨w, found, same⟩ := Option.map_eq_some_iff.mp number.symm
    obtain ⟨written, small⟩ := (Word.natBelow?_eq_some_iff (by decide)).mp (Prod.mk.inj same).1
    rw [found]
    simp only [written, Option.some.injEq, Int.natCast_inj]
    rcases last with _ | previous
    · simp only [lineNumber, Except.ok.injEq]
      constructor
      · rintro rfl
        exact ⟨rfl, small, nofun⟩
      · exact fun h => h.1
    · simp only [lineNumber]
      split
      · next below =>
        constructor
        · nofun
        · rintro ⟨rfl, -, above⟩
          exact absurd (above previous rfl) (by omega)
      · next above =>
        constructor
        · rintro ⟨⟩
          exact ⟨rfl, small, by simpa using above⟩
        · rintro ⟨rfl, -⟩
          rfl

theorem Draft.Reads.target_of (reads : d.Reads ws) : Target.Of ws d.target :=
  ⟨reads.axes 'X' (.head _), reads.axes 'Y' (.tail _ (.head _)),
    reads.axes 'Z' (.tail _ (.tail _ (.head _)))⟩

omit [Scalar R] in
theorem eq_of_toList_eq {a b : Option R} (h : a.toList = b.toList) : a = b := by
  simpa using congrArg List.head? h

omit [Scalar R] in
theorem Target.Of.unique {t u : Target R} (ht : t.Of ws) (hu : u.Of ws) : t = u := by
  obtain ⟨x, y, z⟩ := t
  obtain ⟨x', y', z'⟩ := u
  cases eq_of_toList_eq (ht.x.trans hu.x.symm)
  cases eq_of_toList_eq (ht.y.trans hu.y.symm)
  cases eq_of_toList_eq (ht.z.trans hu.z.symm)
  rfl

theorem NumberOf.unique {m n : Nat} (hm : NumberOf last ws m) (hn : NumberOf last ws n) :
    m = n := by
  rw [NumberOf] at hm hn
  rcases found : ws.find? (·.letter == 'N') with _ | w
  · simp only [found] at hm hn
    exact hm.trans hn.symm
  · simp only [found] at hm hn
    exact Int.ofNat.inj (Option.some.inj (hm.symm.trans hn))

/-- The places of a line's commands are those of its function words and of one axis word. -/
theorem mem_heads {p : Place R} (h : p ∈ heads ws) :
    p ∈ places ws ∧ (p.word.isFunction = true ∨ p.word.isAxis = true) := by
  obtain ⟨mem, head⟩ := List.mem_filter.mp h
  refine ⟨mem, ?_⟩
  rcases Bool.or_eq_true_iff.mp head with function | axis
  · exact .inl function
  · exact .inr (Bool.and_eq_true_iff.mp (Bool.and_eq_true_iff.mp axis).1).1

/-- The slot of a place becomes the command that is asked for there. -/
theorem Place.slot_command_eq_ok_iff {p : Place R} {target : Target R} {feed : Option R}
    {c : Command R} (head : p ∈ heads ws) (fits : p.Fits) :
    p.slot.command target feed = .ok c ↔
      (∀ code, p.word.code? = some code → code.Admits p.params) ∧
        p.Asks target feed c := by
  rw [slot]
  rcases known : p.word.code? with _ | code
  · have axis : p.word.isAxis = true := by
      refine (mem_heads head).2.resolve_left fun function => ?_
      obtain ⟨code, named⟩ := fits.code function
      cases known.symm.trans named
    constructor
    · rintro ⟨⟩
      refine ⟨?_, .axes axis⟩
      rintro _ ⟨⟩
    · rintro ⟨-, ⟨⟩ | ⟨named, -⟩⟩
      · rfl
      · cases known.symm.trans named
  · refine commandOf_eq_ok_iff.trans ⟨?_, ?_⟩
    · rintro ⟨admits, calls⟩
      refine ⟨?_, .call known calls⟩
      rintro _ ⟨⟩
      exact admits
    · rintro ⟨admits, ⟨axis⟩ | ⟨named, calls⟩⟩
      · rw [(Word.disjoint_of_isFunction (Word.isFunction_of_code? known)).1] at axis
        cases axis
      · cases known.symm.trans named
        exact ⟨admits code rfl, calls⟩

/-- The slots of a line become commands exactly if every code is called with parameters that it
admits, and then these are the commands that are asked for. -/
theorem mapM_command_eq_ok_iff {target : Target R} {feed : Option R} {cs : List (Command R)}
    (words : ∀ p ∈ places ws, p.Fits) :
    ((heads ws).map Place.slot).mapM (Slot.command target feed) = .ok cs ↔
      (∀ p ∈ places ws, ∀ code, p.word.code? = some code → code.Admits p.params) ∧
        List.Forall₂ (Place.Asks target feed) (heads ws) cs := by
  have iff (p : Place R) (c : Command R) (head : p ∈ heads ws) :
      p.slot.command target feed = .ok c ↔ _ :=
    Place.slot_command_eq_ok_iff head (words p (mem_heads head).1)
  rw [mapM_eq_ok_iff, List.forall₂_map_left_iff]
  constructor
  · intro made
    have made := (List.forall₂_and_left _ _).mpr ⟨fun p (head : p ∈ heads ws) => head, made⟩
    obtain ⟨admits, asked⟩ :=
      (List.forall₂_and_left _ _).mp (made.imp fun p c h => (iff p c h.1).mp h.2)
    refine ⟨fun p mem code known => admits p (List.mem_filter.mpr ⟨mem, ?_⟩) code known, asked⟩
    simp [Place.isHead, Word.isFunction_of_code? known]
  · rintro ⟨admits, asked⟩
    have asked := (List.forall₂_and_left _ _).mpr ⟨fun p (head : p ∈ heads ws) => head, asked⟩
    exact asked.imp fun p c h => (iff p c h.1).mpr ⟨admits p (mem_heads h.1).1, h.2⟩

variable [PlainScalar R] {source : Nat} {l : Line R}

/-- Words make a line exactly if they are admissible, and then they make the one that follows from
them. -/
theorem lineOfWords_eq_ok_iff (plain : ∀ w ∈ ws, Scalar.isNaN w.value = false)
    (nonempty : ws ≠ []) :
    lineOfWords last source ws = .ok l ↔ Admissible last ws ∧ l.Follows last source ws := by
  have start : (Draft.start : Draft R).Reads [] := Draft.reads_start
  constructor
  · intro h
    obtain ⟨d, n, cs, gathered, numbered, made, rfl⟩ := lineOfWords_eq_ok h
    have reads : d.Reads ws := start.foldlM gathered
    have words : ∀ p ∈ places ws, p.Fits := (start.exists_foldlM_iff plain).mp ⟨d, gathered⟩
    rw [slots_of_gather gathered] at made
    obtain ⟨calls, asked⟩ := (mapM_command_eq_ok_iff words).mp made
    obtain ⟨number, bounds⟩ := reads.lineNumber_eq_ok_iff.mp numbered
    exact ⟨⟨nonempty, words, calls, n, number, bounds⟩,
      ⟨number, parameters_eq ws, reads.feed, ⟨d.target, reads.target_of, asked⟩, rfl⟩⟩
  · rintro ⟨admissible, follows⟩
    obtain ⟨d, gathered⟩ := (start.exists_foldlM_iff plain).mpr admissible.words
    have gathered : gather ws = .ok d := gathered
    have reads : d.Reads ws := start.foldlM gathered
    -- The words settle the target, the feed and the number, so the draft's are those of the line.
    obtain ⟨target, of, asked⟩ := follows.commands
    obtain rfl := of.unique reads.target_of
    have feed : d.feed = l.feed := eq_of_toList_eq (reads.feed.trans follows.feed.symm)
    obtain ⟨n, number, bounds⟩ := admissible.number
    obtain rfl : n = l.number := number.unique follows.number
    have made := (mapM_command_eq_ok_iff admissible.words).mpr ⟨admissible.calls, asked⟩
    rw [← feed, ← slots_of_gather gathered] at made
    rw [lineOfWords_of_gather gathered (reads.lineNumber_eq_ok_iff.mpr ⟨number, bounds⟩) made, feed,
      ← follows.source]

/-- Admissible words have a line that follows from them. -/
theorem Admissible.exists_follows (plain : ∀ w ∈ ws, Scalar.isNaN w.value = false)
    (admissible : Admissible last ws) (source : Nat) : ∃ l : Line R, l.Follows last source ws := by
  have start : (Draft.start : Draft R).Reads [] := Draft.reads_start
  obtain ⟨d, gathered⟩ := (start.exists_foldlM_iff plain).mpr admissible.words
  have reads : d.Reads ws := start.foldlM gathered
  obtain ⟨n, number, -⟩ := admissible.number
  have asked : ∀ p ∈ heads ws, ∃ c, Place.Asks d.target d.feed p c := by
    intro p head
    obtain ⟨mem, kind⟩ := mem_heads head
    rcases kind with function | axis
    · obtain ⟨code, known⟩ := (admissible.words p mem).code function
      obtain ⟨c, calls⟩ := (admissible.calls p mem code known).exists_calls d.target d.feed
      exact ⟨c, .call known calls⟩
    · exact ⟨_, .axes axis⟩
  obtain ⟨cs, commands⟩ := exists_forall₂ asked
  exact ⟨⟨n, d.feed, cs, source⟩, number, parameters_eq ws, reads.feed,
    ⟨d.target, reads.target_of, commands⟩, rfl⟩

/-- A text is read as a line exactly if its words are admissible, and then as the line that follows
from them. -/
theorem readLine_follows {text : List Char} (scanned : scanWords 1 text = .ok ws) :
    (∀ l : Line R, readLine last source text = .ok (some l) ↔
      Admissible last ws ∧ l.Follows last source ws) ∧
    (Admissible last ws → ∃ l : Line R, readLine last source text = .ok (some l)) := by
  have plain : ∀ w ∈ ws, Scalar.isNaN w.value = false := fun w hw =>
    Token.isNaN_of_isPlain (scanWords_isPlain_token scanned w hw)
  have line (l : Line R) : readLine last source text = .ok (some l) ↔
      Admissible last ws ∧ l.Follows last source ws := by
    constructor
    · intro read
      obtain ⟨ws', scanned', made⟩ := readLine_eq_ok read
      cases scanned.symm.trans scanned'
      have nonempty : ws ≠ [] := by
        rintro rfl
        rw [readLine, readWords, scanned] at read
        cases read
      exact (lineOfWords_eq_ok_iff plain nonempty).mp made
    · intro h
      exact readLine_of_words scanned h.1.nonempty
        ((lineOfWords_eq_ok_iff plain h.1.nonempty).mpr h)
  refine ⟨line, fun admissible => ?_⟩
  obtain ⟨l, follows⟩ := admissible.exists_follows plain source
  exact ⟨l, (line l).mpr ⟨admissible, follows⟩⟩

/-! ### Two lines with a delay -/

/-- The text of a delay. -/
def delayText (n : Nat) : String := "G4 P" ++ toString n

omit [PlainScalar R] in
theorem commandOf_delay {target : Target R} {feed : Option R} {column n : Nat} {w : Word R}
    (letter : w.letter = 'P') (written : w.written? = some (n : Int)) (small : n ≤ 2 ^ 63) :
    commandOf target feed .delay column [w] = .ok (.delay (min n (2 ^ 63 - 1))) := by
  have hw : w ∈ [w] := List.mem_singleton_self w
  refine commandOf_eq_ok_iff.mpr ⟨.of_single (fun _ => of_decide_eq_true) rfl ?_
    (List.nodup_singleton _) hw ⟨n, written, small⟩, .delay hw letter written small⟩
  exact List.forall_mem_singleton.mpr (by rw [letter]; rfl)

theorem Word.code?_delay {g : Word R} (same : g.token = .nat 'G' 4) : g.code? = some .delay := by
  have written : g.written? = some 4 :=
    written?_of_token same (PlainScalar.whole?_ofNat 4 (by decide))
  rw [code?, written, show g.letter = 'G' from congrArg Token.letter same]
  rfl

theorem readLine_delayText {n : Nat} (whole : Scalar.whole? (Scalar.ofNat n : R) = some (n : Int))
    (small : n ≤ 2 ^ 63) :
    ∃ g w : Word R, scanWords 1 (delayText n).toList = .ok [g, w] ∧
      w.letter = 'P' ∧ w.written? = some (n : Int) ∧
      readLine none 1 (delayText n).toList =
        .ok (some (⟨1, none, [.delay (min n (2 ^ 63 - 1))], 1⟩ : Line R)) := by
  have digits : (toString n).toList = digitsOf n := Nat.toList_repr
  have spaced :
      Token.spaced [.nat 'G' 4, (.nat 'P' n : Token R)] = ' ' :: (delayText n).toList := by
    rw [delayText, String.toList_append, digits]
    show _ :: _ :: (digitsOf 4 ++ _ :: _ :: (digitsOf n ++ [])) = _
    rw [List.append_nil]
    rfl
  obtain ⟨ws, scanned, words⟩ := @scanWords_spaced R _ 0 [.nat 'G' 4, .nat 'P' n]
    (List.forall_mem_cons.mpr ⟨⟨(by decide : 'G' ∈ letters), Token.isPlain_nat ..⟩,
      List.forall_mem_singleton.mpr ⟨(by decide : 'P' ∈ letters), Token.isPlain_nat ..⟩⟩)
  obtain ⟨g, rest, rfl, code, words⟩ := List.map_eq_cons_iff.mp words
  obtain ⟨w, rfl, parameter⟩ := List.map_eq_singleton_iff.mp words
  rw [spaced, scanWords_blank rfl] at scanned
  have letter : w.letter = 'P' := congrArg Token.letter parameter
  have written := Word.written?_of_token parameter whole
  have known := Word.code?_delay code
  have gathered : gather [g, w] =
      .ok { (Draft.start : Draft R) with slots := [.call .delay g.column [w]] } := by
    rw [gather, List.foldlM_cons, Draft.take_eq_ok_iff.mpr (.call known nofun)]
    show [w].foldlM Draft.take _ = _
    rw [List.foldlM_cons, Draft.take_eq_ok_iff.mpr (.parameter rfl (by rw [letter]; rfl))]
    rfl
  refine ⟨g, w, scanned, letter, written, ?_⟩
  refine readLine_of_words scanned (List.cons_ne_nil _ _) (lineOfWords_of_gather gathered rfl ?_)
  show [Slot.call .delay g.column [w]].mapM (Slot.command ⟨none, none, none⟩ none) = _
  rw [List.mapM_cons, Slot.command, commandOf_delay letter written small]
  rfl

/-- The tokens of a line whose axis words stand on both sides of a delay. -/
def aroundTokens : List (Token Float) := [.nat 'X' 1, .nat 'G' 4, .nat 'P' 250, .nat 'Y' 2]

theorem readLine_axes_around_delay :
    ∃ ws : List (Word Float), scanWords 1 "X1 G4 P250 Y2".toList = .ok ws ∧
      readLine none 1 "X1 G4 P250 Y2".toList = .ok (some (⟨1, none,
        [.move ⟨some (Scalar.ofNat 1), some (Scalar.ofNat 2), none⟩ none, .delay 250], 1⟩ :
          Line Float)) := by
  have spaced : Token.spaced aroundTokens = ' ' :: "X1 G4 P250 Y2".toList := by decide
  obtain ⟨ws, scanned, words⟩ := @scanWords_spaced Float _ 0 aroundTokens (by
    refine fun t ht => ⟨?_, ?_⟩
    · revert t
      decide
    · simp only [aroundTokens, List.mem_cons, List.not_mem_nil, or_false] at ht
      rcases ht with rfl | rfl | rfl | rfl
      all_goals exact Token.isPlain_nat ..)
  rw [spaced, scanWords_blank rfl] at scanned
  obtain ⟨x, rest, rfl, first, words⟩ := List.map_eq_cons_iff.mp words
  obtain ⟨g, rest, rfl, code, words⟩ := List.map_eq_cons_iff.mp words
  obtain ⟨w, rest, rfl, parameter, words⟩ := List.map_eq_cons_iff.mp words
  obtain ⟨y, rfl, last⟩ := List.map_eq_singleton_iff.mp words
  have xLetter : x.letter = 'X' := congrArg Token.letter first
  have yLetter : y.letter = 'Y' := congrArg Token.letter last
  have xValue : x.value = Scalar.ofNat 1 := congrArg Token.value first
  have yValue : y.value = Scalar.ofNat 2 := congrArg Token.value last
  have letter : w.letter = 'P' := congrArg Token.letter parameter
  have written := Word.written?_of_token parameter (PlainScalar.whole?_ofNat 250 (by decide))
  have gathered : gather [x, g, w, y] =
      .ok ⟨none, none, ⟨some (Scalar.ofNat 1), some (Scalar.ofNat 2), none⟩,
        [.call .delay g.column [w], .axes], true⟩ := by
    rw [gather, List.foldlM_cons, Draft.take_eq_ok_iff.mpr
      (.axis (Word.isAxis_iff.mpr (.inl xLetter)) (by rw [xLetter]; rfl))]
    show [g, w, y].foldlM Draft.take _ = _
    rw [List.foldlM_cons, Draft.take_eq_ok_iff.mpr (.call (Word.code?_delay code) nofun)]
    show [w, y].foldlM Draft.take _ = _
    rw [List.foldlM_cons, Draft.take_eq_ok_iff.mpr (.parameter rfl (by rw [letter]; rfl))]
    show [y].foldlM Draft.take _ = _
    rw [List.foldlM_cons, Draft.take_eq_ok_iff.mpr
      (.axis (Word.isAxis_iff.mpr (.inr (.inl yLetter))) (by rw [yLetter, xLetter]; rfl)),
      yLetter, xLetter, xValue, yValue]
    rfl
  refine ⟨_, scanned, readLine_of_words scanned (List.cons_ne_nil _ _)
    (lineOfWords_of_gather gathered rfl ?_)⟩
  show [Slot.axes, .call .delay g.column [w]].mapM (Slot.command _ none) = _
  rw [List.mapM_cons, List.mapM_cons, Slot.command, Slot.command,
    commandOf_delay letter written (by decide)]
  rfl

/-- A line whose axis words stand on both sides of a delay: they make one move, in the place of the
first. -/
theorem axes_around_delay_follow :
    ∃ (ws : List (Word Float)) (l : Line Float), scanWords 1 "X1 G4 P250 Y2".toList = .ok ws ∧
      readLine none 1 "X1 G4 P250 Y2".toList = .ok (some l) ∧
      l.commands = [.move ⟨some (Scalar.ofNat 1), some (Scalar.ofNat 2), none⟩ none, .delay 250] ∧
      Admissible none ws ∧ l.Follows none 1 ws := by
  obtain ⟨ws, scanned, read⟩ := readLine_axes_around_delay
  obtain ⟨admissible, follows⟩ := ((readLine_follows scanned).1 _).mp read
  exact ⟨ws, _, scanned, read, rfl, admissible, follows⟩

/-- The number `2 ^ 63` is accepted as a delay, and the delay is not that number. -/
theorem delay_cut :
    "G4 P9223372036854775808" = delayText (2 ^ 63) ∧
      ∃ g w : Word Float, scanWords 1 (delayText (2 ^ 63)).toList = .ok [g, w] ∧
        w.letter = 'P' ∧ w.written? = some (2 ^ 63) ∧
        readLine none 1 (delayText (2 ^ 63)).toList =
          .ok (some (⟨1, none, [.delay (2 ^ 63 - 1)], 1⟩ : Line Float)) := by
  have whole : Scalar.whole? (Scalar.ofNat (2 ^ 63) : Float) = some ((2 ^ 63 : Nat) : Int) := by
    decide +kernel
  exact ⟨by decide, readLine_delayText whole (Nat.le_refl _)⟩

end Lines

end Winding.Gcode
