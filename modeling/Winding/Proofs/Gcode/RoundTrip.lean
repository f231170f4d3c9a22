import Winding.Proofs.Gcode.Printed
import Winding.Proofs.Text.Lines

/-!
# Programs are read back from their text

A line with finite numbers is read back from its text, and one with another number is not
(`Line.readLine_text`, `Line.isFinite_of_readLine`). So a program that is printed is read back
(`readProgram_programText`), and so is what was read from any text as far as no literal of that text
was too large for a finite number (`readProgram_reread`). A literal that is too large is accepted
(`overflowing_literal_read`).
-/

namespace Winding.Gcode

/-- Two lines that are equal in number, feed and commands. -/
structure Line.Agrees {R : Type} [Scalar R] (l m : Line R) : Prop where
  number : m.number = l.number
  feed : (l.feed == m.feed) = true
  commands : (l.commands == m.commands) = true

/-- A line all of whose numbers are finite. -/
def Line.IsFinite {R : Type} [Scalar R] (l : Line R) : Prop :=
  ∀ a ∈ l.numbers, Scalar.isFinite a = true

variable {R : Type} [Scalar R]

/-! ## Tokens and numbers -/

/-- A token of a whole number or of one of these numbers. -/
inductive Token.Writes (numbers : List R) : Token R → Prop
  | nat {letter : Char} (h : letter ∈ letters) (n : Nat) : Writes numbers (.nat letter n)
  | number {letter : Char} {a : R} (h : letter ∈ letters) (ha : a ∈ numbers) :
    Writes numbers (.number letter a)

namespace Token

variable {numbers : List R} {letter : Char}

theorem writes_given (h : letter ∈ letters) {value : Option R} (sub : ∀ a ∈ value, a ∈ numbers) :
    ∀ t ∈ given letter value, t.Writes numbers := by
  rcases value with _ | a
  · exact nofun
  · exact List.forall_mem_singleton.mpr (.number h (sub a rfl))

theorem writes_givenNat (h : letter ∈ letters) {value : Option Nat} :
    ∀ t ∈ givenNat letter value, t.Writes numbers := by
  rcases value with _ | n
  · exact nofun
  · exact List.forall_mem_singleton.mpr (.nat h n)

end Token

theorem mem_of_writtenOffset {a b : R} (h : b ∈ writtenOffset a) : b = a := by
  unfold writtenOffset at h
  split at h
  · cases h
  · exact (Option.some.inj h).symm

theorem Command.writes_tokens (c : Command R) : ∀ t ∈ c.tokens, t.Writes c.numbers := by
  have code (code : Code) : code.word.1 ∈ letters := by cases code <;> decide
  refine List.forall_mem_cons.mpr ⟨.nat (code _) _, List.forall_mem_append.mpr ⟨?_, ?_⟩⟩
  · cases c with
    | move t f =>
      refine List.forall_mem_append.mpr ⟨?_, List.forall_mem_append.mpr ⟨?_, ?_⟩⟩
      · exact Token.writes_given (by decide) fun a ha =>
          List.mem_append_left _ (Option.mem_toList.mpr ha)
      · exact Token.writes_given (by decide) fun a ha =>
          List.mem_append_right _ (List.mem_append_left _ (Option.mem_toList.mpr ha))
      · exact Token.writes_given (by decide) fun a ha =>
          List.mem_append_right _ (List.mem_append_right _ (Option.mem_toList.mpr ha))
    | _ => exact nofun
  · cases c with
    | move | clip | pause => exact nofun
    | seek | latch | head | delay => exact List.forall_mem_singleton.mpr (.nat (by decide) _)
    | pin front back dx dy =>
      refine List.forall_mem_append.mpr ⟨Token.writes_givenNat (by decide),
        List.forall_mem_append.mpr ⟨Token.writes_givenNat (by decide),
          List.forall_mem_append.mpr ⟨?_, ?_⟩⟩⟩
      · exact Token.writes_given (by decide) fun a ha => mem_of_writtenOffset ha ▸ .head _
      · exact Token.writes_given (by decide) fun a ha => mem_of_writtenOffset ha ▸ .tail _ (.head _)

/-- The tokens of a line write its numbers. -/
theorem Line.writes_tokens (l : Line R) : ∀ t ∈ l.tokens, t.Writes l.numbers := by
  refine List.forall_mem_cons.mpr ⟨.nat (by decide) _, List.forall_mem_append.mpr ⟨?_, ?_⟩⟩
  · exact Token.writes_given (by decide) fun a ha =>
      List.mem_append_left _ (Option.mem_toList.mpr ha)
  · intro t ht
    obtain ⟨c, hc, ht⟩ := List.mem_flatMap.mp ht
    cases c.writes_tokens t ht with
    | nat h n => exact .nat h n
    | number h ha => exact .number h (List.mem_append_right _ (List.mem_flatMap.mpr ⟨c, hc, ha⟩))

/-- Every number of a command but an offset that equals zero is written. -/
theorem Command.mem_tokens (c : Command R) {a : R} (h : a ∈ c.numbers) :
    (a == Scalar.zero) = true ∨ ∃ letter, Token.number letter a ∈ c.tokens := by
  have given {letter : Char} {value : Option R} (ha : a ∈ value) :
      Token.number letter a ∈ Token.given letter value :=
    Option.mem_toList.mpr (Option.mem_map_of_mem _ ha)
  have offset (letter : Char) :
      (a == Scalar.zero) = true ∨ Token.number letter a ∈ Token.given letter (writtenOffset a) := by
    by_cases zero : (a == Scalar.zero) = true
    · exact .inl zero
    · exact .inr (given (if_neg zero))
  cases c with
  | move t f =>
    simp only [numbers, Target.values, List.mem_append, Option.mem_toList] at h
    right
    rcases h with h | h | h
    · exact ⟨'X', .tail _ (List.mem_append_left _ (List.mem_append_left _ (given h)))⟩
    · exact ⟨'Y', .tail _ (List.mem_append_left _ (List.mem_append_right _
        (List.mem_append_left _ (given h))))⟩
    · exact ⟨'Z', .tail _ (List.mem_append_left _ (List.mem_append_right _
        (List.mem_append_right _ (given h))))⟩
  | pin front back dx dy =>
    simp only [numbers, List.mem_cons, List.not_mem_nil, or_false] at h
    rcases h with rfl | rfl
    · refine (offset 'I').imp id fun written => ⟨'I', .tail _ ?_⟩
      exact List.mem_append_right _ (List.mem_append_right _ (List.mem_append_right _
        (List.mem_append_left _ written)))
    · refine (offset 'J').imp id fun written => ⟨'J', .tail _ ?_⟩
      exact List.mem_append_right _ (List.mem_append_right _ (List.mem_append_right _
        (List.mem_append_right _ written)))
  | _ => cases h

theorem Line.mem_tokens (l : Line R) {a : R} (h : a ∈ l.numbers) :
    (a == Scalar.zero) = true ∨ ∃ letter, Token.number letter a ∈ l.tokens := by
  rcases List.mem_append.mp h with feed | command
  · refine .inr ⟨'F', .tail _ (List.mem_append_left _ ?_)⟩
    exact Option.mem_toList.mpr (Option.mem_map_of_mem _ (Option.mem_toList.mp feed))
  · obtain ⟨c, hc, ha⟩ := List.mem_flatMap.mp command
    refine (c.mem_tokens ha).imp id fun ⟨letter, written⟩ => ⟨letter, .tail _ ?_⟩
    exact List.mem_append_right _ (List.mem_flatMap.mpr ⟨c, hc, written⟩)

variable [PlainScalar R]

omit [PlainScalar R] in
theorem Token.Writes.letter_mem {numbers : List R} {t : Token R} (h : t.Writes numbers) :
    t.letter ∈ letters := by
  cases h <;> assumption

/-- A token of a number that is not finite cannot be read. -/
theorem Token.Writes.isPlain_or {numbers : List R} {t : Token R} (h : t.Writes numbers) :
    t.IsPlain ∨ t.IsRefused := by
  cases h with
  | nat _ n => exact .inl (isPlain_nat _ n)
  | @number letter a =>
    rcases finite : Scalar.isFinite a with _ | _
    · exact .inr (isRefused_number letter finite)
    · exact .inl (isPlain_number letter finite)

theorem Token.isFinite_of_isPlain {letter : Char} {a : R} (h : (number letter a).IsPlain) :
    Scalar.isFinite a = true := by
  obtain ⟨d, read, -⟩ := h
  rcases finite : Scalar.isFinite a with _ | _
  · have whole : (Scalar.text a).toList.takeWhile isNumberChar = (Scalar.text a).toList := by
      have := (takeWhile_append_stop (r := []) (Decimal.ofPlain?_isNumberChar read) nofun).1
      rwa [List.append_nil] at this
    have refused : Decimal.ofPlain? ((Scalar.text a).toList.takeWhile isNumberChar) = none :=
      isRefused_number letter finite
    rw [whole] at refused
    cases refused.symm.trans read
  · rfl

/-! ## Equal lines -/

theorem beq_self_of_isFinite {a : R} (h : Scalar.isFinite a = true) : (a == a) = true :=
  (Bool.not_eq_false' _).mp (OrderedScalar.isNaN_of_isFinite a h)

theorem option_beq_self {value : Option R} (h : ∀ a ∈ value, Scalar.isFinite a = true) :
    (value == value) = true := by
  rcases value with _ | a
  · rfl
  · exact beq_self_of_isFinite (h a rfl)

theorem Target.beq_self {t : Target R} (h : ∀ a ∈ t.values, Scalar.isFinite a = true) :
    (t == t) = true := by
  simp only [values, List.mem_append, Option.mem_toList] at h
  have x := option_beq_self fun a ha => h a (.inl ha)
  have y := option_beq_self fun a ha => h a (.inr (.inl ha))
  have z := option_beq_self fun a ha => h a (.inr (.inr ha))
  show (t.x == t.x && (t.y == t.y && t.z == t.z)) = true
  rw [x, y, z]
  rfl

theorem beq_rereadOffset {a : R} (h : Scalar.isFinite a = true) : (a == rereadOffset a) = true := by
  unfold rereadOffset writtenOffset
  split
  · assumption
  · exact beq_self_of_isFinite h

theorem Command.beq_reread {c : Command R} {target : Target R} {feed : Option R}
    {delay : Nat → Prop} (h : c.WellFormed delay feed)
    (finite : ∀ a ∈ c.numbers, Scalar.isFinite a = true)
    (moved : ∀ t f, .move t f = c → target = t) : (c == c.reread target feed) = true := by
  cases c with
  | move t f =>
    have same : (f == feed) = true := h
    rw [moved t f rfl]
    show (t == t && f == feed) = true
    rw [Target.beq_self finite, same]
    rfl
  | pin front back dx dy =>
    obtain ⟨hx, hy⟩ := List.forall_mem_cons.mp finite
    show (front == front && (back == back && (dx == rereadOffset dx && dy == rereadOffset dy))) =
      true
    rw [beq_rereadOffset hx, beq_rereadOffset (hy dy (.head _)), beq_self_eq_true, beq_self_eq_true]
    rfl
  | seek edge => exact beq_self_eq_true edge
  | latch side => exact beq_self_eq_true side
  | head side => exact beq_self_eq_true side
  | delay ms => exact beq_self_eq_true ms
  | clip | pause => rfl

omit [PlainScalar R] in
theorem beq_map {f : Command R → Command R} {cs : List (Command R)}
    (h : ∀ c ∈ cs, (c == f c) = true) : (cs == cs.map f) = true := by
  induction cs with
  | nil => rfl
  | cons c cs ih =>
    obtain ⟨first, more⟩ := List.forall_mem_cons.mp h
    show (c == f c && cs == cs.map f) = true
    rw [first, ih more]
    rfl

/-! ## One line -/

/-- The numbers of a line are finite exactly if its tokens can be read. -/
theorem Line.isFinite_iff (l : Line R) : l.IsFinite ↔ ∀ t ∈ l.tokens, t.IsPlain := by
  constructor
  · intro finite t ht
    cases l.writes_tokens t ht with
    | nat _ n => exact Token.isPlain_nat _ n
    | number _ ha => exact Token.isPlain_number _ (finite _ ha)
  · intro plain a ha
    rcases l.mem_tokens ha with zero | ⟨letter, written⟩
    · exact PlainScalar.isFinite_of_beq_zero a zero
    · exact Token.isFinite_of_isPlain (plain _ written)

omit [PlainScalar R] in
theorem Line.scanWords_text (l : Line R) :
    scanWords (R := R) 1 l.text.toList = scanWords 0 (Token.spaced l.tokens) := by
  rw [l.spaced_tokens, scanWords_blank rfl]

variable {last : Option Nat} {source : Nat}

/-- A line is read back from its text. -/
theorem Line.readLine_text {l : Line R} (wellFormed : l.WellFormed (ReadsWhole R))
    (finite : l.IsFinite) (above : ∀ p ∈ last, p < l.number) :
    ∃ m, readLine last source l.text.toList = .ok (some m) ∧ l.Agrees m ∧ m.source = source := by
  have plain := l.isFinite_iff.mp finite
  obtain ⟨ws, scanned, words⟩ := @scanWords_spaced R _ 0 l.tokens fun t ht =>
    ⟨(l.writes_tokens t ht).letter_mem, plain t ht⟩
  have feeds : ∀ f ∈ l.feed, Scalar.le f Scalar.zero = false := fun f hf =>
    PlainScalar.not_le_of_lt _ _ (wellFormed.feed f hf)
  obtain ⟨d, column, gathered, number, feed, said⟩ :=
    Draft.gather_words wellFormed.number_lt feeds wellFormed.moves words
  have numbered : lineNumber (R := R) last (some (l.number, column)) = .ok l.number := by
    rcases last with _ | p
    · rfl
    · exact if_neg (Nat.not_le.mpr (above p rfl))
  have commands : d.slots.reverse.mapM (Slot.command d.target l.feed) =
      .ok (l.commands.map (Command.reread d.target l.feed)) := by
    have each := List.forall₂_reverse_iff.mpr said.slots
    rw [List.reverse_reverse] at each
    have each := (List.forall₂_and_left _ _).mpr ⟨wellFormed.commands, each.flip⟩
    exact mapM_eq_ok_iff.mpr (List.forall₂_map_right_iff.mpr
      (each.flip.imp fun _ _ h => Slot.Says.command h.2 h.1 d.target))
  refine ⟨⟨l.number, l.feed, l.commands.map (Command.reread d.target l.feed), source⟩, ?_, ?_, rfl⟩
  · have nonempty : ws ≠ [] := by
      rintro rfl
      cases words
    rw [← number] at numbered
    rw [← feed] at commands ⊢
    exact readLine_of_words (l.scanWords_text.trans scanned) nonempty
      (lineOfWords_of_gather gathered numbered commands)
  · refine ⟨rfl, option_beq_self fun f hf => finite f ?_, beq_map fun c hc => ?_⟩
    · exact List.mem_append_left _ (Option.mem_toList.mpr hf)
    · exact Command.beq_reread (wellFormed.commands c hc)
        (fun a ha => finite a (List.mem_append_right _ (List.mem_flatMap.mpr ⟨c, hc, ha⟩)))
        fun t f e => said.target t f (e ▸ hc)

/-- A line whose text is read has finite numbers. -/
theorem Line.isFinite_of_readLine {l : Line R} {read : Option (Line R)}
    (h : readLine last source l.text.toList = .ok read) : l.IsFinite := by
  obtain ⟨ws, scanned, -⟩ := bind_eq_ok (mapError_eq_ok h)
  rw [l.scanWords_text] at scanned
  refine l.isFinite_iff.mpr (scanWords_isPlain (fun t ht => ?_) scanned)
  exact ⟨(l.writes_tokens t ht).letter_mem, (l.writes_tokens t ht).isPlain_or⟩

/-! ## Whole programs -/

theorem Token.Writes.isBlank {numbers : List R} {t : Token R} (h : t.Writes numbers) :
    isBlank t.letter = false ∧ ∀ c ∈ t.raw, isBlank c = false := by
  refine ⟨@forall_dark letters (by decide) _ h.letter_mem, fun c hc => ?_⟩
  have plain {d : Decimal} (read : Decimal.ofPlain? t.raw = some d) : Winding.isBlank c = false :=
    Decimal.isBlank_of_isNumberChar (Decimal.ofPlain?_isNumberChar read c hc)
  cases h with
  | nat _ n => exact plain (Decimal.ofPlain?_digitsOf n)
  | @number letter a =>
    rcases finite : Scalar.isFinite a with _ | _
    · exact (PlainScalar.text_of_not_finite a finite).1 c hc
    · obtain ⟨d, read, -⟩ := PlainScalar.ofPlain?_text a finite
      exact plain read

/-- The text of a line is one line. -/
theorem Line.isLine_text (l : Line R) : IsLine l.text.toList := by
  have spaces : ∀ c ∈ l.text.toList, c = ' ' ∨ isBlank c = false := by
    intro c hc
    have hc : c ∈ Token.spaced l.tokens := l.spaced_tokens ▸ List.mem_cons_of_mem _ hc
    obtain ⟨t, ht, hc⟩ := List.mem_flatMap.mp hc
    obtain ⟨letter, raw⟩ := (l.writes_tokens t ht).isBlank
    rcases hc with _ | ⟨_, _ | ⟨_, hc⟩⟩
    · exact .inl rfl
    · exact .inr letter
    · exact .inr (raw c hc)
  have other {c : Char} (space : c ≠ ' ') (blank : isBlank c = true) : c ∉ l.text.toList := by
    intro hc
    rcases spaces c hc with rfl | dark
    · exact space rfl
    · rw [blank] at dark
      cases dark
  refine ⟨fun none => ?_, other (by decide) rfl, other (by decide) rfl⟩
  have spaced := l.spaced_tokens
  rw [none] at spaced
  cases spaced

theorem linesOf_programText (ls : List (Line R)) :
    linesOf (programText ls).toList = ls.map fun l => l.text.toList := by
  rw [programText, String.toList_intercalate, List.map_map]
  exact linesOf_intercalate (List.forall_mem_map.mpr fun l _ => l.isLine_text)

/-- Lines that can be written are read back one by one. -/
theorem readLines_texts {ls : List (Line R)}
    (lines : ∀ l ∈ ls, l.WellFormed (ReadsWhole R) ∧ l.IsFinite)
    (above : ∀ l ∈ ls, ∀ p ∈ last, p < l.number)
    (ascending : ls.Pairwise fun l m => l.number < m.number) :
    ∃ ms, readLines last source (ls.map fun l => l.text.toList) = .ok ms ∧
      List.Forall₂ Line.Agrees ls ms ∧ ∀ i m, ms[i]? = some m → m.source = source + i := by
  induction ls generalizing last source with
  | nil => exact ⟨[], rfl, .nil, nofun⟩
  | cons l ls ih =>
    obtain ⟨⟨wellFormed, finite⟩, more⟩ := List.forall_mem_cons.mp lines
    obtain ⟨first, ascending⟩ := List.pairwise_cons.mp ascending
    obtain ⟨m, read, agrees, place⟩ := l.readLine_text wellFormed finite (above l (.head _))
    obtain ⟨ms, others, same, places⟩ := @ih (some m.number) (source + 1) more (by
      rintro k hk _ ⟨⟩
      rw [agrees.number]
      exact first k hk) ascending
    refine ⟨m :: ms, ?_, .cons agrees same, fun i k hk => ?_⟩
    · rw [List.map_cons, readLines, read]
      show (m :: ·) <$> readLines (some m.number) (source + 1) _ = _
      rw [others]
      rfl
    · rcases i with _ | i
      · cases hk
        exact place
      · have := places i k hk
        omega

/-- Lines whose texts are read have finite numbers. -/
theorem isFinite_of_readLines {ls ms : List (Line R)}
    (h : readLines last source (ls.map fun l => l.text.toList) = .ok ms) : ∀ l ∈ ls, l.IsFinite := by
  induction ls generalizing last source ms with
  | nil => exact nofun
  | cons l ls ih =>
    obtain ⟨read, first, h⟩ := bind_eq_ok h
    refine List.forall_mem_cons.mpr ⟨l.isFinite_of_readLine first, ?_⟩
    cases read with
    | none => exact ih h
    | some m =>
      obtain ⟨ms', others, -⟩ := map_eq_ok h
      exact ih others

omit [PlainScalar R] in
theorem Line.WellFormed.mono {delay delay' : Nat → Prop} {l : Line R} (h : l.WellFormed delay)
    (imp : ∀ ms, delay ms → delay' ms) : l.WellFormed delay' := by
  refine ⟨h.number_lt, h.feed, h.moves, fun c hc => ?_⟩
  have wellFormed := h.commands c hc
  cases c with
  | delay ms => exact imp ms wellFormed
  | _ => exact wellFormed

/-- A printed program is read back: as many lines, each equal to the printed one in number, feed and
commands, and each with its place in the text. -/
theorem readProgram_programText {ls : List (Line R)}
    (ascending : ls.Pairwise fun l m => l.number < m.number)
    (lines : ∀ l ∈ ls, l.WellFormed (· ≤ 2 ^ 53) ∧ l.IsFinite) :
    ∃ ms, readProgram (programText ls) = .ok ms ∧ ms.length = ls.length ∧
      ∀ i l m, ls[i]? = some l → ms[i]? = some m → l.Agrees m ∧ m.source = i + 1 := by
  have lines : ∀ l ∈ ls, l.WellFormed (ReadsWhole R) ∧ l.IsFinite := fun l hl =>
    ⟨(lines l hl).1.mono fun _ => readsWhole_of_le, (lines l hl).2⟩
  obtain ⟨ms, read, agree, places⟩ := @readLines_texts R _ _ none 1 ls lines nofun ascending
  refine ⟨ms, by rw [readProgram, linesOf_programText, read], agree.length_eq.symm,
    fun i l m hl hm => ⟨?_, by rw [places i m hm, Nat.add_comm]⟩⟩
  obtain ⟨hi, rfl⟩ := List.getElem?_eq_some_iff.mp hl
  obtain ⟨hi', rfl⟩ := List.getElem?_eq_some_iff.mp hm
  exact agree.get hi hi'

/-- Two lines with gaps in their numbers, one with every kind of number. -/
def sampleLines : List (Line Float) :=
  [⟨1, some (Scalar.ofNat 5000),
    [.pin (some 3) none (Scalar.ofPlaces 5 1) Scalar.zero,
      .move ⟨some (Scalar.ofPlaces 1005 1), none, some (Scalar.ofNat 0)⟩ (some (Scalar.ofNat 5000)),
      .delay 250, .clip], 0⟩,
    ⟨7, none, [.seek .topLeft, .pause], 0⟩]

theorem sampleLines_read :
    ∃ ms, readProgram (programText sampleLines) = .ok ms ∧ ms.length = sampleLines.length ∧
      ∀ i l m, sampleLines[i]? = some l → ms[i]? = some m → l.Agrees m ∧ m.source = i + 1 := by
  have finite : ∀ l ∈ sampleLines, ∀ a ∈ l.numbers, Scalar.isFinite a = true := by decide +kernel
  have positive : Scalar.positive (Scalar.ofNat 5000 : Float) = true := by decide +kernel
  have wellFormed : ∀ l ∈ sampleLines, l.WellFormed (· ≤ 2 ^ 53) := by
    refine List.forall_mem_cons.mpr ⟨⟨by decide, ?_, by decide, ?_⟩,
      List.forall_mem_singleton.mpr ⟨by decide, nofun, by decide, ?_⟩⟩
    · exact fun f hf => Option.some.inj hf ▸ positive
    · have feeds : (some (Scalar.ofNat 5000 : Float) == some (Scalar.ofNat 5000)) = true := by
        decide +kernel
      simp [Command.WellFormed, feeds]
      decide
    · simp [Command.WellFormed]
  exact readProgram_programText (by simp [sampleLines]) fun l hl => ⟨wellFormed l hl, finite l hl⟩

/-- Every line that is read is well formed and has numbers that equal themselves, and they are finite
unless a literal of its text stands for an infinity. What is read from a program is read back from
its own text exactly if its numbers are finite. -/
theorem readProgram_reread :
    (∀ (last : Option Nat) (source : Nat) (text : List Char) (l : Line R),
      readLine last source text = .ok (some l) →
        l.WellFormed (ReadsWhole R) ∧ (∀ a ∈ l.numbers, Scalar.isNaN a = false) ∧
          (AllValues (fun a : R => Scalar.isFinite a = true) text → l.IsFinite)) ∧
      ∀ (text : String) (ls : List (Line R)), readProgram text = .ok ls →
        ((∀ line ∈ linesOf text.toList, AllValues (fun a : R => Scalar.isFinite a = true) line) →
          ∀ l ∈ ls, l.IsFinite) ∧
        ((∃ ms, readProgram (programText ls) = .ok ms ∧ List.Forall₂ Line.Agrees ls ms) ↔
          ∀ l ∈ ls, l.IsFinite) := by
  refine ⟨fun last source text l h => ⟨(readLine_wellFormed h).1, readLine_isNaN h, fun values =>
    readLine_numbers OrderedScalar.isFinite_zero values h⟩, fun text ls h => ⟨fun values =>
      readLines_numbers OrderedScalar.isFinite_zero values h, ?_, fun finite => ?_⟩⟩
  · rintro ⟨ms, read, -⟩
    rw [readProgram, linesOf_programText] at read
    exact isFinite_of_readLines read
  · obtain ⟨lines, ascending⟩ := readLines_wellFormed h
    obtain ⟨ms, read, agree, -⟩ := @readLines_texts R _ _ none 1 ls
      (fun l hl => ⟨(lines l hl).1, finite l hl⟩) nofun ascending
    exact ⟨ms, by rw [readProgram, linesOf_programText, read], agree⟩

/-! ### Literals that are too large -/

/-- The text of a move to a whole number. -/
def moveText (n : Nat) : String := "G1 X" ++ toString n

theorem readProgram_moveText (n : Nat) : readProgram (R := R) (moveText n) =
    .ok [⟨1, none, [.move ⟨some (Scalar.ofNat n), none, none⟩ none], 1⟩] := by
  have digits : (toString n).toList = digitsOf n := Nat.toList_repr
  have spaced : Token.spaced [.nat 'G' 1, (.nat 'X' n : Token R)] = ' ' :: (moveText n).toList := by
    rw [moveText, String.toList_append, digits]
    show _ :: _ :: (digitsOf 1 ++ _ :: _ :: (digitsOf n ++ [])) = _
    rw [List.append_nil]
    rfl
  obtain ⟨ws, scanned, words⟩ := @scanWords_spaced R _ 0 [.nat 'G' 1, .nat 'X' n] (by
    exact List.forall_mem_cons.mpr ⟨⟨.tail _ (.tail _ (.head _)), Token.isPlain_nat ..⟩,
      List.forall_mem_singleton.mpr ⟨.tail _ (.tail _ (.tail _ (.tail _ (.head _)))),
        Token.isPlain_nat ..⟩⟩)
  obtain ⟨g, xs, rfl, code, rest⟩ := List.map_eq_cons_iff.mp words
  obtain ⟨x, rfl, axis⟩ := List.map_eq_singleton_iff.mp rest
  have code : g.token = Code.move.token := code
  have letter : x.letter = 'X' := congrArg Token.letter axis
  have value : x.value = Scalar.ofNat n := congrArg Token.value axis
  obtain ⟨d, taken, number, feed, target, slots, placed⟩ :=
    Draft.take_code (d := .start) code nofun nofun
  have moved : d.take x = .ok { d with target := ⟨some (Scalar.ofNat n), none, none⟩ } := by
    rw [Draft.take_axis (.inl letter) (placed rfl) (by rw [Draft.axis?, letter, target]; rfl),
      target, letter, value]
    rfl
  have gathered : gather [g, x] = .ok { d with target := ⟨some (Scalar.ofNat n), none, none⟩ } := by
    rw [gather, List.foldlM_cons, taken]
    show ([x].foldlM Draft.take d) = _
    rw [List.foldlM_cons, moved]
    rfl
  have read : readLine (R := R) none 1 (moveText n).toList =
      .ok (some ⟨1, none, [.move ⟨some (Scalar.ofNat n), none, none⟩ none], 1⟩) := by
    have scanned : scanWords (R := R) 1 (moveText n).toList = .ok [g, x] := by
      rw [← scanned, spaced, scanWords_blank rfl]
    have made : lineOfWords (R := R) none 1 [g, x] =
        .ok ⟨1, none, [.move ⟨some (Scalar.ofNat n), none, none⟩ none], 1⟩ := by
      rw [lineOfWords, gathered]
      obtain ⟨_, _, _, _, _⟩ := d
      cases number
      cases feed
      cases slots
      rfl
    exact readLine_of_words scanned (List.cons_ne_nil _ _) made
  have lines : linesOf (moveText n).toList = [(moveText n).toList] := by
    have newline : '\n' ∉ (moveText n).toList := by
      rw [moveText, String.toList_append, digits, List.mem_append, not_or]
      refine ⟨by decide, fun digit => ?_⟩
      cases (AreDigits.digitsOf n).digits _ digit
    rw [linesOf, pieces_line newline (fun none => by rw [none] at spaced; cases spaced),
      List.map_singleton, stripNewline_line newline]
  rw [readProgram, lines, readLines, read]
  rfl

/-- A literal within the range is read and read back. -/
theorem moveText_reread :
    ∃ ls : List (Line Float), readProgram (moveText 5) = .ok ls ∧
      ∃ ms, readProgram (programText ls) = .ok ms ∧ List.Forall₂ Line.Agrees ls ms := by
  have read := readProgram_moveText (R := Float) 5
  refine ⟨_, read, ((readProgram_reread.2 _ _ read).2).mpr ?_⟩
  have finite : Scalar.isFinite (Scalar.ofNat 5 : Float) = true := by decide +kernel
  exact List.forall_mem_singleton.mpr (List.forall_mem_singleton.mpr finite)

/-- A literal that no finite number is near to is read as an infinity, and its line is not read back
from its text. -/
theorem overflowing_literal_read :
    ∃ ls : List (Line Float), readProgram (moveText (10 ^ 309)) = .ok ls ∧
      (∃ l ∈ ls, ¬l.IsFinite) ∧ ∀ ms : List (Line Float), readProgram (programText ls) ≠ .ok ms := by
  have infinite : Scalar.isFinite (Scalar.ofNat (10 ^ 309) : Float) = false := by decide +kernel
  have overflows (l : Line Float) (h : Scalar.ofNat (10 ^ 309) ∈ l.numbers) : ¬l.IsFinite := by
    intro finite
    rw [finite _ h] at infinite
    cases infinite
  refine ⟨_, readProgram_moveText _, ⟨_, .head _, overflows _ (.head _)⟩, fun ms read => ?_⟩
  rw [readProgram, linesOf_programText] at read
  exact overflows _ (.head _) (isFinite_of_readLines read _ (.head _))

end Winding.Gcode
