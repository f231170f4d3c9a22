import Mathlib.Logic.Relation
import Winding.Gcode.Reader
import Winding.Proofs.Gcode.Words

/-!
# The layout of a line

Blank characters and closed comments stand between words. A text is scanned exactly if it is made of
these, of words and of a note behind a semicolon (`scanWords_eq_ok_iff`). No change of what stands
between the words, of the note or of the case of letters changes what the line says or why it is
refused; only the column that an error names may be another (`readLine_relaid`).
-/

namespace Winding.Gcode

/-! ## Texts and their tokens -/

/-- What can stand between words. -/
inductive IsGap : List Char → Prop
  | blank {c : Char} (h : isBlank c = true) : IsGap [c]
  | comment {body : List Char} (h : ')' ∉ body) : IsGap ('(' :: (body ++ [')']))

/-- A number that stands before the text ends there. -/
def EndsNumber (text : List Char) : Prop := ∀ c ∈ text.head?, isNumberChar c = false

/-- A text is made of gaps, of these tokens and of a note. -/
inductive Spells {R : Type} [Scalar R] : List Char → List (Token R) → Prop
  | done : Spells [] []
  | note (rest : List Char) : Spells (';' :: rest) []
  | gap {gap text : List Char} {ts : List (Token R)} (h : IsGap gap) (more : Spells text ts) :
      Spells (gap ++ text) ts
  | word {letter : Char} {raw text : List Char} {d : Decimal} {ts : List (Token R)}
      (alpha : letter.isAlpha = true) (read : Decimal.ofPlain? raw = some d)
      (more : Spells text ts) :
      Spells (letter :: (raw ++ text)) (⟨letter.toUpper, raw, Scalar.ofDecimal d⟩ :: ts)

theorem afterComment?_append {body : List Char} (h : ')' ∉ body) (rest : List Char) :
    afterComment? (body ++ ')' :: rest) = some rest := by
  induction body with
  | nil => exact if_pos rfl
  | cons c body ih =>
    obtain ⟨first, more⟩ := not_or.mp (mt List.mem_cons.mpr h)
    rw [List.cons_append, afterComment?, if_neg (Ne.symm first), ih more]

theorem afterComment?_eq_some {cs rest : List Char} (h : afterComment? cs = some rest) :
    ∃ body, ')' ∉ body ∧ cs = body ++ ')' :: rest := by
  induction cs with
  | nil => cases h
  | cons c cs ih =>
    rw [afterComment?] at h
    split at h
    · next closing =>
      cases h
      exact ⟨[], List.not_mem_nil, by rw [closing]; rfl⟩
    · next other =>
      obtain ⟨body, inside, rfl⟩ := ih h
      exact ⟨c :: body, List.not_mem_cons_of_ne_of_not_mem (Ne.symm other) inside, rfl⟩

theorem IsGap.endsNumber {gap : List Char} (h : IsGap gap) (text : List Char) :
    EndsNumber (gap ++ text) := by
  cases h with
  | comment =>
    rintro c ⟨⟩
    rfl
  | blank h =>
    rintro c ⟨⟩
    refine Bool.eq_false_iff.mpr fun number => ?_
    cases h.symm.trans (Decimal.isBlank_of_isNumberChar number)

section Scanning

variable {R : Type} [Scalar R] {column : Nat} {text : List Char} {ts : List (Token R)}

theorem Spells.endsNumber (h : Spells text ts) : EndsNumber text := by
  cases h with
  | done => exact nofun
  | note =>
    rintro c ⟨⟩
    rfl
  | gap h => exact h.endsNumber _
  | word alpha =>
    rintro c ⟨⟩
    refine Bool.eq_false_iff.mpr fun number => ?_
    simp only [isNumberChar, Bool.or_eq_true, decide_eq_true_eq] at number
    rcases number with ((digit | rfl) | rfl) | rfl
    · exact absurd ((bounds_of_isAlpha alpha).1.trans (Char.isDigit_iff_toNat.mp digit).2)
        (by decide)
    all_goals cases alpha

/-- A gap moves what follows it to another column. -/
theorem IsGap.scanWords {gap : List Char} (h : IsGap gap) (text : List Char) :
    scanWords (R := R) column (gap ++ text) = Gcode.scanWords (column + gap.length) text := by
  cases h with
  | blank h => exact scanWords_blank h text
  | @comment body h =>
    rw [List.cons_append, List.append_assoc, List.singleton_append, scanWords_comment,
      afterComment?_append h]
    show Gcode.scanWords (column + 1 + ((body ++ ')' :: text).length - text.length)) text = _
    simp only [List.length_append, List.length_cons, List.length_nil]
    congr 1
    omega

theorem scanWords_word {letter : Char} {raw : List Char} {d : Decimal}
    (alpha : letter.isAlpha = true) (read : Decimal.ofPlain? raw = some d)
    (ends : EndsNumber text) :
    scanWords (R := R) column (letter :: (raw ++ text)) =
      (scanWords (column + 1 + raw.length) text).map
        (⟨letter.toUpper, raw, Scalar.ofDecimal d, column⟩ :: ·) := by
  obtain ⟨take, drop⟩ := takeWhile_append_stop (Decimal.ofPlain?_isNumberChar read) ends
  rw [scanWords_alpha alpha, take, drop, read]

/-- What is scanned is made of the tokens of its words. -/
theorem spells_of_scanWords {ws : List (Word R)} (h : scanWords column text = .ok ws) :
    Spells text (ws.map Word.token) := by
  induction column, text using scanWords.induct generalizing ws with
  | case1 =>
    rw [scanWords] at h
    cases h
    exact .done
  | case2 column c cs blank ih =>
    rw [scanWords_blank blank] at h
    exact .gap (.blank blank) (ih h)
  | case3 column cs blank =>
    rw [scanWords, if_neg blank, if_pos rfl] at h
    cases h
    exact .note cs
  | case4 column cs unclosed =>
    rw [scanWords_comment, unclosed] at h
    cases h
  | case5 column cs rest closed _ _ ih =>
    rw [scanWords_comment, closed] at h
    obtain ⟨body, inside, rfl⟩ := afterComment?_eq_some closed
    have spelled := Spells.gap (.comment inside) (ih h)
    rwa [List.cons_append, List.append_assoc] at spelled
  | case6 column c cs blank line comment alpha raw =>
    rename_i malformed
    have malformed : Decimal.ofPlain? (cs.takeWhile isNumberChar) = none := malformed
    rw [scanWords_alpha alpha, malformed] at h
    cases h
  | case7 column c cs blank line comment alpha raw =>
    rename_i d number ih
    have number : Decimal.ofPlain? (cs.takeWhile isNumberChar) = some d := number
    rw [scanWords_alpha alpha, number] at h
    obtain ⟨others, scanned, rfl⟩ := map_eq_ok h
    have spelled := Spells.word alpha number (ih scanned)
    rwa [List.takeWhile_append_dropWhile] at spelled
  | case8 column c cs blank line comment other =>
    rw [scanWords, if_neg blank, if_neg line, if_neg comment, if_neg other] at h
    cases h

/-- What is made of tokens is scanned, from any column on. -/
theorem Spells.scanWords (h : Spells text ts) (column : Nat) :
    ∃ ws, Gcode.scanWords column text = .ok ws ∧ ws.map Word.token = ts := by
  induction h generalizing column with
  | done => exact ⟨[], by rw [Gcode.scanWords], rfl⟩
  | note rest => exact ⟨[], by rw [Gcode.scanWords, if_neg (by decide), if_pos rfl], rfl⟩
  | gap h _ ih =>
    rw [h.scanWords]
    exact ih _
  | @word letter raw text d ts alpha read more ih =>
    obtain ⟨ws, scanned, rfl⟩ := ih (column + 1 + raw.length)
    refine ⟨⟨letter.toUpper, raw, Scalar.ofDecimal d, column⟩ :: ws, ?_, rfl⟩
    rw [scanWords_word alpha read more.endsNumber, scanned]
    rfl

/-- A text is scanned exactly if it is made of tokens. -/
theorem scanWords_eq_ok_iff :
    (∃ ws, scanWords column text = .ok ws ∧ ws.map Word.token = ts) ↔ Spells text ts := by
  constructor
  · rintro ⟨ws, scanned, rfl⟩
    exact spells_of_scanWords scanned
  · exact fun spelled => spelled.scanWords column

end Scanning

/-! ## Changes of the layout -/

/-- One change of a text's layout, at its start or behind gaps and whole words. -/
inductive Relaid : List Char → List Char → Prop
  | insert {gap text : List Char} (h : IsGap gap) : Relaid text (gap ++ text)
  | remove {gap text : List Char} (h : IsGap gap) : Relaid (gap ++ text) text
  | note (text rest : List Char) : Relaid text (text ++ ';' :: rest)
  | recase {a b : Char} (ha : a.isAlpha = true) (hb : b.isAlpha = true)
      (same : b.toUpper = a.toUpper) (text : List Char) : Relaid (a :: text) (b :: text)
  | afterGap {gap text text' : List Char} (h : IsGap gap) (change : Relaid text text') :
      Relaid (gap ++ text) (gap ++ text')
  | afterWord {letter : Char} {raw text text' : List Char} {d : Decimal}
      (alpha : letter.isAlpha = true) (read : Decimal.ofPlain? raw = some d)
      (ends : EndsNumber text) (change : Relaid text text') :
      Relaid (letter :: (raw ++ text)) (letter :: (raw ++ text'))

section Changes

variable {R : Type} [Scalar R] {text text' : List Char} {ts : List (Token R)}

theorem Spells.of_gap {gap : List Char} (h : IsGap gap) (spelled : Spells (gap ++ text) ts) :
    Spells text ts := by
  obtain ⟨ws, scanned, rfl⟩ := spelled.scanWords 1
  rw [h.scanWords] at scanned
  exact spells_of_scanWords scanned

/-- A text that starts with a letter starts with a word. -/
theorem Spells.of_letter {letter : Char} (alpha : letter.isAlpha = true)
    (spelled : Spells (letter :: text) ts) :
    ∃ d more, Decimal.ofPlain? (text.takeWhile isNumberChar) = some d ∧
      Spells (text.dropWhile isNumberChar) more ∧
      ts = ⟨letter.toUpper, text.takeWhile isNumberChar, Scalar.ofDecimal d⟩ :: more := by
  obtain ⟨ws, scanned, rfl⟩ := spelled.scanWords 1
  rw [scanWords_alpha alpha] at scanned
  split at scanned
  · cases scanned
  · next d read =>
    obtain ⟨others, rest, rfl⟩ := map_eq_ok scanned
    exact ⟨d, _, read, spells_of_scanWords rest, rfl⟩

theorem Spells.append_note (h : Spells text ts) (rest : List Char) :
    Spells (text ++ ';' :: rest) ts := by
  induction h with
  | done => exact .note rest
  | note old => exact .note _
  | gap h _ ih =>
    rw [List.append_assoc]
    exact .gap h ih
  | word alpha read _ ih =>
    rw [List.cons_append, List.append_assoc]
    exact .word alpha read ih

/-- A change of the layout keeps the tokens. -/
theorem Relaid.spells (h : Relaid text text') (spelled : Spells text ts) : Spells text' ts := by
  induction h generalizing ts with
  | insert h => exact .gap h spelled
  | remove h => exact spelled.of_gap h
  | note text rest => exact spelled.append_note rest
  | recase ha hb same text =>
    obtain ⟨d, more, read, others, rfl⟩ := spelled.of_letter ha
    -- A token has its letter in upper case.
    have word := Spells.word hb read others
    rwa [List.takeWhile_append_dropWhile, same] at word
  | afterGap h _ ih => exact .gap h (ih (spelled.of_gap h))
  | afterWord alpha read ends _ ih =>
    obtain ⟨d, more, read', others, rfl⟩ := spelled.of_letter alpha
    obtain ⟨take, drop⟩ := takeWhile_append_stop (Decimal.ofPlain?_isNumberChar read) ends
    rw [drop] at others
    rw [take] at read' ⊢
    exact .word alpha read' (ih others)

theorem spells_of_relaid (h : Relation.ReflTransGen Relaid text text') (spelled : Spells text ts) :
    Spells text' ts := by
  induction h with
  | refl => exact spelled
  | tail _ change ih => exact change.spells ih

end Changes

/-! ## Columns -/

section Columns

variable {R : Type}

/-- A word at no column. -/
def Word.bare (w : Word R) : Word R := { w with column := 0 }

/-- A fault at no column. -/
def Misread.bare (e : Misread R) : Misread R := { e with column := 0 }

/-- A slot of words at no columns. -/
def Slot.bare : Slot R → Slot R
  | .axes => .axes
  | .call code _ params => .call code 0 (params.map Word.bare)

/-- A draft of words at no columns. -/
def Draft.bare (d : Draft R) : Draft R :=
  { d with
    number := d.number.map fun n => (n.1, 0)
    slots := d.slots.map Slot.bare }

/-- A result whose columns are taken away, those of the value by `f`. -/
def bared {α β : Type} (f : α → β) (r : Except (Misread R) α) : Except (Misread R) β :=
  (r.map f).mapError Misread.bare

theorem bared_bind {α β : Type} (r : Except (Misread R) α) (rest : α → Except (Misread R) β) :
    bared id (r >>= rest) = bared id r >>= fun a => bared id (rest a) := by
  cases r <;> rfl

theorem bared_bared {α : Type} (r : Except (Misread R) α) : bared id (bared id r) = bared id r := by
  cases r <;> rfl

theorem bared_mapM {α β : Type} {f : α → Except (Misread R) β} {g : α → α}
    (same : ∀ a, f (g a) = bared id (f a)) (l : List α) :
    (l.map g).mapM f = bared id (l.mapM f) := by
  induction l with
  | nil => rfl
  | cons a l ih =>
    rw [List.map_cons, List.mapM_cons, List.mapM_cons, same, ih]
    rcases f a with e | b
    · rfl
    · rcases l.mapM f with e | bs <;> rfl

variable {w : Word R} {d : Draft R}

theorem Word.natBelow?_bare [Scalar R] (limit : Nat) : w.bare.natBelow? limit = w.natBelow? limit :=
  rfl

theorem openCode?_bare (slots : List (Slot R)) :
    openCode? (slots.map Slot.bare) = openCode? slots := by
  induction slots with
  | nil => rfl
  | cons s slots ih =>
    cases s with
    | axes => exact ih
    | call => rfl

theorem attach_bare (w : Word R) (slots : List (Slot R)) :
    attach w.bare (slots.map Slot.bare) = (attach w slots).map Slot.bare := by
  induction slots with
  | nil => rfl
  | cons s slots ih =>
    cases s with
    | axes => exact congrArg (Slot.axes :: ·) ih
    | call code column params =>
      show Slot.call code 0 (params.map Word.bare ++ [w.bare]) :: _ = _
      rw [← List.map_singleton, ← List.map_append]
      rfl

theorem isMoveCall_bare (s : Slot R) : s.bare.isMoveCall = s.isMoveCall := by
  rcases s with _ | ⟨_ | _, _, _⟩ <;> rfl

theorem isAxes_bare (s : Slot R) : s.bare.isAxes = s.isAxes := by
  cases s <;> rfl

namespace Draft

theorem takeAxis_bare : d.bare.takeAxis w.bare = bared bare (d.takeAxis w) := by
  unfold takeAxis
  show (if (d.axis? w.letter).isSome then _ else _) = _
  split
  · rfl
  · show Except.ok _ = Except.ok _
    unfold bare
    cases d.placed <;> rfl

theorem takeParameter_bare : d.bare.takeParameter w.bare = bared bare (d.takeParameter w) := by
  unfold takeParameter
  rw [show d.bare.slots = d.slots.map Slot.bare from rfl, openCode?_bare, attach_bare]
  split <;> rfl

variable [Scalar R]

theorem takeNumber_bare : d.bare.takeNumber w.bare = bared bare (d.takeNumber w) := by
  unfold takeNumber
  rw [show d.bare.number.isSome = d.number.isSome from Option.isSome_map, Word.natBelow?_bare]
  split
  · rfl
  · rcases w.natBelow? numberLimit with _ | n <;> rfl

theorem takeFeed_bare : d.bare.takeFeed w.bare = bared bare (d.takeFeed w) := by
  unfold takeFeed
  show (if d.feed.isSome then _ else if Scalar.le w.value Scalar.zero then _ else _) = _
  split
  · rfl
  · split <;> rfl

theorem takeCode_bare : d.bare.takeCode w.bare = bared bare (d.takeCode w) := by
  unfold takeCode
  rw [Word.natBelow?_bare, show w.bare.letter = w.letter from rfl]
  rcases (w.natBelow? numberLimit).bind (Code.ofNumber? w.letter) with _ | code
  · rfl
  · have moved : d.bare.slots.any Slot.isMoveCall = d.slots.any Slot.isMoveCall := by
      rw [show d.bare.slots = d.slots.map Slot.bare from rfl, List.any_map]
      exact congrArg d.slots.any (funext isMoveCall_bare)
    have others : d.bare.slots.filter (!·.isAxes) = (d.slots.filter (!·.isAxes)).map Slot.bare := by
      rw [show d.bare.slots = d.slots.map Slot.bare from rfl, List.filter_map]
      congr 2
      funext s
      exact congrArg (!·) (isAxes_bare s)
    cases code with
    | move =>
      simp only [moved, others]
      split <;> rfl
    | _ => rfl

/-- Taking a word does the same at any column. -/
theorem take_bare : d.bare.take w.bare = bared bare (d.take w) := by
  unfold take
  rw [show w.bare.letter = w.letter from rfl,
    show openCode? d.bare.slots = openCode? d.slots from openCode?_bare d.slots]
  split
  · exact takeNumber_bare
  iterate 3 exact takeAxis_bare
  · split
    · exact takeParameter_bare
    · exact takeFeed_bare
  · split
    · exact takeParameter_bare
    · rfl
  iterate 5 exact takeParameter_bare
  iterate 2 exact takeCode_bare
  · rfl

theorem foldlM_bare (ws : List (Word R)) :
    (ws.map Word.bare).foldlM take d.bare = bared bare (ws.foldlM take d) := by
  induction ws generalizing d with
  | nil => rfl
  | cons w ws ih =>
    rw [List.map_cons, List.foldlM_cons, List.foldlM_cons, take_bare]
    rcases d.take w with e | d'
    · rfl
    · exact ih

end Draft

/-! ### Commands -/

section Commands

variable {code : Code} {column : Nat} {params : List (Word R)} {letter : Char}

theorem parameterFault?_bare (seen : List Char) :
    parameterFault? code seen (params.map Word.bare) =
      (parameterFault? code seen params).map Misread.bare := by
  induction params generalizing seen with
  | nil => rfl
  | cons w params ih =>
    rw [List.map_cons, parameterFault?, parameterFault?, show w.bare.letter = w.letter from rfl]
    split
    · rfl
    · split
      · rfl
      · exact ih _

theorem param?_bare :
    param? (params.map Word.bare) letter = (param? params letter).map Word.bare := by
  rw [param?, List.find?_map]
  rfl

theorem requireP_bare {α : Type} {read : Word R → Option α} (same : ∀ w, read w.bare = read w) :
    requireP code 0 (params.map Word.bare) read = bared id (requireP code column params read) := by
  rw [requireP, requireP, param?_bare]
  rcases param? params 'P' with _ | w
  · rfl
  · simp only [Option.map_some, same]
    rcases read w with _ | a <;> rfl

variable [Scalar R]

theorem pinParam_bare :
    pinParam (params.map Word.bare) letter = bared id (pinParam params letter) := by
  rw [pinParam, pinParam, param?_bare]
  rcases param? params letter with _ | w
  · rfl
  · simp only [Option.map_some, Word.natBelow?_bare]
    rcases Option.filter _ (w.natBelow? Pin.ordinalLimit) with _ | n <;> rfl

theorem commandOf_bare (target : Target R) (feed : Option R) :
    commandOf target feed code 0 (params.map Word.bare) =
      bared id (commandOf target feed code column params) := by
  unfold commandOf
  rw [parameterFault?_bare]
  rcases parameterFault? code [] params with _ | fault
  · cases code with
    | move | clip | pause => rfl
    | delay | latch | head | seek =>
      simp only [Option.map_none]
      rw [requireP_bare fun w => rfl]
      rcases requireP _ column params _ with e | a <;> rfl
    | pin =>
      simp only [Option.map_none, pinParam_bare, param?_bare]
      rcases pinParam params 'F' with e | front
      · rfl
      rcases pinParam params 'B' with e | back
      · rfl
      · have value (letter : Char) :
            ((param? params letter).map Word.bare).map Word.value =
              (param? params letter).map Word.value := Option.map_map ..
        simp only [value]
        show (if (front.isNone && back.isNone) = true then _ else _) =
          bared id (if (front.isNone && back.isNone) = true then _ else _)
        split <;> rfl
  · rfl

theorem Slot.command_bare (target : Target R) (feed : Option R) (s : Slot R) :
    s.bare.command target feed = bared id (s.command target feed) := by
  cases s with
  | axes => rfl
  | call => exact commandOf_bare target feed

/-! ### Lines -/

/-- The line of an error and what is wrong with it. -/
def ReadError.reason (e : ReadError R) : Nat × Fault R := (e.line, e.fault)

omit [Scalar R] in
theorem lineNumber_bare (last : Option Nat) (given : Option (Nat × Nat)) :
    bared id (lineNumber (R := R) last (given.map fun n => (n.1, 0))) =
      bared id (lineNumber last given) := by
  rcases given with _ | ⟨n, column⟩
  · rfl
  · rcases last with _ | previous
    · rfl
    · simp only [Option.map_some, lineNumber]
      split <;> rfl

theorem lineOfWords_bare (last : Option Nat) (source : Nat) (ws : List (Word R)) :
    bared id (lineOfWords last source (ws.map Word.bare)) =
      bared id (lineOfWords last source ws) := by
  have gathered : gather (ws.map Word.bare) = bared Draft.bare (gather ws) :=
    Draft.foldlM_bare (d := .start) ws
  rw [lineOfWords, lineOfWords, gathered]
  rcases gather ws with e | d
  · rfl
  · have made : d.bare.slots.reverse.mapM (Slot.command d.target d.feed) =
        bared id (d.slots.reverse.mapM (Slot.command d.target d.feed)) := by
      rw [show d.bare.slots = d.slots.map Slot.bare from rfl, ← List.map_reverse,
        bared_mapM (Slot.command_bare d.target d.feed)]
    show bared id (lineNumber last d.bare.number >>= fun number =>
        d.bare.slots.reverse.mapM (Slot.command d.target d.feed) >>= fun commands =>
          .ok (Line.mk number d.feed commands source)) =
      bared id (lineNumber last d.number >>= fun number =>
        d.slots.reverse.mapM (Slot.command d.target d.feed) >>= fun commands =>
          .ok (Line.mk number d.feed commands source))
    have number : bared id (lineNumber (R := R) last d.bare.number) =
        bared id (lineNumber last d.number) := lineNumber_bare last d.number
    simp only [bared_bind, number, made, bared_bared]

/-- Lines with the same tokens are read as the same, or refused for the same reason. -/
theorem readLine_eq_of_tokens {last : Option Nat} {source : Nat} {text text' : List Char}
    {ws ws' : List (Word R)} (scanned : scanWords 1 text = .ok ws)
    (scanned' : scanWords 1 text' = .ok ws') (same : ws'.map Word.token = ws.map Word.token) :
    (readLine (R := R) last source text').mapError ReadError.reason =
      (readLine last source text).mapError ReadError.reason := by
  -- Words with the same token are at different columns at most.
  have bare : ws'.map Word.bare = ws.map Word.bare := by
    have := congrArg (List.map fun t : Token R => Word.mk t.letter t.raw t.value 0) same
    rwa [List.map_map, List.map_map] at this
  have empty : ws'.isEmpty = ws.isEmpty := by
    rw [← List.isEmpty_map (f := Word.token), same, List.isEmpty_map]
  have made : bared id (lineOfWords last source ws') = bared id (lineOfWords last source ws) := by
    rw [← lineOfWords_bare, bare, lineOfWords_bare]
  have read : bared id (readWords (R := R) last source text') =
      bared id (readWords last source text) := by
    rw [readWords, readWords, scanned, scanned']
    show bared id (if ws'.isEmpty then _ else _) = bared id (if ws.isEmpty then _ else _)
    rw [empty]
    split
    · rfl
    · show bared id (lineOfWords last source ws' >>= fun line => .ok (some line)) =
        bared id (lineOfWords last source ws >>= fun line => .ok (some line))
      rw [bared_bind, bared_bind, made]
  have reason (r : Except (Misread R) (Option (Line R))) :
      (r.mapError fun e => ReadError.mk source e.column e.fault).mapError ReadError.reason =
        (bared id r).mapError fun e => (source, e.fault) := by
    cases r <;> rfl
  rw [readLine, readLine, reason, reason, read]

/-- Whatever a text that is scanned reads as, it reads as the same after any changes of its layout,
and it is refused for the same reason. -/
theorem readLine_relaid {last : Option Nat} {source : Nat} {text text' : List Char}
    {ws : List (Word R)} (scanned : scanWords 1 text = .ok ws)
    (relaid : Relation.ReflTransGen Relaid text text') :
    (readLine (R := R) last source text').mapError ReadError.reason =
      (readLine last source text).mapError ReadError.reason := by
  have spelled := spells_of_relaid relaid (spells_of_scanWords scanned)
  obtain ⟨ws', scanned', same⟩ := spelled.scanWords 1
  exact readLine_eq_of_tokens scanned scanned' same

/-- A move with a comment between its words, a note behind it and its code in lower case. -/
theorem noted_move_relaid :
    (readLine (R := Float) none 1 " g1(slow)X5;end".toList).mapError ReadError.reason =
      (readLine none 1 "G1X5".toList).mapError ReadError.reason := by
  have spelled : Spells (R := Float) ('G' :: (['1'] ++ 'X' :: (['5'] ++ [])))
      [⟨'G', ['1'], _⟩, ⟨'X', ['5'], _⟩] :=
    .word rfl rfl (.word rfl rfl .done)
  obtain ⟨ws, scanned, -⟩ := spelled.scanWords 1
  have comment : IsGap ('(' :: ("slow".toList ++ [')'])) := .comment (by decide)
  have cased : Relaid ('G' :: (['1'] ++ ['X', '5'])) ('g' :: (['1'] ++ ['X', '5'])) :=
    @Relaid.recase 'G' 'g' rfl rfl rfl _
  have between : Relaid ('g' :: (['1'] ++ ['X', '5'])) ('g' :: (['1'] ++ "(slow)X5".toList)) :=
    .afterWord rfl rfl (by rintro c ⟨⟩; rfl) (.insert comment)
  have before : Relaid ('g' :: (['1'] ++ "(slow)X5".toList)) " g1(slow)X5".toList :=
    @Relaid.insert [' '] _ (.blank rfl)
  exact readLine_relaid scanned
    (.tail (.tail (.tail (.single cased) between) before) (.note " g1(slow)X5".toList "end".toList))

end Commands

end Columns

end Winding.Gcode
