import Winding.Proofs.Gcode.Accepted

/-!
# How printed lines are read

A printed line is its number, its feed and its commands as tokens (`Line.spaced_tokens`). Each command
is a function code, the axes of a move and parameters; the reader makes a slot of it that becomes the
command again (`Draft.Says`), with the target and the feed of the line in the place of a move's own
and with nothing in the place of an offset that equals zero (`Command.reread`).
-/

namespace Winding.Gcode

section Tokens

variable {R : Type}

/-! ## Tokens of a line -/

/-- The letter and the number of a function code. -/
def Code.word : Code → Char × Nat
  | .move => ('G', 1)
  | .delay => ('G', 4)
  | .latch => ('G', 100)
  | .seek => ('G', 102)
  | .clip => ('G', 104)
  | .head => ('G', 106)
  | .pin => ('G', 108)
  | .pause => ('M', 0)

theorem Code.ofNumber?_word (code : Code) : ofNumber? code.word.1 code.word.2 = some code := by
  cases code <;> rfl

theorem Code.word_bounds (code : Code) :
    code.word.2 < numberLimit ∧ code.word.2 ≤ 2 ^ 53 := by
  cases code <;> decide

/-- The function code of a command. -/
def Command.code : Command R → Code
  | .move _ _ => .move
  | .seek _ => .seek
  | .latch _ => .latch
  | .head _ => .head
  | .pin _ _ _ _ => .pin
  | .clip => .clip
  | .delay _ => .delay
  | .pause => .pause

variable [Scalar R]

/-- The token of a function code. -/
def Code.token (code : Code) : Token R := .nat code.word.1 code.word.2

/-- The token of a number that is given. -/
def Token.given (letter : Char) (value : Option R) : List (Token R) :=
  (value.map (number letter)).toList

/-- The token of a whole number that is given. -/
def Token.givenNat (letter : Char) (value : Option Nat) : List (Token R) :=
  (value.map (nat letter)).toList

/-- An offset that is written. -/
def writtenOffset (a : R) : Option R := if a == Scalar.zero then none else some a

/-- The axis tokens of a target. -/
def Target.tokens (t : Target R) : List (Token R) :=
  Token.given 'X' t.x ++ (Token.given 'Y' t.y ++ Token.given 'Z' t.z)

/-- The axis tokens of a command. -/
def Command.axes : Command R → List (Token R)
  | .move target _ => target.tokens
  | _ => []

/-- The parameter tokens of a command. -/
def Command.params : Command R → List (Token R)
  | .seek edge => [.nat 'P' edge.mask]
  | .latch side | .head side => [.nat 'P' side.code]
  | .delay ms => [.nat 'P' ms]
  | .pin front back dx dy =>
    Token.givenNat 'F' front ++ (Token.givenNat 'B' back ++
      (Token.given 'I' (writtenOffset dx) ++ Token.given 'J' (writtenOffset dy)))
  | .move _ _ | .clip | .pause => []

/-- The tokens of a command. -/
def Command.tokens (c : Command R) : List (Token R) := c.code.token :: (c.axes ++ c.params)

/-- The tokens of a line. -/
def Line.tokens (l : Line R) : List (Token R) :=
  .nat 'N' l.number :: (Token.given 'F' l.feed ++ l.commands.flatMap Command.tokens)

namespace Token

omit [Scalar R] in
theorem spaced_cons (t : Token R) (ts : List (Token R)) : spaced (t :: ts) = t.chars ++ spaced ts :=
  List.flatMap_cons

omit [Scalar R] in
theorem spaced_append (ts us : List (Token R)) : spaced (ts ++ us) = spaced ts ++ spaced us :=
  List.flatMap_append

variable {s : String} (letter : Char)

theorem toList_word (h : s.toList = [letter]) (a : R) :
    (word s a).toList = (number letter a).chars := by
  rw [word, String.toList_append, String.toList_append, h]
  rfl

theorem toList_natWord (h : s.toList = [letter]) (n : Nat) :
    (natWord s n).toList = (nat letter n : Token R).chars := by
  have digits : (toString n).toList = digitsOf n := Nat.toList_repr
  rw [natWord, String.toList_append, String.toList_append, h, digits]
  rfl

theorem toList_optWord (h : s.toList = [letter]) (value : Option R) :
    (optWord s value).toList = spaced (given letter value) := by
  rcases value with _ | a
  · rfl
  · exact (toList_word letter h a).trans (List.append_nil _).symm

theorem toList_optNatWord (h : s.toList = [letter]) (value : Option Nat) :
    ((value.map (natWord s)).getD "").toList = spaced (givenNat letter value : List (Token R)) := by
  rcases value with _ | n
  · rfl
  · exact (toList_natWord letter h n).trans (List.append_nil _).symm

theorem toList_offset (h : s.toList = [letter]) (a : R) :
    (Command.text.offset s a).toList = spaced (given letter (writtenOffset a)) := by
  unfold Command.text.offset writtenOffset
  split
  · rfl
  · exact (toList_word letter h a).trans (List.append_nil _).symm

end Token

/-- A command's text is its code, its axes and its parameters. -/
theorem Command.toList_text (c : Command R) :
    c.text.toList = c.code.text.toList ++ Token.spaced (c.axes ++ c.params) := by
  have whole (n : Nat) : (natWord "P" n).toList = Token.spaced [(Token.nat 'P' n : Token R)] :=
    (Token.toList_natWord 'P' rfl n).trans (List.append_nil _).symm
  cases c with
  | move target feed =>
    simp only [text, String.toList_append, Token.toList_optWord 'X' (s := "X") rfl,
      Token.toList_optWord 'Y' (s := "Y") rfl, Token.toList_optWord 'Z' (s := "Z") rfl, axes,
      params, Target.tokens, Token.spaced_append, List.append_assoc, List.append_nil]
    rfl
  | seek | latch | head | delay =>
    rw [text, String.toList_append, whole]
    rfl
  | pin front back dx dy =>
    simp only [text, String.toList_append, Token.toList_optNatWord (R := R) 'F' (s := "F") rfl,
      Token.toList_optNatWord (R := R) 'B' (s := "B") rfl, Token.toList_offset 'I' (s := "I") rfl,
      Token.toList_offset 'J' (s := "J") rfl, axes, params, Token.spaced_append, List.append_assoc,
      List.nil_append]
    rfl
  | clip | pause => exact (List.append_nil _).symm

/-- A command is printed as its tokens. -/
theorem Command.spaced_tokens (c : Command R) : Token.spaced c.tokens = ' ' :: c.text.toList := by
  have code (code : Code) : code.word.1 :: digitsOf code.word.2 = code.text.toList := by
    cases code <;> decide
  rw [tokens, Token.spaced_cons, toList_text, ← code]
  rfl

/-- A line is printed as its tokens. -/
theorem Line.spaced_tokens (l : Line R) : Token.spaced l.tokens = ' ' :: l.text.toList := by
  have digits : (toString l.number).toList = digitsOf l.number := Nat.toList_repr
  have commands : (String.join (l.commands.map fun c => " " ++ c.text)).toList =
      Token.spaced (l.commands.flatMap Command.tokens) := by
    rw [String.toList_join, List.flatMap_map, Token.spaced, List.flatMap_assoc]
    congr 1
    funext c
    exact (String.toList_append ..).trans c.spaced_tokens.symm
  rw [tokens, Token.spaced_cons, Token.spaced_append, text, String.toList_append,
    String.toList_append, String.toList_append, Token.toList_optWord 'F' rfl, digits, commands,
    List.append_assoc, List.append_assoc]
  rfl

end Tokens

/-! ## Slots of a line -/

section Slots

variable {R : Type}

/-- Whether a letter is a parameter behind this code. -/
def Code.Takes (code : Code) (letter : Char) : Prop :=
  letter = 'P' ∨ letter = 'I' ∨ letter = 'J' ∨ code = .pin ∧ (letter = 'F' ∨ letter = 'B')

/-- A target with a value for the axis of a letter. -/
def Target.set (t : Target R) (letter : Char) (value : Option R) : Target R :=
  match value with
  | none => t
  | some a => Draft.withAxis t letter a

variable [Scalar R] {d : Draft R} {w : Word R} {ws : List (Word R)}

namespace Draft

theorem take_param {code : Code} {column : Nat} {params : List (Word R)} {rest : List (Slot R)}
    (takes : code.Takes w.letter) (slots : d.slots = .call code column params :: rest) :
    d.take w = .ok { d with slots := .call code column (params ++ [w]) :: rest } := by
  have opened : openCode? d.slots = some code := by
    rw [slots]
    rfl
  have governed : code.governs w.letter = true := by
    rw [Code.governs_iff]
    unfold Code.Takes at takes
    tauto
  rw [take_eq_ok_iff.mpr (.parameter opened governed), slots]
  rfl

/-- Parameters gather behind the code in front of them. -/
theorem foldlM_take_params {code : Code} {column : Nat} {params : List (Word R)}
    {rest : List (Slot R)} (takes : ∀ w ∈ ws, code.Takes w.letter)
    (slots : d.slots = .call code column params :: rest) :
    ws.foldlM take d = .ok { d with slots := .call code column (params ++ ws) :: rest } := by
  induction ws generalizing d params with
  | nil =>
    rw [List.foldlM_nil, List.append_nil, ← slots]
    rfl
  | cons w ws ih =>
    obtain ⟨first, more⟩ := List.forall_mem_cons.mp takes
    rw [List.foldlM_cons, take_param first slots]
    show ws.foldlM take _ = _
    rw [ih more rfl, List.append_assoc, List.singleton_append]

theorem take_axis (letter : w.letter = 'X' ∨ w.letter = 'Y' ∨ w.letter = 'Z')
    (placed : d.placed = true) (fresh : d.axis? w.letter = none) :
    d.take w = .ok { d with target := withAxis d.target w.letter w.value } := by
  rw [take_eq_ok_iff.mpr (.axis (Word.isAxis_iff.mpr letter) fresh), placed]
  rfl

/-- The words of one axis. -/
theorem foldlM_take_given {letter : Char} {value : Option R}
    (axis : letter = 'X' ∨ letter = 'Y' ∨ letter = 'Z') (placed : d.placed = true)
    (fresh : d.axis? letter = none) (words : ws.map Word.token = Token.given letter value) :
    ws.foldlM take d = .ok { d with target := d.target.set letter value } := by
  rcases value with _ | a
  · rw [List.map_eq_nil_iff.mp words]
    rfl
  · obtain ⟨w, rfl, same⟩ := List.map_eq_singleton_iff.mp words
    obtain ⟨rfl, rfl⟩ : w.letter = letter ∧ w.value = a :=
      ⟨congrArg Token.letter same, congrArg Token.value same⟩
    rw [List.foldlM_cons, take_axis axis placed fresh]
    rfl

/-- The axis words of a move make its target. -/
theorem foldlM_take_target {target : Target R} (placed : d.placed = true)
    (fresh : d.target = ⟨none, none, none⟩) (words : ws.map Word.token = target.tokens) :
    ws.foldlM take d = .ok { d with target } := by
  obtain ⟨xs, rest, rfl, xWords, words⟩ := List.map_eq_append_iff.mp words
  obtain ⟨ys, zs, rfl, yWords, zWords⟩ := List.map_eq_append_iff.mp words
  have first := foldlM_take_given (.inl rfl) placed (by rw [axis?, fresh]; rfl) xWords
  have second := foldlM_take_given (d := { d with target := d.target.set 'X' target.x })
    (.inr (.inl rfl)) placed (by
      rw [fresh]
      cases target.x <;> rfl) yWords
  have third := foldlM_take_given
    (d := { d with target := (d.target.set 'X' target.x).set 'Y' target.y })
    (.inr (.inr rfl)) placed (by
      rw [fresh]
      cases target.x <;> cases target.y <;> rfl) zWords
  rw [List.foldlM_append, first]
  show (ys ++ zs).foldlM take _ = _
  rw [List.foldlM_append, second]
  show zs.foldlM take _ = _
  rw [third, fresh]
  obtain ⟨x, y, z⟩ := target
  cases x <;> cases y <;> cases z <;> rfl

end Draft

/-- A slot that was made of the words of a command. -/
def Slot.Says (s : Slot R) (c : Command R) : Prop :=
  ∃ column ws, s = .call c.code column ws ∧ ws.map Word.token = c.params

/-- A draft whose slots were made of the words of these commands. -/
structure Draft.Says (d : Draft R) (cs : List (Command R)) : Prop where
  slots : List.Forall₂ Slot.Says d.slots cs.reverse
  target : ∀ t f, .move t f ∈ cs → d.target = t
  fresh : cs.countP Command.isMove = 0 → d.target = ⟨none, none, none⟩

theorem Command.takes_params (c : Command R) : ∀ t ∈ c.params, c.code.Takes t.letter := by
  intro t ht
  cases c with
  | move | clip | pause => cases ht
  | seek | latch | head | delay =>
    rw [List.mem_singleton.mp ht]
    exact .inl rfl
  | pin front back dx dy =>
    simp only [params, Token.given, Token.givenNat, List.mem_append, Option.mem_toList,
      Option.map_eq_some_iff] at ht
    rcases ht with ⟨_, _, rfl⟩ | ⟨_, _, rfl⟩ | ⟨_, _, rfl⟩ | ⟨_, _, rfl⟩
    · exact .inr (.inr (.inr ⟨rfl, .inl rfl⟩))
    · exact .inr (.inr (.inr ⟨rfl, .inr rfl⟩))
    · exact .inr (.inl rfl)
    · exact .inr (.inr (.inl rfl))

omit [Scalar R] in
theorem Command.isMove_of_code (c : Command R) (h : c.code = .move) : c.isMove = true := by
  cases c with
  | move => rfl
  | _ => cases h

theorem Slot.Says.isAxes {s : Slot R} {c : Command R} (h : s.Says c) : s.isAxes = false := by
  obtain ⟨_, _, rfl, -⟩ := h
  rfl

theorem Slot.Says.isMoveCall {s : Slot R} {c : Command R} (h : s.Says c) :
    s.isMoveCall = c.isMove := by
  obtain ⟨_, _, rfl, -⟩ := h
  cases c <;> rfl

namespace Draft

variable [PlainScalar R]

/-- A function code makes an empty slot; that of a move also makes the place of the axis words. -/
theorem take_code {code : Code} (same : w.token = code.token)
    (axes : ∀ s ∈ d.slots, s.isAxes = false)
    (moves : code = .move → ∀ s ∈ d.slots, s.isMoveCall = false) :
    ∃ d', d.take w = .ok d' ∧ d'.number = d.number ∧ d'.feed = d.feed ∧ d'.target = d.target ∧
      d'.slots = .call code w.column [] :: d.slots ∧ (code = .move → d'.placed = true) := by
  obtain ⟨below, small⟩ := code.word_bounds
  have known : w.code? = some code := by
    rw [← w.bind_natBelow?_ofNumber?, (readsWhole_of_le small).natBelow? below same,
      show w.letter = code.word.1 from congrArg Token.letter same]
    exact code.ofNumber?_word
  by_cases move : code = .move
  · subst move
    have none : d.slots.any Slot.isMoveCall = false :=
      List.any_eq_false.mpr fun s hs => by rw [moves rfl s hs]; exact Bool.false_ne_true
    have kept : d.slots.filter (!·.isAxes) = d.slots :=
      List.filter_eq_self.mpr fun s hs => by rw [axes s hs]; rfl
    rw [take_eq_ok_iff.mpr (.move known none), kept]
    exact ⟨_, rfl, rfl, rfl, rfl, rfl, fun _ => rfl⟩
  · rw [take_eq_ok_iff.mpr (.call known move)]
    exact ⟨_, rfl, rfl, rfl, rfl, rfl, fun e => absurd e move⟩

/-- The words of one more command. -/
theorem Says.take {cs : List (Command R)} {c : Command R} (said : d.Says cs)
    (one : (cs ++ [c]).countP Command.isMove ≤ 1) (words : ws.map Word.token = c.tokens) :
    ∃ d', ws.foldlM Draft.take d = .ok d' ∧ d'.number = d.number ∧ d'.feed = d.feed ∧
      d'.Says (cs ++ [c]) := by
  have made : ∀ s ∈ d.slots, ∃ b ∈ cs, Slot.Says s b := by
    intro s hs
    obtain ⟨b, hb, h⟩ := exists_of_forall₂ said.slots.flip s hs
    exact ⟨b, List.mem_reverse.mp hb, h⟩
  have counted : cs.countP Command.isMove + (if c.isMove = true then 1 else 0) ≤ 1 := by
    rw [List.countP_append, List.countP_singleton] at one
    exact one
  have noMove (move : c.isMove = true) : cs.countP Command.isMove = 0 := by
    rw [if_pos move] at counted
    omega
  obtain ⟨w, rest, rfl, same, words⟩ := List.map_eq_cons_iff.mp words
  obtain ⟨axisWords, paramWords, rfl, axisSame, paramSame⟩ := List.map_eq_append_iff.mp words
  obtain ⟨d₁, taken, number, feed, target, slots, placed⟩ := take_code same
    (fun s hs => by
      obtain ⟨b, -, h⟩ := made s hs
      exact h.isAxes)
    (fun code s hs => by
      obtain ⟨b, hb, h⟩ := made s hs
      rw [h.isMoveCall]
      exact Bool.eq_false_iff.mpr (List.countP_eq_zero.mp (noMove (c.isMove_of_code code)) b hb))
  rw [List.foldlM_cons, taken]
  show ∃ d', (axisWords ++ paramWords).foldlM Draft.take d₁ = .ok d' ∧ _
  rw [List.foldlM_append, ← number, ← feed]
  have reversed : (cs ++ [c]).reverse = c :: cs.reverse := by
    rw [List.reverse_append, List.reverse_singleton, List.singleton_append]
  by_cases move : c.isMove = true
  · cases c with
    | move t f =>
      rw [foldlM_take_target (placed rfl) (target.trans (said.fresh (noMove rfl))) axisSame,
        List.map_eq_nil_iff.mp paramSame]
      refine ⟨_, rfl, rfl, rfl, ?_, fun t' f' mem => ?_, fun none => ?_⟩
      · rw [reversed, slots]
        exact .cons ⟨_, _, rfl, rfl⟩ said.slots
      · rcases List.mem_append.mp mem with old | new
        · exact absurd rfl (List.countP_eq_zero.mp (noMove rfl) _ old)
        · cases List.mem_singleton.mp new
          rfl
      · exact absurd rfl (List.countP_eq_zero.mp none _ (List.mem_append_right _
          List.mem_cons_self))
    | _ => cases move
  · have noAxes : c.axes = [] := by
      cases c with
      | move => exact absurd rfl move
      | _ => rfl
    rw [noAxes] at axisSame
    rw [List.map_eq_nil_iff.mp axisSame]
    show ∃ d', paramWords.foldlM Draft.take d₁ = .ok d' ∧ _
    have takes : ∀ w ∈ paramWords, c.code.Takes w.letter := fun w hw =>
      c.takes_params w.token (paramSame ▸ List.mem_map_of_mem hw)
    rw [foldlM_take_params takes slots]
    refine ⟨_, rfl, rfl, rfl, ?_, fun t f mem => ?_, fun none => ?_⟩
    · rw [reversed]
      exact .cons ⟨_, _, rfl, paramSame⟩ said.slots
    · rcases List.mem_append.mp mem with old | new
      · exact target.trans (said.target t f old)
      · rw [← List.mem_singleton.mp new] at move
        exact absurd rfl move
    · rw [List.countP_append] at none
      exact target.trans (said.fresh (by omega))

/-- The words of the commands of a line. -/
theorem Says.foldlM {cs more : List (Command R)} (said : d.Says cs)
    (one : (cs ++ more).countP Command.isMove ≤ 1)
    (words : ws.map Word.token = more.flatMap Command.tokens) :
    ∃ d', ws.foldlM Draft.take d = .ok d' ∧ d'.number = d.number ∧ d'.feed = d.feed ∧
      d'.Says (cs ++ more) := by
  induction more generalizing d cs ws with
  | nil =>
    rw [List.map_eq_nil_iff.mp words, List.append_nil]
    exact ⟨d, rfl, rfl, rfl, said⟩
  | cons c more ih =>
    obtain ⟨these, others, rfl, same, rest⟩ := List.map_eq_append_iff.mp words
    have split : cs ++ c :: more = cs ++ [c] ++ more := by rw [List.append_assoc]; rfl
    rw [split] at one ⊢
    have first : (cs ++ [c]).countP Command.isMove ≤ 1 := by
      rw [List.countP_append] at one
      omega
    obtain ⟨d₁, taken, number, feed, said₁⟩ := said.take first same
    rw [List.foldlM_append, taken, ← number, ← feed]
    exact ih said₁ one rest

/-- The words of a printed line. -/
theorem gather_words {l : Line R} (small : l.number < numberLimit)
    (feeds : ∀ f ∈ l.feed, Scalar.le f Scalar.zero = false)
    (one : l.commands.countP Command.isMove ≤ 1) (words : ws.map Word.token = l.tokens) :
    ∃ d column, gather ws = .ok d ∧ d.number = some (l.number, column) ∧ d.feed = l.feed ∧
      d.Says l.commands := by
  obtain ⟨n, rest, rfl, numberSame, words⟩ := List.map_eq_cons_iff.mp words
  obtain ⟨fs, commandWords, rfl, feedSame, commandSame⟩ := List.map_eq_append_iff.mp words
  -- The draft in front of the commands, with the feed of the line or none.
  let numbered (feed : Option R) : Draft R :=
    ⟨some (l.number, n.column), feed, ⟨none, none, none⟩, [], false⟩
  have number : (start : Draft R).take n = .ok (numbered none) := by
    have kept : l.number ≤ 2 ^ 53 := Nat.le_of_lt (Nat.lt_trans small (by decide))
    exact take_eq_ok_iff.mpr (.number (congrArg Token.letter numberSame) rfl
      ((readsWhole_of_le kept).natBelow? small numberSame))
  have feed : fs.foldlM take (numbered none) = .ok (numbered l.feed) := by
    rcases given : l.feed with _ | f
    · rw [given] at feedSame
      rw [List.map_eq_nil_iff.mp feedSame]
      rfl
    · rw [given] at feedSame
      obtain ⟨w, rfl, same⟩ := List.map_eq_singleton_iff.mp feedSame
      have letter : w.letter = 'F' := congrArg Token.letter same
      have value : w.value = f := congrArg Token.value same
      have taken : (numbered none).take w = .ok (numbered (some w.value)) :=
        take_eq_ok_iff.mpr (.feed letter (Option.some_ne_none _).symm rfl (value ▸ feeds f given))
      rw [List.foldlM_cons, taken, value]
      rfl
  have said : (numbered l.feed).Says [] :=
    ⟨.nil, fun _ _ mem => absurd mem List.not_mem_nil, fun _ => rfl⟩
  obtain ⟨d, taken, hn, hf, said⟩ := said.foldlM one commandSame
  refine ⟨d, n.column, ?_, hn, hf, said⟩
  rw [gather, List.foldlM_cons, number]
  show (fs ++ commandWords).foldlM take _ = _
  rw [List.foldlM_append, feed]
  exact taken

end Draft

end Slots

/-! ## Commands of a line -/

section Commands

variable {R : Type} [Scalar R]

/-- An offset as it is read back: one that equals zero is not written. -/
def rereadOffset (a : R) : R := (writtenOffset a).getD Scalar.zero

/-- A command as it is read back on a line with this target and feed. -/
def Command.reread (target : Target R) (feed : Option R) : Command R → Command R
  | .move _ _ => .move target feed
  | .pin front back dx dy => .pin front back (rereadOffset dx) (rereadOffset dy)
  | c => c

variable {ws : List (Word R)}

/-- The token with a letter. -/
def Token.find? (letter : Char) (ts : List (Token R)) : Option (Token R) :=
  ts.find? (·.letter == letter)

omit [Scalar R] in
theorem map_token_param? (ws : List (Word R)) (letter : Char) :
    (param? ws letter).map Word.token = Token.find? letter (ws.map Word.token) := by
  rw [Token.find?, List.find?_map]
  rfl

/-- Each parameter of a positioning is found by its letter. -/
theorem find?_params_pin (front back : Option Nat) (dx dy : R) :
    let params := (Command.pin front back dx dy).params
    Token.find? 'F' params = front.map (Token.nat 'F') ∧
      Token.find? 'B' params = back.map (Token.nat 'B') ∧
      Token.find? 'I' params = (writtenOffset dx).map (Token.number 'I') ∧
      Token.find? 'J' params = (writtenOffset dy).map (Token.number 'J') := by
  have part {α : Type} (mk : α → Token R) (l : Char) (letter : ∀ a, (mk a).letter = l)
      (value : Option α) (wanted : Char) : (value.map mk).toList.find? (·.letter == wanted) =
        if l = wanted then value.map mk else none := by
    rcases value with _ | a
    · split <;> rfl
    · rw [Option.map_some, Option.toList_some, List.find?_singleton, letter]
      by_cases h : l = wanted
      · rw [if_pos h, if_pos (beq_iff_eq.mpr h)]
      · rw [if_neg h, if_neg (by rwa [beq_iff_eq])]
  simp only [Token.find?, Command.params, Token.given, Token.givenNat, List.find?_append,
    part (Token.nat 'F') 'F' fun _ => rfl, part (Token.nat 'B') 'B' fun _ => rfl,
    part (Token.number 'I') 'I' fun _ => rfl, part (Token.number 'J') 'J' fun _ => rfl]
  simp

/-- The parameters of a command are those that its code takes, each at most once. -/
theorem Command.accepts_params (c : Command R) :
    (∀ t ∈ c.params, c.code.accepts t.letter = true) ∧ (c.params.map Token.letter).Nodup := by
  have part {α : Type} (mk : α → Token R) {l : Char} (letter : ∀ a, (mk a).letter = l)
      (value : Option α) : ((value.map mk).toList.map Token.letter).Sublist [l] := by
    rcases value with _ | a
    · exact List.nil_sublist _
    · exact letter a ▸ List.Sublist.refl _
  cases c with
  | move | clip | pause => exact ⟨nofun, .nil⟩
  | seek | latch | head | delay =>
    refine ⟨fun t ht => ?_, List.pairwise_singleton ..⟩
    rw [List.mem_singleton.mp ht]
    rfl
  | pin front back dx dy =>
    have sublist : ((Command.pin front back dx dy).params.map Token.letter).Sublist
        ['F', 'B', 'I', 'J'] := by
      rw [params, List.map_append, List.map_append, List.map_append]
      exact (part (Token.nat 'F') (fun _ => rfl) front).append
        ((part (Token.nat 'B') (fun _ => rfl) back).append
          ((part (Token.number 'I') (fun _ => rfl) _).append
            (part (Token.number 'J') (fun _ => rfl) _)))
    refine ⟨fun t ht => ?_, sublist.nodup (by decide)⟩
    have letter : t.letter ∈ ['F', 'B', 'I', 'J'] := sublist.subset (List.mem_map_of_mem ht)
    have all : ['F', 'B', 'I', 'J'].all Code.pin.accepts = true := by decide
    exact List.all_eq_true.mp all _ letter

theorem requireP_whole {α : Type} {code : Code} {column n : Nat} {read : Word R → Option α} {a : α}
    (words : ws.map Word.token = [.nat 'P' n])
    (value : ∀ w : Word R, w.token = .nat 'P' n → read w = some a) :
    requireP code column ws read = .ok a := by
  obtain ⟨w, rfl, same⟩ := List.map_eq_singleton_iff.mp words
  have letter : w.letter = 'P' := congrArg Token.letter same
  rw [requireP, param?, List.find?_singleton, if_pos (by rw [letter]; rfl)]
  simp only [value w same]

theorem pinParam_words [PlainScalar R] {letter : Char} {value : Option Nat}
    (found : (param? ws letter).map Word.token = value.map (Token.nat letter))
    (bounds : ∀ n ∈ value, 1 ≤ n ∧ n < Pin.ordinalLimit) : pinParam ws letter = .ok value := by
  rcases value with _ | n
  · rw [pinParam, Option.map_eq_none_iff.mp found]
  · obtain ⟨w, hw, same⟩ := Option.map_eq_some_iff.mp found
    obtain ⟨first, below⟩ := bounds n rfl
    have kept : n ≤ 2 ^ 53 := Nat.le_of_lt (Nat.lt_trans below (by decide))
    rw [pinParam, hw]
    simp only [(readsWhole_of_le kept).natBelow? below same, Option.filter_some,
      decide_eq_true first, if_pos]

theorem offset_words {letter : Char} {a : R}
    (found : (param? ws letter).map Word.token = (writtenOffset a).map (Token.number letter)) :
    ((param? ws letter).map Word.value).getD Scalar.zero = rereadOffset a := by
  have values : (param? ws letter).map Word.value = writtenOffset a := by
    have := congrArg (Option.map Token.value) found
    rw [Option.map_map, Option.map_map] at this
    exact this.trans Option.map_id'
  rw [values, rereadOffset]

variable [PlainScalar R]

/-- The command of a slot that was made of a command's words. -/
theorem Slot.Says.command {s : Slot R} {c : Command R} {feed f : Option R} (said : s.Says c)
    (wellFormed : c.WellFormed (ReadsWhole R) f) (target : Target R) :
    s.command target feed = .ok (c.reread target feed) := by
  obtain ⟨column, ws, rfl, words⟩ := said
  obtain ⟨accepts, nodup⟩ := c.accepts_params
  rw [← words] at accepts nodup
  rw [List.map_map] at nodup
  have faultless : parameterFault? c.code [] ws = none :=
    parameterFault?_eq_none_iff.mpr ⟨fun w hw =>
      ⟨accepts w.token (List.mem_map_of_mem hw), List.not_mem_nil⟩, nodup⟩
  rw [Slot.command]
  unfold commandOf
  simp only [faultless]
  cases c with
  | move | clip | pause => rfl
  | seek edge =>
    simp only [Command.code]
    rw [requireP_whole words fun w same => by
      rw [readsWhole_of_le (by cases edge <;> decide) w 'P' same]
      exact edge.ofMask?_mask]
    rfl
  | latch side | head side =>
    simp only [Command.code]
    rw [requireP_whole words fun w same => by
      rw [readsWhole_of_le (by cases side <;> decide) w 'P' same]
      exact side.ofCode?_code]
    rfl
  | delay ms =>
    have kept : ReadsWhole R ms := wellFormed
    have below : ms < delayLimit := by
      have := kept.lt
      have limit : wholeLimit = 2 ^ 63 := rfl
      show ms < 2 ^ 64
      omega
    simp only [Command.code]
    rw [requireP_whole words fun w same => kept.natBelow? below same]
    rfl
  | pin front back dx dy =>
    obtain ⟨given, bounds⟩ := wellFormed
    obtain ⟨findFront, findBack, findDx, findDy⟩ := find?_params_pin front back dx dy
    rw [← words, ← map_token_param?] at findFront findBack findDx findDy
    simp only [Command.code]
    rw [pinParam_words findFront fun n h => bounds n (.inl h),
      pinParam_words findBack fun n h => bounds n (.inr h), offset_words findDx,
      offset_words findDy]
    have some : (front.isNone && back.isNone) = false := by
      rcases given with given | given
      · rw [Option.isNone_eq_false_iff.mpr given, Bool.false_and]
      · rw [Option.isNone_eq_false_iff.mpr given, Bool.and_false]
    show (if (front.isNone && back.isNone) = true then _ else _) = _
    rw [some]
    rfl

end Commands

end Winding.Gcode
