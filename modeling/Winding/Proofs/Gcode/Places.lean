import Winding.Proofs.Gcode.Taking

/-!
# Words in their places

What a word of a line means depends on the words before it: a parameter belongs to the nearest
function word (`Place.isParameter`), which is the one whose parameters it is among
(`parameters_eq`), and any other `F` is the feed of the line. A command stands at every function
word and at the first axis word of a line without a move code (`heads`).
-/

namespace Winding.Gcode

/-! ## Places -/

section Places

variable {R : Type}

/-- A word of a line, between the words before it and those after it. -/
structure Place (R : Type) where
  before : List (Word R)
  word : Word R
  after : List (Word R)

/-- The places of words that stand behind others. -/
def placesFrom (before : List (Word R)) : List (Word R) → List (Place R)
  | [] => []
  | w :: ws => ⟨before, w, ws⟩ :: placesFrom (before ++ [w]) ws

/-- The places of the words of a line. -/
def places (ws : List (Word R)) : List (Place R) := placesFrom [] ws

/-- The function word that stands nearest before a place, where these are the words before it. -/
def nearest? (before : List (Word R)) : Option (Word R) := before.reverse.find? Word.isFunction

/-- The values of one axis. -/
def axisOf (ws : List (Word R)) (letter : Char) : List R :=
  (ws.filter (·.letter == letter)).map Word.value

/-- The parameters of a code: of the words up to the next function word those that it governs. -/
def Code.paramsOf (code : Code) (after : List (Word R)) : List (Word R) :=
  (after.takeWhile (!·.isFunction)).filter (code.governs ·.letter)

/-- Whether a command stands at a place: one for every function word, and one for the first axis
word unless there is a move code. -/
def Place.isHead (moved : Bool) (p : Place R) : Bool :=
  p.word.isFunction || (p.word.isAxis && !moved && !p.before.any Word.isAxis)

variable [Scalar R]

/-- Whether a word is a parameter of the nearest function word before it. -/
def Place.isParameter (p : Place R) : Bool :=
  ((nearest? p.before).bind Word.code?).any (·.governs p.word.letter)

/-- Whether a word is the feed of the line. -/
def Place.isFeed (p : Place R) : Bool := p.word.letter = 'F' && !p.isParameter

/-- The feeds of a line. -/
def feedsOf (ws : List (Word R)) : List R :=
  ((places ws).filter Place.isFeed).map (·.word.value)

/-- The places of a line where its commands stand. -/
def heads (ws : List (Word R)) : List (Place R) :=
  (places ws).filter (Place.isHead (ws.any Word.isMove))

/-- The parameters of the function word at a place. -/
def Place.params (p : Place R) : List (Word R) := p.word.code?.elim [] (·.paramsOf p.after)

theorem Place.params_eq {p : Place R} {code : Code} (known : p.word.code? = some code) :
    p.params = code.paramsOf p.after := by
  rw [params, known]
  rfl

/-- A word that can stand at its place. -/
structure Place.Fits (p : Place R) : Prop where
  known : p.word.letter ∈ ['N', 'X', 'Y', 'Z', 'F', 'G', 'M'] ∨ p.isParameter = true
  code : p.word.isFunction = true → ∃ code, p.word.code? = some code
  number : p.word.letter = 'N' → ∃ n : Nat, p.word.written? = some (n : Int) ∧ n < numberLimit
  single : p.word.letter = 'N' ∨ p.word.isAxis = true →
    ∀ w ∈ p.before, w.letter ≠ p.word.letter
  feed : p.isFeed = true → feedsOf p.before = [] ∧ Scalar.positive p.word.value = true
  motion : p.word.isMove = true → p.before.any Word.isMove = false

end Places

/-! ## Words before and behind a place -/

section Around

variable {R : Type} {seen ws : List (Word R)} {w : Word R}

theorem placesFrom_append (before ws us : List (Word R)) :
    placesFrom before (ws ++ us) =
      (placesFrom before ws).map (fun p => { p with after := p.after ++ us }) ++
        placesFrom (before ++ ws) us := by
  induction ws generalizing before with
  | nil => rw [List.append_nil]; rfl
  | cons w ws ih =>
    rw [List.cons_append, placesFrom, ih, List.append_assoc]
    rfl

theorem nearest?_concat :
    nearest? (seen ++ [w]) = if w.isFunction = true then some w else nearest? seen := by
  rw [nearest?, List.reverse_append, List.reverse_singleton, List.singleton_append, List.find?_cons]
  cases w.isFunction <;> rfl

theorem axisOf_concat (letter : Char) :
    axisOf (seen ++ [w]) letter =
      axisOf seen letter ++ if w.letter = letter then [w.value] else [] := by
  rw [axisOf, List.filter_append, List.map_append, axisOf]
  congr 1
  by_cases same : w.letter = letter
  · rw [if_pos same, List.filter_cons, if_pos (beq_iff_eq.mpr same)]
    rfl
  · rw [if_neg same, List.filter_cons, if_neg (mt beq_iff_eq.mp same)]
    rfl

theorem paramsOf_cons_of_isFunction (h : w.isFunction = true) (code : Code)
    (ws : List (Word R)) : code.paramsOf (w :: ws) = [] := by
  rw [Code.paramsOf, List.takeWhile_cons, h]
  rfl

theorem paramsOf_cons (h : w.isFunction = false) (code : Code) (ws : List (Word R)) :
    code.paramsOf (w :: ws) =
      if code.governs w.letter = true then w :: code.paramsOf ws else code.paramsOf ws := by
  rw [Code.paramsOf, List.takeWhile_cons, h]
  exact List.filter_cons ..

variable [Scalar R]

theorem feedsOf_concat (after : List (Word R)) :
    feedsOf (seen ++ [w]) =
      feedsOf seen ++ if (⟨seen, w, after⟩ : Place R).isFeed = true then [w.value] else [] := by
  rw [feedsOf, places, placesFrom_append, List.filter_append, List.map_append, feedsOf,
    List.filter_map, List.map_map]
  congr 1
  show List.map _ (List.filter Place.isFeed [⟨seen, w, []⟩]) =
    if (⟨seen, w, []⟩ : Place R).isFeed = true then [w.value] else []
  rw [List.filter_cons]
  split <;> rfl

/-- Words that stand behind others are parameters of the function word before them or of one among
themselves. -/
theorem parameters_placesFrom (seen ws : List (Word R)) :
    ((placesFrom seen ws).filter Place.isParameter).map Place.word =
      ((nearest? seen).bind Word.code?).elim [] (·.paramsOf ws) ++
        (placesFrom seen ws).flatMap Place.params := by
  induction ws generalizing seen with
  | nil => cases (nearest? seen).bind Word.code? <;> rfl
  | cons w ws ih =>
    have later := ih (seen ++ [w])
    rw [nearest?_concat] at later
    rw [placesFrom, List.filter_cons, List.flatMap_cons, Place.isParameter, Place.params]
    rcases function : w.isFunction with _ | _
    · rw [function, if_neg Bool.false_ne_true] at later
      rw [Word.code?_eq_none function, Option.elim_none, List.nil_append]
      rcases opened : (nearest? seen).bind Word.code? with _ | code
      · rw [opened] at later
        exact later
      · rw [opened, Option.elim_some] at later
        rw [Option.any_some, Option.elim_some, paramsOf_cons function]
        split
        · rw [List.map_cons, later]
          rfl
        · exact later
    · have free : ((nearest? seen).bind Word.code?).any (·.governs w.letter) = false := by
        refine eq_false_of_ne_true fun h => ?_
        obtain ⟨code, -, governed⟩ := (Option.any_eq_true ..).mp h
        rw [(Word.disjoint_of_governs governed).1] at function
        cases function
      have closed : ((nearest? seen).bind Word.code?).elim [] (·.paramsOf (w :: ws)) = [] := by
        rcases (nearest? seen).bind Word.code? with _ | code
        · rfl
        · exact paramsOf_cons_of_isFunction function code ws
      rw [function, if_pos rfl, Option.bind_some] at later
      rw [free, if_neg Bool.false_ne_true, later, closed, List.nil_append]

/-- Every parameter is one of the function word that stands nearest before it, and of no other. -/
theorem parameters_eq (ws : List (Word R)) :
    ((places ws).filter Place.isParameter).map Place.word = (places ws).flatMap Place.params :=
  parameters_placesFrom [] ws

end Around

end Winding.Gcode
