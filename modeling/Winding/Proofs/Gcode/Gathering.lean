import Winding.Proofs.Gcode.Places

/-!
# How the words of a line are gathered

A draft that takes a word says of the words so far and of this one what it said of those before
(`Draft.Reads.take`). So words are gathered exactly if each fits in its place
(`Draft.Reads.exists_foldlM_iff`), and the slots of the line are those of the places where its
commands stand (`slots_of_gather`), wherever its axis words and its move code are.
-/

namespace Winding.Gcode

/-! ## What a draft says of the words before it -/

section Reading

variable {R : Type} [Scalar R] {d d' : Draft R} {seen ws : List (Word R)} {w : Word R}

omit [Scalar R] in
theorem openCode?_attach (w : Word R) (slots : List (Slot R)) :
    openCode? (attach w slots) = openCode? slots := by
  induction slots with
  | nil => rfl
  | cons s slots ih =>
    cases s with
    | axes => exact ih
    | call => rfl

omit [Scalar R] in
theorem any_isMoveCall_attach (w : Word R) (slots : List (Slot R)) :
    (attach w slots).any Slot.isMoveCall = slots.any Slot.isMoveCall := by
  induction slots with
  | nil => rfl
  | cons s slots ih =>
    rcases s with _ | ⟨code, column, params⟩
    · exact ih
    · cases code <;> rfl

/-- What a draft says of the words that it was gathered from, but for the order of its slots. -/
structure Draft.Reads (seen : List (Word R)) (d : Draft R) : Prop where
  number : d.number.map (fun n => (some n.1, n.2)) =
    (seen.find? (·.letter == 'N')).map fun w => (w.natBelow? numberLimit, w.column)
  feed : d.feed.toList = feedsOf seen
  axes : ∀ letter ∈ ['X', 'Y', 'Z'], (d.axis? letter).toList = axisOf seen letter
  opened : openCode? d.slots = (nearest? seen).bind Word.code?
  moved : d.slots.any Slot.isMoveCall = seen.any Word.isMove
  placed : d.placed = (seen.any Word.isAxis || seen.any Word.isMove)

namespace Draft

theorem reads_start : (start : Draft R).Reads [] :=
  ⟨rfl, rfl, fun letter h => by
    rw [show (start : Draft R).axis? letter = none by unfold axis?; split <;> [rfl; split <;> rfl]]
    rfl, rfl, rfl, rfl⟩

omit [Scalar R] in
theorem axis?_withAxis {l m : Char} (hl : l ∈ ['X', 'Y', 'Z']) (hm : m ∈ ['X', 'Y', 'Z']) (a : R) :
    axis? { d with target := withAxis d.target m a } l = if m = l then some a else d.axis? l := by
  simp only [List.mem_cons, List.not_mem_nil, or_false] at hl hm
  rcases hl with rfl | rfl | rfl <;> rcases hm with rfl | rfl | rfl <;> rfl

/-- A word that is no function word leaves the open code and the moves as they are. -/
theorem Reads.concat (reads : d.Reads seen) (function : w.isFunction = false) :
    openCode? d.slots = (nearest? (seen ++ [w])).bind Word.code? ∧
      d.slots.any Slot.isMoveCall = (seen ++ [w]).any Word.isMove := by
  rw [nearest?_concat, function, List.any_append, List.any_cons, Word.isMove_eq_false function]
  exact ⟨reads.opened, by rw [reads.moved]; simp⟩

theorem Reads.number_none (reads : d.Reads seen) (fresh : d.number = none) :
    seen.find? (·.letter == 'N') = none := by
  have none := reads.number
  rw [fresh] at none
  exact Option.map_eq_none_iff.mp none.symm

/-- The open code governs the parameters of the nearest function word. -/
theorem Reads.isParameter (reads : d.Reads seen) (after : List (Word R)) :
    (⟨seen, w, after⟩ : Place R).isParameter =
      (openCode? d.slots).any (·.governs w.letter) := by
  rw [Place.isParameter, reads.opened]

/-- An `F` behind no pin code is the feed. -/
theorem Reads.isFeed_of_free (reads : d.Reads seen) (letter : w.letter = 'F')
    (free : openCode? d.slots ≠ some .pin) (after : List (Word R)) :
    (⟨seen, w, after⟩ : Place R).isFeed = true := by
  rw [Place.isFeed, reads.isParameter, letter]
  rcases opened : openCode? d.slots with _ | code
  · rfl
  · cases code with
    | pin => exact absurd opened free
    | _ => rfl

/-- One word more: the draft reads the words before it and the word. -/
theorem Reads.take (reads : d.Reads seen) (h : d.Takes w d') : d'.Reads (seen ++ [w]) := by
  have axes (other : w.isAxis = false) (l : Char) (hl : l ∈ ['X', 'Y', 'Z']) :
      (d.axis? l).toList = axisOf (seen ++ [w]) l := by
    rw [axisOf_concat, if_neg ?_, List.append_nil]
    · exact reads.axes l hl
    · rintro rfl
      simp [Word.isAxis] at other hl
      tauto
  have feed (other : (⟨seen, w, []⟩ : Place R).isFeed = false) :
      d.feed.toList = feedsOf (seen ++ [w]) := by
    rw [feedsOf_concat [], other, if_neg Bool.false_ne_true, List.append_nil]
    exact reads.feed
  have number (other : w.letter ≠ 'N') : d.number.map (fun n => (some n.1, n.2)) =
      ((seen ++ [w]).find? (·.letter == 'N')).map
        fun w => (w.natBelow? numberLimit, w.column) := by
    have none : [w].find? (·.letter == 'N') = none := by simpa using other
    rw [List.find?_append, none, Option.or_none]
    exact reads.number
  have placed (function : w.isFunction = false) (axis : w.isAxis = false) :
      d.placed = ((seen ++ [w]).any Word.isAxis || (seen ++ [w]).any Word.isMove) := by
    simpa [axis, Word.isMove_eq_false function] using reads.placed
  cases h with
  | @number n letter fresh read =>
    obtain ⟨function, axis⟩ := Word.disjoint_of_letter (.inl letter)
    obtain ⟨opened, moved⟩ := reads.concat function
    refine ⟨?_, feed (by rw [Place.isFeed, letter]; rfl), axes axis, opened, moved,
      placed function axis⟩
    simp [List.find?_append, reads.number_none fresh, letter, read]
  | axis axis fresh =>
    obtain ⟨function, notNumber, notFeed⟩ := Word.disjoint_of_isAxis axis
    obtain ⟨opened, moved⟩ := reads.concat function
    have letter : w.letter ∈ ['X', 'Y', 'Z'] := by simpa using Word.isAxis_iff.mp axis
    refine ⟨number notNumber, feed (by simp [Place.isFeed, notFeed]), fun l hl => ?_, ?_, ?_, ?_⟩
    · show (Draft.axis? { d with target := withAxis d.target w.letter w.value } l).toList = _
      rw [axisOf_concat, axis?_withAxis hl letter, ← reads.axes l hl]
      split
      · next same => rw [← same, fresh]; rfl
      · exact (List.append_nil _).symm
    · rw [← opened]
      cases d.placed <;> rfl
    · rw [← moved]
      cases d.placed <;> rfl
    · simp [axis]
  | feed letter free fresh above =>
    obtain ⟨function, axis⟩ := Word.disjoint_of_letter (.inr letter)
    obtain ⟨opened, moved⟩ := reads.concat function
    refine ⟨number (by rw [letter]; decide), ?_, axes axis, opened, moved, placed function axis⟩
    have none := reads.feed
    rw [fresh] at none
    rw [feedsOf_concat [], if_pos (reads.isFeed_of_free letter free []), ← none]
    rfl
  | @parameter code opened governed =>
    obtain ⟨function, axis, notNumber⟩ := Word.disjoint_of_governs governed
    obtain ⟨opened', moved⟩ := reads.concat function
    refine ⟨number notNumber, feed ?_, axes axis, ?_, ?_, placed function axis⟩
    · simp [Place.isFeed, reads.isParameter, opened, governed]
    · rw [← opened', openCode?_attach]
    · rw [← moved, any_isMoveCall_attach]
  | move known fresh =>
    have function := Word.isFunction_of_code? known
    obtain ⟨axis, notNumber, notFeed⟩ := Word.disjoint_of_isFunction function
    have move : w.isMove = true := decide_eq_true known
    refine ⟨number notNumber, feed (by simp [Place.isFeed, notFeed]), axes axis, ?_, ?_, ?_⟩
    · rw [nearest?_concat, function]
      exact known.symm
    · have moved : (Slot.call (R := R) .move w.column []).isMoveCall = true := rfl
      simp [moved, move]
    · simp [move]
  | @call code known other =>
    have function := Word.isFunction_of_code? known
    obtain ⟨axis, notNumber, notFeed⟩ := Word.disjoint_of_isFunction function
    have move : w.isMove = false := decide_eq_false (known ▸ fun e => other (Option.some.inj e))
    refine ⟨number notNumber, feed (by simp [Place.isFeed, notFeed]), axes axis, ?_, ?_, ?_⟩
    · rw [nearest?_concat, function]
      exact known.symm
    · have unchanged : (Slot.call (R := R) code w.column []).isMoveCall = false := by
        cases code with
        | move => exact absurd rfl other
        | _ => rfl
      simp [unchanged, move, reads.moved]
    · simpa [axis, move] using reads.placed

theorem fits_of_code {code : Code} (known : w.code? = some code) (after : List (Word R))
    (once : code = .move → seen.any Word.isMove = false) :
    (⟨seen, w, after⟩ : Place R).Fits := by
  have function := Word.isFunction_of_code? known
  obtain ⟨axis, notNumber, notFeed⟩ := Word.disjoint_of_isFunction function
  refine ⟨.inl ?_, fun _ => ⟨code, known⟩, by simp [notNumber], by simp [notNumber, axis],
    by simp [Place.isFeed, notFeed], fun move => once ?_⟩
  · rcases Word.isFunction_iff.mp function with letter | letter
    iterate 2
      · rw [letter]
        decide
  · exact Option.some.inj (known.symm.trans (of_decide_eq_true move))

variable [PlainScalar R]

/-- What a draft can take is what fits behind the words that it reads. -/
theorem Reads.fits_of_takes (reads : d.Reads seen) (plain : Scalar.isNaN w.value = false)
    (after : List (Word R)) (h : d.Takes w d') : (⟨seen, w, after⟩ : Place R).Fits := by
  cases h with
  | @number n letter fresh read =>
    obtain ⟨function, axis⟩ := Word.disjoint_of_letter (.inl letter)
    have feed : (⟨seen, w, after⟩ : Place R).isFeed = false := by rw [Place.isFeed, letter]; rfl
    have read := (Word.natBelow?_eq_some_iff (by decide)).mp read
    refine ⟨.inl (letter ▸ .head _), by simp [function], fun _ => ⟨n, read⟩, fun _ v hv => ?_,
      by simp [feed], by simp [Word.isMove_eq_false function]⟩
    have other := List.find?_eq_none.mp (reads.number_none fresh) v hv
    simpa [letter] using other
  | axis axis fresh =>
    obtain ⟨function, notNumber, notFeed⟩ := Word.disjoint_of_isAxis axis
    have letter : w.letter ∈ ['X', 'Y', 'Z'] := by simpa using Word.isAxis_iff.mp axis
    refine ⟨.inl ?_, by simp [function], by simp [notNumber], fun _ v hv same => ?_,
      by simp [Place.isFeed, notFeed], by simp [Word.isMove_eq_false function]⟩
    · simp only [List.mem_cons, List.not_mem_nil, or_false] at letter ⊢
      tauto
    · have none := reads.axes w.letter letter
      rw [fresh] at none
      have : v.value ∈ axisOf seen w.letter :=
        List.mem_map_of_mem (List.mem_filter.mpr ⟨hv, beq_iff_eq.mpr same⟩)
      rw [← none] at this
      cases this
  | feed letter free fresh above =>
    obtain ⟨function, axis⟩ := Word.disjoint_of_letter (.inr letter)
    refine ⟨.inl (by rw [letter]; decide), by simp [function], by simp [letter],
      by simp [letter, axis], fun _ => ⟨?_, ?_⟩, by simp [Word.isMove_eq_false function]⟩
    · rw [← reads.feed, fresh]
      rfl
    · exact OrderedScalar.lt_of_not_le _ _
        (OrderedScalar.isNaN_of_isFinite _ OrderedScalar.isFinite_zero) plain above
  | @parameter code opened governed =>
    obtain ⟨function, axis, notNumber⟩ := Word.disjoint_of_governs governed
    have parameter : (⟨seen, w, after⟩ : Place R).isParameter = true := by
      rw [reads.isParameter, opened]
      exact governed
    exact ⟨.inr parameter, by simp [function], by simp [notNumber], by simp [notNumber, axis],
      by simp [Place.isFeed, parameter], by simp [Word.isMove_eq_false function]⟩
  | move known fresh => exact fits_of_code known after fun _ => by rw [← reads.moved, fresh]
  | @call code known other => exact fits_of_code known after fun e => absurd e other

/-- What fits behind the words that a draft reads can be taken. -/
theorem Reads.takes_of_fits (reads : d.Reads seen) {after : List (Word R)}
    (fits : (⟨seen, w, after⟩ : Place R).Fits) : ∃ d', d.Takes w d' := by
  by_cases parameter : (⟨seen, w, after⟩ : Place R).isParameter = true
  · rw [reads.isParameter] at parameter
    obtain ⟨code, opened, governed⟩ := (Option.any_eq_true ..).mp parameter
    exact ⟨_, .parameter opened governed⟩
  · have axis (letter : w.letter ∈ ['X', 'Y', 'Z']) : ∃ d', d.Takes w d' := by
      have isAxis : w.isAxis = true := Word.isAxis_iff.mpr (by simpa using letter)
      refine ⟨_, .axis isAxis (Option.eq_none_iff_forall_ne_some.mpr fun a given => ?_)⟩
      have values := reads.axes w.letter letter
      have mem : a ∈ axisOf seen w.letter := by
        rw [← values, given]
        exact List.mem_singleton_self a
      obtain ⟨v, hv, -⟩ := List.mem_map.mp mem
      obtain ⟨old, same⟩ := List.mem_filter.mp hv
      exact fits.single (.inr isAxis) v old (beq_iff_eq.mp same)
    have function (h : w.isFunction = true) : ∃ d', d.Takes w d' := by
      obtain ⟨code, known⟩ := fits.code h
      by_cases move : code = .move
      · subst move
        exact ⟨_, .move known (reads.moved.trans (fits.motion (decide_eq_true known)))⟩
      · exact ⟨_, .call known move⟩
    have known := fits.known.resolve_right parameter
    simp only [List.mem_cons, List.not_mem_nil, or_false] at known
    rcases known with letter | letter | letter | letter | letter | letter | letter
    · obtain ⟨n, read⟩ := fits.number letter
      refine ⟨_, .number letter (Option.eq_none_iff_forall_ne_some.mpr fun given old => ?_)
        ((Word.natBelow?_eq_some_iff (by decide)).mpr read)⟩
      have some := reads.number
      rw [old] at some
      obtain ⟨v, found, -⟩ := Option.map_eq_some_iff.mp some.symm
      have same := List.find?_some found
      exact fits.single (.inl letter) v (List.mem_of_find?_eq_some found)
        ((beq_iff_eq.mp same).trans letter.symm)
    iterate 3 exact axis (by simp [show w.letter = _ from letter])
    · have isFeed : (⟨seen, w, after⟩ : Place R).isFeed = true := by
        simp [Place.isFeed, show w.letter = _ from letter, parameter]
      obtain ⟨none, positive⟩ := fits.feed isFeed
      refine ⟨_, .feed letter (fun opened => parameter ?_)
        (Option.toList_eq_nil_iff.mp (reads.feed.trans none))
        (PlainScalar.not_le_of_lt _ _ positive)⟩
      rw [reads.isParameter, opened, letter]
      rfl
    iterate 2 exact function (Word.isFunction_iff.mpr (by simp [show w.letter = _ from letter]))

omit [PlainScalar R] in
theorem Reads.foldlM (reads : d.Reads seen) (h : ws.foldlM Draft.take d = .ok d') :
    d'.Reads (seen ++ ws) := by
  induction ws generalizing d seen with
  | nil =>
    cases h
    rwa [List.append_nil]
  | cons w ws ih =>
    obtain ⟨d₁, taken, rest⟩ := bind_eq_ok h
    have all := ih (reads.take (take_eq_ok_iff.mp taken)) rest
    rwa [List.append_assoc] at all

/-- Words are gathered exactly if each fits behind those before it. -/
theorem Reads.exists_foldlM_iff (reads : d.Reads seen)
    (plain : ∀ w ∈ ws, Scalar.isNaN w.value = false) :
    (∃ d', ws.foldlM Draft.take d = .ok d') ↔ ∀ p ∈ placesFrom seen ws, p.Fits := by
  induction ws generalizing d seen with
  | nil => exact ⟨fun _ => nofun, fun _ => ⟨d, rfl⟩⟩
  | cons w ws ih =>
    obtain ⟨first, more⟩ := List.forall_mem_cons.mp plain
    rw [placesFrom, List.forall_mem_cons]
    constructor
    · rintro ⟨d', h⟩
      obtain ⟨d₁, taken, rest⟩ := bind_eq_ok h
      have takes := take_eq_ok_iff.mp taken
      exact ⟨reads.fits_of_takes first ws takes, (ih (reads.take takes) more).mp ⟨d', rest⟩⟩
    · rintro ⟨fits, others⟩
      obtain ⟨d₁, takes⟩ := reads.takes_of_fits fits
      obtain ⟨d', rest⟩ := (ih (reads.take takes) more).mpr others
      refine ⟨d', ?_⟩
      rw [List.foldlM_cons, take_eq_ok_iff.mpr takes]
      exact rest

end Draft

end Reading

/-! ## The slots of a line -/

section Slots

variable {R : Type}

/-- The slots with parameters added to the latest call. -/
def attachAll (us : List (Word R)) : List (Slot R) → List (Slot R)
  | [] => []
  | .axes :: rest => .axes :: attachAll us rest
  | .call code column params :: rest => .call code column (params ++ us) :: rest

/-- The slots of a line that has a move code or has none. -/
def settled (moved : Bool) (slots : List (Slot R)) : List (Slot R) :=
  if moved then slots.filter (!·.isAxes) else slots

theorem attachAll_nil (slots : List (Slot R)) : attachAll [] slots = slots := by
  induction slots with
  | nil => rfl
  | cons s slots ih =>
    cases s with
    | axes => rw [attachAll, ih]
    | call => rw [attachAll, List.append_nil]

theorem attachAll_attach (us : List (Word R)) (w : Word R) (slots : List (Slot R)) :
    attachAll us (attach w slots) = attachAll (w :: us) slots := by
  induction slots with
  | nil => rfl
  | cons s slots ih =>
    cases s with
    | axes => rw [attach, attachAll, attachAll, ih]
    | call => rw [attach, attachAll, attachAll, List.append_assoc]; rfl

theorem settled_append (moved : Bool) (slots more : List (Slot R)) :
    settled moved (slots ++ more) = settled moved slots ++ settled moved more := by
  cases moved
  · rfl
  · exact List.filter_append ..

theorem settled_call (moved : Bool) (code : Code) (column : Nat) (params : List (Word R)) :
    settled moved [.call code column params] = [.call code column params] := by
  cases moved <;> rfl

theorem settled_settled (moved : Bool) (slots : List (Slot R)) :
    settled moved (settled true slots) = settled true slots := by
  cases moved
  · rfl
  · exact List.filter_filter .. |>.trans (by simp only [Bool.and_self]; rfl)

variable [Scalar R] {d d' : Draft R} {seen ws : List (Word R)} {w : Word R}

/-- The slot of the command that stands at a place. -/
def Place.slot (p : Place R) : Slot R :=
  match p.word.code? with
  | some code => .call code p.word.column p.params
  | none => .axes

/-- The parameters that words add to the code that is open before them. -/
def added (slots : List (Slot R)) (ws : List (Word R)) : List (Word R) :=
  (openCode? slots).elim [] (·.paramsOf ws)

/-- What becomes of slots, in the order of the line, when words come behind them: the open code gets
its parameters, and the axis words lose their place to a move code. -/
def outcome (slots : List (Slot R)) (ws : List (Word R)) : List (Slot R) :=
  settled (ws.any Word.isMove) (attachAll (added slots ws) slots).reverse

omit [Scalar R] in
theorem added_nil (slots : List (Slot R)) : added slots [] = [] := by
  rw [added]
  cases openCode? slots <;> rfl

omit [Scalar R] in
theorem added_cons {slots : List (Slot R)} (function : w.isFunction = false)
    (free : ∀ code, openCode? slots = some code → code.governs w.letter = false) :
    added slots (w :: ws) = added slots ws := by
  rw [added, added]
  rcases opened : openCode? slots with _ | code
  · rfl
  · show code.paramsOf (w :: ws) = code.paramsOf ws
    rw [paramsOf_cons function, free code opened, if_neg Bool.false_ne_true]

omit [Scalar R] in
theorem added_cons_of_isFunction (function : w.isFunction = true) (slots : List (Slot R)) :
    added slots (w :: ws) = [] := by
  rw [added]
  rcases openCode? slots with _ | code
  · rfl
  · exact paramsOf_cons_of_isFunction function code ws

/-- A word with no command of its own changes the parameters of the open code at most. -/
theorem outcome_of_passed (function : w.isFunction = false) {slots old : List (Slot R)}
    (same : attachAll (added slots ws) slots = attachAll (added old (w :: ws)) old) :
    outcome slots ws = outcome old (w :: ws) := by
  rw [outcome, outcome, same, List.any_cons, Word.isMove_eq_false function, Bool.false_or]

/-- A function word closes the code that is open before it. -/
theorem outcome_of_code {code : Code} (known : w.code? = some code) {slots old : List (Slot R)}
    (same : settled (ws.any Word.isMove) slots.reverse =
      settled ((w :: ws).any Word.isMove) old.reverse) :
    outcome (.call code w.column [] :: slots) ws =
      outcome old (w :: ws) ++ [(⟨seen, w, ws⟩ : Place R).slot] := by
  have slot : (⟨seen, w, ws⟩ : Place R).slot = .call code w.column (code.paramsOf ws) := by
    have params : (⟨seen, w, ws⟩ : Place R).params = code.paramsOf ws := Place.params_eq known
    simp only [Place.slot, known, params]
  rw [outcome, outcome, added_cons_of_isFunction (Word.isFunction_of_code? known), attachAll_nil,
    ← same, slot]
  show settled _ (Slot.call code w.column ([] ++ code.paramsOf ws) :: slots).reverse = _
  rw [List.reverse_cons, settled_append, settled_call]
  rfl

/-- The first axis word has a place of its own unless there is a move code. -/
theorem outcome_of_axes (slots : List (Slot R)) :
    outcome (.axes :: slots) ws =
      outcome slots ws ++ if ws.any Word.isMove = true then [] else [.axes] := by
  have last : settled (ws.any Word.isMove) [Slot.axes (R := R)] =
      if ws.any Word.isMove = true then [] else [.axes] := by
    cases ws.any Word.isMove <;> rfl
  show settled _ (.axes :: attachAll (added slots ws) slots).reverse = _
  rw [List.reverse_cons, settled_append, last]
  rfl

/-- One word more adds the slot of its place, if a command stands there. -/
theorem Draft.Takes.outcome (takes : d.Takes w d') (reads : d.Reads seen) (ws : List (Word R)) :
    outcome d'.slots ws = Gcode.outcome d.slots (w :: ws) ++
      ([⟨seen, w, ws⟩].filter
        (Place.isHead (seen.any Word.isMove || (w :: ws).any Word.isMove))).map Place.slot := by
  have passed (function : w.isFunction = false) (axis : w.isAxis = false) (m : Bool) :
      [⟨seen, w, ws⟩].filter (Place.isHead m) = [] := by
    simp [Place.isHead, function, axis]
  have called {code : Code} (known : w.code? = some code) (m : Bool) :
      [⟨seen, w, ws⟩].filter (Place.isHead m) = [⟨seen, w, ws⟩] := by
    simp [Place.isHead, Word.isFunction_of_code? known]
  cases takes with
  | number letter fresh read =>
    obtain ⟨function, axis⟩ := Word.disjoint_of_letter (.inl letter)
    rw [passed function axis, List.map_nil, List.append_nil]
    refine outcome_of_passed function ?_
    rw [added_cons function fun code _ => by rw [letter]; cases code <;> rfl]
  | axis axis fresh =>
    obtain ⟨function, -, -⟩ := Word.disjoint_of_isAxis axis
    have free (code : Code) : code.governs w.letter = false :=
      eq_false_of_ne_true fun h => by
        rw [(Word.disjoint_of_governs h).2.1] at axis
        cases axis
    have slot : (⟨seen, w, ws⟩ : Place R).slot = .axes := by
      rw [Place.slot, Word.code?_eq_none function]
    have kept : Gcode.outcome d.slots ws = Gcode.outcome d.slots (w :: ws) :=
      outcome_of_passed function (by rw [added_cons function fun code _ => free code])
    have placed := reads.placed
    rw [← kept, List.any_cons, Word.isMove_eq_false function, Bool.false_or]
    rcases first : d.placed with _ | _
    · rw [first] at placed
      obtain ⟨noAxis, noMove⟩ := Bool.or_eq_false_iff.mp placed.symm
      show Gcode.outcome (.axes :: d.slots) ws = _
      rw [outcome_of_axes]
      congr 1
      -- The place is kept unless a move code comes behind it.
      cases moved : ws.any Word.isMove
      · simp [Place.isHead, axis, noAxis, noMove, slot]
      · simp [Place.isHead, function]
    · rw [first] at placed
      -- The move has its place at an axis word before, or at a move code.
      have none : [⟨seen, w, ws⟩].filter
          (Place.isHead (seen.any Word.isMove || ws.any Word.isMove)) = [] := by
        rcases Bool.or_eq_true_iff.mp placed.symm with axes | moves
        · simp [Place.isHead, function, axes]
        · simp [Place.isHead, function, moves]
      rw [none]
      exact (List.append_nil _).symm
  | feed letter free fresh above =>
    obtain ⟨function, axis⟩ := Word.disjoint_of_letter (.inr letter)
    rw [passed function axis, List.map_nil, List.append_nil]
    refine outcome_of_passed function ?_
    rw [added_cons function fun code opened => ?_]
    rw [letter]
    cases code with
    | pin => exact absurd opened free
    | _ => rfl
  | @parameter code opened governed =>
    obtain ⟨function, axis, -⟩ := Word.disjoint_of_governs governed
    rw [passed function axis, List.map_nil, List.append_nil]
    refine outcome_of_passed function ?_
    rw [attachAll_attach, added, added, openCode?_attach, opened]
    show attachAll (w :: code.paramsOf ws) d.slots = attachAll (code.paramsOf (w :: ws)) d.slots
    rw [paramsOf_cons function, if_pos governed]
  | move known fresh =>
    rw [called known]
    refine outcome_of_code known ?_
    rw [← List.filter_reverse, List.any_cons, Word.isMove_iff.mpr known, Bool.true_or]
    exact settled_settled _ d.slots.reverse
  | @call code known other =>
    have move : w.isMove = false := decide_eq_false (known ▸ fun e => other (Option.some.inj e))
    rw [called known]
    refine outcome_of_code known ?_
    rw [List.any_cons, move, Bool.false_or]

/-- The slots that words lead to: what becomes of those before them, and one for every place where a
command stands. -/
theorem Draft.Reads.slots_eq (reads : d.Reads seen) (h : ws.foldlM Draft.take d = .ok d') :
    d'.slots.reverse = outcome d.slots ws ++
      ((placesFrom seen ws).filter
        (Place.isHead (seen.any Word.isMove || ws.any Word.isMove))).map Place.slot := by
  induction ws generalizing d seen with
  | nil =>
    cases h
    rw [outcome, added_nil, attachAll_nil]
    exact (List.append_nil _).symm
  | cons w ws ih =>
    obtain ⟨d₁, taken, rest⟩ := bind_eq_ok h
    have takes := take_eq_ok_iff.mp taken
    have moved : ((seen ++ [w]).any Word.isMove || ws.any Word.isMove) =
        (seen.any Word.isMove || (w :: ws).any Word.isMove) := by
      simp [Bool.or_assoc]
    rw [ih (reads.take takes) rest, takes.outcome reads, moved, List.append_assoc,
      ← List.map_append, ← List.filter_append]
    rfl

/-- The slots of a line are those of the places where its commands stand. -/
theorem slots_of_gather (gathered : gather ws = .ok d) :
    d.slots.reverse = (heads ws).map Place.slot := by
  have none : outcome (Draft.start : Draft R).slots ws = [] := by
    rw [outcome]
    cases ws.any Word.isMove <;> rfl
  rw [Draft.reads_start.slots_eq gathered, none, List.nil_append, List.any_nil, Bool.false_or]
  rfl

end Slots

end Winding.Gcode
