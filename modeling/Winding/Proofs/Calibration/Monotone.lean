import Winding.Proofs.Calibration.RoundTrip
import Winding.Proofs.Geometry.Walk
import Winding.Proofs.Number.Steps

/-!
# Rows in order

A table is validated in one pass over both faces, which remembers the last pin of every vertical
edge and the way its rows have moved. An edge hears of its own pins only
(`PinTable.checkPins_eq_ok_iff`), and accepts them exactly when all pins whose ordinals follow each
other move one way (`PinTable.keeps_iff`). So a table is accepted exactly when it fits the layer
(`PinTable.Made.validate_eq_ok_iff`): on every vertical edge the pins between which no ordinal is
missing all rise, or all fall. Where an ordinal is missing the way is kept and no heights are
compared, so the rows of an edge need be monotone only up to the gap
(`PinTable.gapped_not_oneWay`).
-/

namespace Winding

namespace PinTable

variable {R : Type} [Scalar R] {t : PinTable R} {layer : Layer R} {face : Face} {edge : FrameEdge}

/-! ## Tables that fit a layer -/

/-- The pins of a list that are on an edge of a face. -/
def rowsOf (layer : Layer R) (face : Face) (edge : FrameEdge) (pins : List (Pin × Location R)) :
    List (Pin × Location R) :=
  pins.filter fun p => p.1.face = face ∧ layer.edgeOf p.1.ordinal = some edge

/-- Two pins of the table on one edge of a face, the first before the second. -/
structure InRow (t : PinTable R) (layer : Layer R) (face : Face) (edge : FrameEdge)
    (p q : Pin × Location R) : Prop where
  first : p ∈ rowsOf layer face edge t.pins
  second : q ∈ rowsOf layer face edge t.pins
  before : p.1.ordinal < q.1.ordinal

/-- Two such pins between which no ordinal is missing in the table. -/
structure Joined (t : PinTable R) (layer : Layer R) (face : Face) (edge : FrameEdge)
    (p q : Pin × Location R) : Prop extends InRow t layer face edge p q where
  whole : ∀ n, p.1.ordinal ≤ n → n ≤ q.1.ordinal → ∃ location, (⟨face, n⟩, location) ∈ t.pins

/-- The heights of all these pairs of pins rise, or all of them fall. -/
def OneWay (pairs : Pin × Location R → Pin × Location R → Prop) : Prop :=
  (∀ p q, pairs p q → Scalar.lt p.2.y q.2.y = true) ∨
    ∀ p q, pairs p q → Scalar.lt q.2.y p.2.y = true

/-- The table is for the layer, has its ordinals only, and the rows of each vertical edge keep
moving the same way wherever no ordinal is missing. -/
structure Fits (t : PinTable R) (layer : Layer R) : Prop where
  named : t.layer = layer.name
  ordinals : ∀ p ∈ t.pins, 1 ≤ p.1.ordinal ∧ p.1.ordinal ≤ layer.pinCount
  edges : ∀ p ∈ t.pins, ∃ edge, layer.edgeOf p.1.ordinal = some edge
  rows : ∀ face edge, edge.isVertical = true → OneWay (t.Joined layer face edge)

/-- The table was made of points, be they measured or read. -/
def Made (t : PinTable R) : Prop :=
  ∃ layer zFront zBack points, make layer zFront zBack points = .ok t

theorem Made.of_ofText {text : String} (read : ofText text = .ok t) : t.Made := by
  obtain ⟨_, layer, zFront, zBack, _, _, _, shifts, -, -, -, made⟩ := ofText_eq_ok read
  exact ⟨layer, zFront, zBack, shifts, made⟩

theorem Made.inOrder (made : t.Made) : InOrder t.pins := by
  obtain ⟨_, _, _, _, made⟩ := made
  exact (make_eq_ok made).2.1

theorem Made.isFinite_y (made : t.Made) : ∀ p ∈ t.pins, Scalar.isFinite p.2.y = true := by
  obtain ⟨_, _, _, _, made⟩ := made
  obtain ⟨-, -, members, finite⟩ := make_eq_ok made
  intro p hp
  exact (Location.isFinite_iff.mp (finite p ((members p).mp hp))).2.1

/-! ## One edge at a time -/

variable {p : Pin × Location R} {pins rows : List (Pin × Location R)} {seen : List (Seen R)}
  {trend : Trend}

/-- The last pin seen on an edge of a face. -/
def lastOn (face : Face) (edge : FrameEdge) (seen : List (Seen R)) : Option (Seen R) :=
  seen.find? fun s => s.face = face ∧ s.edge = edge

/-- What is remembered of a pin. -/
def seenAt (edge : FrameEdge) (p : Pin × Location R) (trend : Trend) : Seen R :=
  ⟨p.1.face, edge, p.1.ordinal, p.2.y, trend⟩

/-- The way of an edge after one more pin; none where the pin breaks it. -/
def next? (last : Option (Seen R)) (p : Pin × Location R) : Option Trend :=
  match last with
  | none => some .unknown
  | some last =>
    if last.ordinal + 1 = p.1.ordinal then
      (trendOf (p.2.y - last.y)).filter fun trend => last.trend = .unknown ∨ trend = last.trend
    else some last.trend

/-- Whether an edge accepts all its rows after the last one. -/
def Keeps (edge : FrameEdge) : Option (Seen R) → List (Pin × Location R) → Prop
  | _, [] => True
  | last, p :: rows =>
    ∃ trend, next? last p = some trend ∧ Keeps edge (some (seenAt edge p trend)) rows

omit [Scalar R] in
theorem lastOn_remember_self (s : Seen R) : lastOn s.face s.edge (remember s seen) = some s := by
  rw [lastOn, remember, List.find?_cons, decide_eq_true ⟨rfl, rfl⟩]

omit [Scalar R] in
/-- What is remembered of one edge of a face does not touch another. -/
theorem lastOn_remember_of_ne {s : Seen R} (other : ¬(s.face = face ∧ s.edge = edge)) :
    lastOn face edge (remember s seen) = lastOn face edge seen := by
  rw [lastOn, remember, List.find?_cons, decide_eq_false other, List.find?_filter]
  show List.find? _ seen = _
  unfold lastOn
  congr 1
  funext r
  by_cases here : r.face = face ∧ r.edge = edge
  · obtain ⟨rfl, rfl⟩ := here
    have kept : ¬(r.face = s.face ∧ r.edge = s.edge) := fun h => other ⟨h.1.symm, h.2.symm⟩
    simp [kept]
  · simp [here]

omit [Scalar R] in
theorem rowsOf_cons_self (found : layer.edgeOf p.1.ordinal = some edge) :
    rowsOf layer p.1.face edge (p :: pins) = p :: rowsOf layer p.1.face edge pins := by
  unfold rowsOf
  rw [List.filter_cons_of_pos (by rw [decide_eq_true_eq]; exact ⟨rfl, found⟩)]

omit [Scalar R] in
theorem rowsOf_cons_of_ne {here : FrameEdge} (found : layer.edgeOf p.1.ordinal = some here)
    (other : ¬(p.1.face = face ∧ here = edge)) :
    rowsOf layer face edge (p :: pins) = rowsOf layer face edge pins := by
  have off : ¬(p.1.face = face ∧ layer.edgeOf p.1.ordinal = some edge) :=
    fun on => other ⟨on.1, Option.some.inj (found.symm.trans on.2)⟩
  unfold rowsOf
  rw [List.filter_cons_of_neg (by rw [decide_eq_true_eq]; exact off)]

/-- A pin on a horizontal edge is passed over. -/
theorem checkPins_cons_of_horizontal (found : layer.edgeOf p.1.ordinal = some edge)
    (horizontal : edge.isVertical = false) :
    checkPins layer seen (p :: pins) = checkPins layer seen pins := by
  rw [checkPins]
  simp only [found, horizontal]
  rfl

/-- A pin on a vertical edge moves the edge on, or breaks it. -/
theorem checkPins_cons_of_vertical (found : layer.edgeOf p.1.ordinal = some edge)
    (vertical : edge.isVertical = true) :
    checkPins layer seen (p :: pins) = match next? (lastOn p.1.face edge seen) p with
      | none => .error (.notMonotonic p.1)
      | some trend => checkPins layer (remember (seenAt edge p trend) seen) pins := by
  rw [checkPins]
  simp only [found, vertical]
  show (match lastOn p.1.face edge seen with | none => _ | some last => _) = _
  cases lastOn p.1.face edge seen with
  | none => rfl
  | some last =>
    simp only [next?]
    by_cases neighbour : last.ordinal + 1 = p.1.ordinal
    · rw [if_pos neighbour, if_pos neighbour]
      cases trendOf (p.2.y - last.y) with
      | none => rfl
      | some trend =>
        by_cases broken : last.trend ≠ .unknown ∧ trend ≠ last.trend
        · have none : ¬(last.trend = .unknown ∨ trend = last.trend) := by tauto
          simp only [if_pos broken, Option.filter, decide_eq_false none]
          rfl
        · have kept : last.trend = .unknown ∨ trend = last.trend := by tauto
          simp only [if_neg broken, Option.filter, decide_eq_true kept]
          rfl
    · rw [if_neg neighbour, if_neg neighbour]
      rfl

/-- Whether all vertical edges accept their pins. -/
def KeepAll (layer : Layer R) (seen : List (Seen R)) (pins : List (Pin × Location R)) : Prop :=
  ∀ face edge, edge.isVertical = true →
    Keeps edge (lastOn face edge seen) (rowsOf layer face edge pins)

/-- A pin on a vertical edge only matters there. -/
theorem keepAll_cons_iff (found : layer.edgeOf p.1.ordinal = some edge)
    (vertical : edge.isVertical = true) : KeepAll layer seen (p :: pins) ↔
      ∃ trend, next? (lastOn p.1.face edge seen) p = some trend ∧
        KeepAll layer (remember (seenAt edge p trend) seen) pins := by
  have own (trend : Trend) : lastOn p.1.face edge (remember (seenAt edge p trend) seen) =
      some (seenAt edge p trend) := lastOn_remember_self (seenAt edge p trend)
  have elsewhere (trend : Trend) {face edge'} (other : ¬(p.1.face = face ∧ edge = edge')) :
      lastOn face edge' (remember (seenAt edge p trend) seen) = lastOn face edge' seen :=
    lastOn_remember_of_ne other
  constructor
  · intro keeps
    have first := keeps p.1.face edge vertical
    rw [rowsOf_cons_self found] at first
    obtain ⟨trend, moved, rest⟩ := first
    refine ⟨trend, moved, fun face edge' upright => ?_⟩
    by_cases same : p.1.face = face ∧ edge = edge'
    · obtain ⟨rfl, rfl⟩ := same
      rw [own]
      exact rest
    · rw [elsewhere trend same, ← rowsOf_cons_of_ne found same]
      exact keeps face edge' upright
  · rintro ⟨trend, moved, keeps⟩ face edge' upright
    have rest := keeps face edge' upright
    by_cases same : p.1.face = face ∧ edge = edge'
    · obtain ⟨rfl, rfl⟩ := same
      rw [own] at rest
      rw [rowsOf_cons_self found]
      exact ⟨trend, moved, rest⟩
    · rw [elsewhere trend same] at rest
      rwa [rowsOf_cons_of_ne found same]

theorem keepAll_cons_of_horizontal (found : layer.edgeOf p.1.ordinal = some edge)
    (horizontal : edge.isVertical = false) :
    KeepAll layer seen (p :: pins) ↔ KeepAll layer seen pins := by
  have other {face edge'} (upright : edge'.isVertical = true) :
      rowsOf layer face edge' (p :: pins) = rowsOf layer face edge' pins := by
    refine rowsOf_cons_of_ne found fun same => ?_
    rw [← same.2, horizontal] at upright
    cases upright
  constructor
  · intro keeps face edge' upright
    rw [← other upright]
    exact keeps face edge' upright
  · intro keeps face edge' upright
    rw [other upright]
    exact keeps face edge' upright

/-- The check of all pins is the check of every vertical edge of a face by itself. -/
theorem checkPins_eq_ok_iff : checkPins layer seen pins = .ok () ↔
    (∀ p ∈ pins, ∃ edge, layer.edgeOf p.1.ordinal = some edge) ∧ KeepAll layer seen pins := by
  induction pins generalizing seen with
  | nil =>
    constructor
    · intro _
      exact ⟨List.forall_mem_nil _, fun _ _ _ => trivial⟩
    · intro _
      rfl
  | cons p pins ih =>
    rw [List.forall_mem_cons]
    rcases found : layer.edgeOf p.1.ordinal with _ | edge
    · -- A pin without an edge is refused.
      constructor
      · intro h
        rw [checkPins] at h
        simp only [found] at h
        cases h
      · rintro ⟨⟨⟨_, some⟩, -⟩, -⟩
        cases some
    · have there : ∃ edge', some edge = some edge' := ⟨edge, rfl⟩
      rw [and_iff_right there]
      by_cases vertical : edge.isVertical = true
      · rw [checkPins_cons_of_vertical found vertical, keepAll_cons_iff found vertical]
        cases next? (lastOn p.1.face edge seen) p with
        | none => simp
        | some trend =>
          simp only [ih, Option.some.injEq, exists_eq_left']
      · have horizontal := eq_false_of_ne_true vertical
        rw [checkPins_cons_of_horizontal found horizontal,
          keepAll_cons_of_horizontal found horizontal, ih]

/-! ## The way of an edge -/

/-- Whether a step between heights moves this way; no step moves an unknown way. -/
def Trend.Moves : Trend → R → R → Prop
  | .unknown, _, _ => False
  | .up, a, b => Scalar.lt a b = true
  | .down, a, b => Scalar.lt b a = true

/-- Neighbouring ordinals move this way. -/
def Follows (trend : Trend) (p q : Pin × Location R) : Prop :=
  p.1.ordinal + 1 = q.1.ordinal → trend.Moves p.2.y q.2.y

section Ways

variable [SteppedScalar R]

theorem Trend.Moves.trans {a b c : R} (h : trend.Moves a b) (h' : trend.Moves b c) :
    trend.Moves a c := by
  cases trend with
  | unknown => exact h.elim
  | up => exact LegibleScalar.lt_trans h h'
  | down => exact LegibleScalar.lt_trans h' h

/-- The trend of a step is the way it moves. -/
theorem trendOf_sub_eq_some_iff {a b : R} (ha : Scalar.isFinite a = true)
    (hb : Scalar.isFinite b = true) : trendOf (b - a) = some trend ↔ trend.Moves a b := by
  rw [trendOf, SteppedScalar.sub_beq_zero b a hb ha, SteppedScalar.sub_lt_zero b a hb ha]
  cases below : Scalar.lt b a with
  | true =>
    have above : Scalar.lt a b = false := LegibleScalar.lt_asymm below
    cases trend <;> simp [Trend.Moves, below, above]
  | false =>
    cases above : Scalar.lt a b <;> cases trend <;> simp [Trend.Moves, below, above]

/-- A row behind its neighbour decides the way, or keeps to it. -/
theorem next?_of_neighbour {q : Pin × Location R} {way : Trend}
    (neighbour : p.1.ordinal + 1 = q.1.ordinal) (hp : Scalar.isFinite p.2.y = true)
    (hq : Scalar.isFinite q.2.y = true) : next? (some (seenAt edge p way)) q = some trend ↔
      trend.Moves p.2.y q.2.y ∧ (way = .unknown ∨ way = trend) := by
  have reached : next? (some (seenAt edge p way)) q =
      (trendOf (q.2.y - p.2.y)).filter fun trend => way = .unknown ∨ trend = way :=
    if_pos neighbour
  rw [reached, Option.filter_eq_some_iff, decide_eq_true_eq, trendOf_sub_eq_some_iff hp hq,
    @eq_comm _ trend]

/-- After a row, an edge accepts the rows that move its way, or any one way if it has none yet. -/
theorem keeps_seenAt_iff {way : Trend} (finite : ∀ q ∈ p :: rows, Scalar.isFinite q.2.y = true) :
    Keeps edge (some (seenAt edge p way)) rows ↔
      ∃ trend, (way = .unknown ∨ way = trend) ∧ (p :: rows).IsChain (Follows trend) := by
  induction rows generalizing p way with
  | nil =>
    constructor
    · intro _
      exact ⟨way, .inr rfl, .singleton p⟩
    · intro _
      trivial
  | cons q rows ih =>
    obtain ⟨hp, finite⟩ := List.forall_mem_cons.mp finite
    have hq := finite q List.mem_cons_self
    simp only [Keeps, ih finite, List.isChain_cons_cons]
    by_cases neighbour : p.1.ordinal + 1 = q.1.ordinal
    · have step {trend : Trend} : Follows trend p q ↔ trend.Moves p.2.y q.2.y :=
        ⟨fun h => h neighbour, fun h _ => h⟩
      simp only [next?_of_neighbour neighbour hp hq, step]
      constructor
      · rintro ⟨trend, ⟨moves, kept⟩, trend', same | rfl, chain⟩
        · rw [same] at moves
          exact moves.elim
        · exact ⟨trend, kept, moves, chain⟩
      · rintro ⟨trend, kept, moves, chain⟩
        exact ⟨trend, ⟨moves, kept⟩, trend, .inr rfl, chain⟩
    · have free {trend : Trend} : Follows trend p q := fun h => absurd h neighbour
      have kept : next? (some (seenAt edge p way)) q = some way := if_neg neighbour
      simp only [kept, free, true_and, Option.some.injEq, exists_eq_left']

/-- An edge accepts the rows whose neighbours move one way. -/
theorem keeps_iff (finite : ∀ q ∈ rows, Scalar.isFinite q.2.y = true) :
    Keeps edge none rows ↔ ∃ trend, rows.IsChain (Follows trend) := by
  cases rows with
  | nil => exact ⟨fun _ => ⟨.unknown, .nil⟩, fun _ => trivial⟩
  | cons p rows =>
    simp only [Keeps, next?, Option.some.injEq, exists_eq_left', keeps_seenAt_iff finite, true_or,
      true_and]

end Ways

/-! ## Rows without a gap -/

variable {q : Pin × Location R}

/-- Neighbours in an ordered list are all pairs of neighbouring ordinals. -/
theorem isChain_follows_iff (sorted : rows.Pairwise fun p q => p.1.ordinal < q.1.ordinal) :
    rows.IsChain (Follows trend) ↔ ∀ p ∈ rows, ∀ q ∈ rows, Follows trend p q := by
  constructor
  · intro chain
    induction rows with
    | nil => exact List.forall_mem_nil _
    | cons a rows ih =>
      obtain ⟨least, behind⟩ := List.pairwise_cons.mp sorted
      intro p hp q hq neighbour
      -- The second pin is not the first of the list, since the other one is below it.
      have later : q ∈ rows := by
        rcases List.mem_cons.mp hq with rfl | later
        · rcases List.mem_cons.mp hp with rfl | hp
          · omega
          · have := least p hp
            omega
        · exact later
      rcases List.mem_cons.mp hp with rfl | hp
      · cases rows with
        | nil => cases later
        | cons b rows =>
          rcases List.mem_cons.mp later with rfl | beyond
          · exact (List.isChain_cons_cons.mp chain).1 neighbour
          · have first := least b List.mem_cons_self
            have second := (List.pairwise_cons.mp behind).1 q beyond
            omega
      · exact ih behind chain.tail p hp q later neighbour
  · intro all
    exact (List.pairwise_of_forall_mem_list all).isChain

omit [Scalar R] in
theorem mem_rowsOf : p ∈ rowsOf layer face edge pins ↔
    p ∈ pins ∧ p.1.face = face ∧ layer.edgeOf p.1.ordinal = some edge := by
  rw [rowsOf, List.mem_filter, decide_eq_true_eq]

omit [Scalar R] in
/-- The pins of an edge are read in the order of their ordinals. -/
theorem InOrder.sorted_rowsOf (ordered : InOrder pins) :
    (rowsOf layer face edge pins).Pairwise fun p q => p.1.ordinal < q.1.ordinal := by
  refine (ordered.filter _).imp_of_mem fun hp hq before => ?_
  obtain ⟨-, front, -⟩ := mem_rowsOf.mp hp
  obtain ⟨-, back, -⟩ := mem_rowsOf.mp hq
  rcases Pin.before_iff.mp before with ⟨first, second⟩ | ⟨-, below⟩
  · rw [← back, second] at front
    cases first.symm.trans front
  · exact below

/-- Pins without a gap move as neighbours do. -/
theorem Joined.moves [SteppedScalar R]
    (follow : ∀ p ∈ rowsOf layer face edge t.pins, ∀ q ∈ rowsOf layer face edge t.pins,
      Follows trend p q) (joined : t.Joined layer face edge p q) :
    trend.Moves p.2.y q.2.y := by
  obtain ⟨k, gap⟩ : ∃ k, q.1.ordinal = p.1.ordinal + k + 1 :=
    ⟨q.1.ordinal - p.1.ordinal - 1, by have := joined.before; omega⟩
  induction k generalizing q with
  | zero => exact follow p joined.first q joined.second gap.symm
  | succ k ih =>
    obtain ⟨location, there⟩ := joined.whole (p.1.ordinal + k + 1) (by omega) (by omega)
    obtain ⟨-, -, low⟩ := mem_rowsOf.mp joined.first
    obtain ⟨-, -, high⟩ := mem_rowsOf.mp joined.second
    have on : layer.edgeOf (p.1.ordinal + k + 1) = some edge :=
      Layer.edgeOf_between low high (by omega) (by omega)
    have second := mem_rowsOf.mpr ⟨there, rfl, on⟩
    have shorter : t.Joined layer face edge p (⟨face, p.1.ordinal + k + 1⟩, location) := by
      refine ⟨⟨joined.first, second, ?_⟩, fun n least most => joined.whole n least ?_⟩
      · show p.1.ordinal < p.1.ordinal + k + 1
        omega
      · have most : n ≤ p.1.ordinal + k + 1 := most
        omega
    exact (ih shorter rfl).trans (follow _ second q joined.second gap.symm)

omit [Scalar R] in
/-- Neighbouring ordinals are joined. -/
theorem joined_of_neighbour (hp : p ∈ rowsOf layer face edge t.pins)
    (hq : q ∈ rowsOf layer face edge t.pins) (neighbour : p.1.ordinal + 1 = q.1.ordinal) :
    t.Joined layer face edge p q := by
  refine ⟨⟨hp, hq, by omega⟩, fun n least most => ?_⟩
  obtain ⟨there, rfl, -⟩ := mem_rowsOf.mp hp
  obtain ⟨there', same, -⟩ := mem_rowsOf.mp hq
  rcases Nat.lt_or_eq_of_le most with below | rfl
  · obtain rfl : n = p.1.ordinal := by omega
    exact ⟨p.2, there⟩
  · exact ⟨q.2, same ▸ there'⟩

/-- The neighbours of an edge move one way exactly if all pins without a gap do. -/
theorem InOrder.exists_isChain_iff [SteppedScalar R] (ordered : InOrder t.pins) :
    (∃ trend, (rowsOf layer face edge t.pins).IsChain (Follows trend)) ↔
      OneWay (t.Joined layer face edge) := by
  simp only [isChain_follows_iff ordered.sorted_rowsOf]
  constructor
  · rintro ⟨trend, follow⟩
    cases trend with
    | unknown => exact .inl fun p q joined => (joined.moves follow).elim
    | up => exact .inl fun p q joined => joined.moves follow
    | down => exact .inr fun p q joined => joined.moves follow
  · rintro (rise | fall)
    · refine ⟨.up, fun p hp q hq neighbour => ?_⟩
      exact rise p q (joined_of_neighbour hp hq neighbour)
    · refine ⟨.down, fun p hp q hq neighbour => ?_⟩
      exact fall p q (joined_of_neighbour hp hq neighbour)

/-! ## Accepted tables -/

/-- A table is accepted exactly when it fits the layer. -/
theorem Made.validate_eq_ok_iff [SteppedScalar R] (made : t.Made) (layer : Layer R) :
    t.validate layer = .ok () ↔ t.Fits layer := by
  have finite {face edge} : ∀ q ∈ rowsOf layer face edge t.pins, Scalar.isFinite q.2.y = true :=
    fun q hq => made.isFinite_y q (mem_rowsOf.mp hq).1
  have rows : KeepAll layer [] t.pins ↔ ∀ face edge, edge.isVertical = true →
      OneWay (t.Joined layer face edge) := by
    refine forall_congr' fun face => forall_congr' fun edge => forall_congr' fun _ => ?_
    rw [← made.inOrder.exists_isChain_iff, ← keeps_iff finite]
    rfl
  unfold validate
  split
  · next other =>
    constructor
    · nofun
    · intro fits
      exact absurd fits.named other
  · next named =>
    rw [checkPins_eq_ok_iff, rows]
    constructor
    · rintro ⟨edges, oneWay⟩
      refine ⟨not_not.mp named, fun p hp => ?_, edges, oneWay⟩
      obtain ⟨edge, found⟩ := edges p hp
      exact (Layer.edgeOf_eq_some_iff.mp found).1
    · intro fits
      exact ⟨fits.edges, fits.rows⟩

/-! ## A table with a gap -/

/-- A layer whose right edge has the ordinals from three to six. -/
def gappedLayer : Layer Float :=
  ⟨"G", 12, 4, 2, none, Scalar.ofNat 5, Scalar.zero, Scalar.ofNat 5,
    ⟨.bottomLeft, .counterClockwise⟩⟩

theorem make_gappedLayer :
    Layer.make "G" 4 2 none (Scalar.ofNat 5) ⟨.bottomLeft, .counterClockwise⟩ =
      .ok gappedLayer := by
  have pitch : Layer.pitchOk (Scalar.ofNat 5 : Float) = true := by decide +kernel
  simp [Layer.make, Layer.countLimit, UInt32.size, Layer.slope, pitch, gappedLayer]

/-- Three rows of its right edge: the ordinal before the last is missing, and the last row is below
the one before. -/
def gappedPoints : List (Pin × Float × Float) :=
  [(.front 3, Scalar.zero, Scalar.zero), (.front 4, Scalar.zero, Scalar.ofNat 10),
    (.front 6, Scalar.zero, Scalar.ofNat 5)]

/-- The table of these rows. -/
def gapped : PinTable Float :=
  ⟨"G", Scalar.zero, Scalar.ofNat 1, gappedPoints.map (placed Scalar.zero (Scalar.ofNat 1))⟩

theorem make_gapped : make "G" Scalar.zero (Scalar.ofNat 1) gappedPoints = .ok gapped := by
  have ordered : InOrder gapped.pins := by
    simp [InOrder, gapped, gappedPoints, placed, Pin.before, Pin.front]
  have depths : ∀ p ∈ gapped.pins, p.2.z = depth Scalar.zero (Scalar.ofNat 1) p.1.face := by
    intro p hp
    obtain ⟨point, -, rfl⟩ := List.mem_map.mp hp
    rfl
  have finite : gapped.pins.all (·.2.isFinite) = true := by decide +kernel
  have collected : collect Scalar.zero (Scalar.ofNat 1) [] gappedPoints = .ok gapped.pins :=
    ordered.collect depths (List.all_eq_true.mp finite)
  rw [make, collected]
  rfl

theorem validate_gapped : gapped.validate gappedLayer = .ok () := by
  decide +kernel

/-- The table of three rows is accepted and fits. -/
theorem gapped_fits : gapped.Made ∧ gapped.validate gappedLayer = .ok () ∧
    gapped.Fits gappedLayer := by
  have made : gapped.Made := ⟨_, _, _, _, make_gapped⟩
  exact ⟨made, validate_gapped, (made.validate_eq_ok_iff gappedLayer).mp validate_gapped⟩

theorem inRow_gapped (i j : Fin 3) (before : i < j) :
    gapped.InRow gappedLayer .front .right (gapped.pins.get i) (gapped.pins.get j) := by
  have rows : rowsOf gappedLayer .front .right gapped.pins = gapped.pins := rfl
  refine ⟨?_, ?_, ?_⟩
  · rw [rows]
    exact List.get_mem gapped.pins i
  · rw [rows]
    exact List.get_mem gapped.pins j
  · revert i j
    decide

/-- The table of three rows is accepted, and along the edge its heights neither rise nor fall. -/
theorem gapped_not_oneWay :
    Layer.make "G" 4 2 none (Scalar.ofNat 5) ⟨.bottomLeft, .counterClockwise⟩ = .ok gappedLayer ∧
      make "G" Scalar.zero (Scalar.ofNat 1) gappedPoints = .ok gapped ∧
      gapped.validate gappedLayer = .ok () ∧
      ¬∀ face edge, edge.isVertical = true → OneWay (gapped.InRow gappedLayer face edge) := by
  refine ⟨make_gappedLayer, make_gapped, validate_gapped, fun oneWay => ?_⟩
  rcases oneWay .front .right rfl with rise | fall
  · have up := rise _ _ (inRow_gapped 1 2 (by decide))
    revert up
    decide +kernel
  · have down := fall _ _ (inRow_gapped 0 1 (by decide))
    revert down
    decide +kernel

end PinTable

end Winding
