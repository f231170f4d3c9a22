import Winding.Proofs.Calibration.Monotone
import Winding.Proofs.Execution.Operations

/-!
# Valid configurations

The pins of a layer are counted in 32 bits: those of two edges before anything is checked, those of
all four once the pitches are accepted. Either count may be too large for its bits, and then the
configuration is neither accepted nor refused (`Configuration.validate_overflow_iff`). One that is
accepted can be run with: its pins are counted right, and neither the place of a point in the box,
nor the edge of a pin, nor the validation of a table ends without a result
(`Configuration.validate_total`). For the latter two the counts are followed step by step
(`Layer.countedEdgeOf?`, `PinTable.countedValidate`).
-/

namespace Winding

/-! ## Counts of 32 bits -/

namespace Layer

/-- The sum of two counts, if a count can hold it. -/
def add? (a b : Nat) : Option Nat := if a + b < countLimit then some (a + b) else none

/-- What is left of a count, if no more is taken off. -/
def sub? (a b : Nat) : Option Nat := if b ≤ a then some (a - b) else none

variable {R : Type} {layer : Layer R} {edges : List FrameEdge} {n : Nat}

/-- The edge of a pin of a walk, found with counts; `none` where one of them does not hold. -/
def countedEdgeAt? (layer : Layer R) : List FrameEdge → Nat → Option (Option FrameEdge)
  | [], _ => some none
  | edge :: edges, remaining =>
    if remaining ≤ layer.pinsAlong edge then some (some edge)
    else (sub? remaining (layer.pinsAlong edge)).bind (layer.countedEdgeAt? edges)

/-- The edge of an ordinal, found with counts. -/
def countedEdgeOf? (layer : Layer R) (ordinal : Nat) : Option (Option FrameEdge) :=
  if ordinal = 0 ∨ layer.pinCount < ordinal then some none
  else layer.countedEdgeAt? layer.numbering.edges ordinal

/-- The pins of an edge are taken off only where there are more. -/
theorem countedEdgeAt?_eq (layer : Layer R) (edges : List FrameEdge) (n : Nat) :
    layer.countedEdgeAt? edges n = some (layer.edgeAt edges n) := by
  induction edges generalizing n with
  | nil => rfl
  | cons edge edges ih =>
    unfold countedEdgeAt? edgeAt
    split
    · rfl
    · next past =>
      rw [sub?, if_pos (by omega), Option.bind_some, ih]

theorem countedEdgeOf?_eq (layer : Layer R) (n : Nat) :
    layer.countedEdgeOf? n = some (layer.edgeOf n) := by
  unfold countedEdgeOf? edgeOf
  split
  · rfl
  · exact layer.countedEdgeAt?_eq _ n

end Layer

namespace PinTable

variable {R : Type} [Scalar R] {layer : Layer R} {seen : List (Seen R)}

/-- Checks the pins after those seen with counts. -/
def countedCheck (layer : Layer R) (seen : List (Seen R)) :
    List (Pin × Location R) → Except (Abort CalibrationError) Unit
  | [] => .ok ()
  | (pin, location) :: pins =>
    match layer.countedEdgeOf? pin.ordinal with
    | none => .error .overflow
    | some none => .error (.error (.outOfRange pin layer.name layer.pinCount))
    | some (some edge) =>
      if !edge.isVertical then countedCheck layer seen pins
      else
        let now (trend : Trend) : List (Seen R) :=
          remember ⟨pin.face, edge, pin.ordinal, location.y, trend⟩ seen
        match seen.find? (fun t => t.face = pin.face ∧ t.edge = edge) with
        | none => countedCheck layer (now .unknown) pins
        | some last =>
          match Layer.add? last.ordinal 1 with
          | none => .error .overflow
          | some next =>
            if next = pin.ordinal then
              match trendOf (location.y - last.y) with
              | none => .error (.error (.notMonotonic pin))
              | some trend =>
                if last.trend ≠ .unknown ∧ trend ≠ last.trend then
                  .error (.error (.notMonotonic pin))
                else countedCheck layer (now trend) pins
            else countedCheck layer (now last.trend) pins

/-- Validates a table with counts. -/
def countedValidate (t : PinTable R) (layer : Layer R) : Except (Abort CalibrationError) Unit :=
  if t.layer ≠ layer.name then .error (.error (.layerMismatch layer.name t.layer))
  else countedCheck layer [] t.pins

/-- Ordinals that were seen are those of pins, so there is a count after each of them. -/
theorem countedCheck_eq (fits : layer.pinCount + 1 < Layer.countLimit)
    (pins : List (Pin × Location R)) (below : ∀ s ∈ seen, s.ordinal ≤ layer.pinCount) :
    countedCheck layer seen pins = (checkPins layer seen pins).mapError .error := by
  induction pins generalizing seen with
  | nil => rfl
  | cons p pins ih =>
    obtain ⟨pin, location⟩ := p
    rw [countedCheck, checkPins, Layer.countedEdgeOf?_eq]
    cases found : layer.edgeOf pin.ordinal with
    | none => rfl
    | some edge =>
      have inside : pin.ordinal ≤ layer.pinCount := (Layer.edgeOf_eq_some_iff.mp found).1.2
      have remembered (trend : Trend) :
          ∀ s ∈ remember ⟨pin.face, edge, pin.ordinal, location.y, trend⟩ seen,
            s.ordinal ≤ layer.pinCount :=
        List.forall_mem_cons.mpr ⟨inside, fun s hs => below s (List.mem_of_mem_filter hs)⟩
      -- Both checks compare the pin with the one seen last on this edge.
      show (if _ then _ else match lastOn pin.face edge seen with | none => _ | some last => _) =
        Except.mapError _
          (if _ then _ else match lastOn pin.face edge seen with | none => _ | some last => _)
      cases before : lastOn pin.face edge seen with
      | none =>
        split
        · exact ih below
        · exact ih (remembered .unknown)
      | some last =>
        have counted : Layer.add? last.ordinal 1 = some (last.ordinal + 1) :=
          if_pos (by have := below last (List.mem_of_find?_eq_some before); omega)
        simp only [counted]
        split
        · exact ih below
        · split
          · cases trendOf (location.y - last.y) with
            | none => rfl
            | some trend =>
              simp only
              split
              · rfl
              · exact ih (remembered trend)
          · exact ih (remembered last.trend)

theorem countedValidate_eq (fits : layer.pinCount + 1 < Layer.countLimit) (t : PinTable R) :
    t.countedValidate layer = (t.validate layer).mapError .error := by
  unfold countedValidate validate
  split
  · rfl
  · exact countedCheck_eq fits t.pins nofun

end PinTable

/-! ## Boxes -/

theorem TransferBox.clip?_eq_some {R : Type} [Scalar R] [OrderedScalar R] [LegibleScalar R]
    {b : TransferBox R} (valid : b.validate = .ok ()) (p : Location R) :
    b.clip? p = some (b.clip p) := by
  have le {low high : R} (lowOk : Scalar.isFinite low = true) (highOk : Scalar.isFinite high = true)
      (below : ¬Scalar.le high low = true) : Scalar.le low high = true := by
    have low := OrderedScalar.isNaN_of_isFinite low lowOk
    have high := OrderedScalar.isNaN_of_isFinite high highOk
    have lt := OrderedScalar.lt_of_not_le _ _ low high (eq_false_of_ne_true below)
    exact OrderedScalar.le_of_not_lt _ _ low high (LegibleScalar.lt_asymm lt)
  unfold validate at valid
  split at valid
  · cases valid
  · next finite =>
    simp only [List.any_cons, List.any_nil, Bool.or_false, Bool.or_eq_true, Bool.not_eq_true',
      not_or, Bool.not_eq_false] at finite
    obtain ⟨top, bottom, left, right, -⟩ := finite
    split at valid
    · cases valid
    · next across =>
      split at valid
      · cases valid
      · next up =>
        rw [clip?, le left right across, le bottom top up]
        rfl

/-! ## Layers -/

variable {R : Type} [Scalar R] {c : Configuration R} {l : LayerSettings R}

/-- Whether the pins of a layer are too many to count: those of two edges, which are counted before
anything is checked, or those of all four, which are counted once the pitches are accepted. -/
def LayerSettings.Overflows (l : LayerSettings R) : Prop :=
  Layer.countLimit ≤ l.rows + l.columns ∨
    Layer.countLimit ≤ 2 * (l.rows + l.columns) ∧ Layer.pitchOk l.pitchY = true ∧
      ∀ dx ∈ l.pitchX, Layer.pitchOk dx = true

theorem Layer.make_overflow_iff {name : String} {rows columns : Nat} {pitchX : Option R}
    {pitchY : R} {numbering : Numbering} :
    make name rows columns pitchX pitchY numbering = .error .overflow ↔
      countLimit ≤ rows + columns ∨ countLimit ≤ 2 * (rows + columns) ∧ pitchOk pitchY = true ∧
        ∀ dx ∈ pitchX, pitchOk dx = true := by
  by_cases most : countLimit ≤ rows + columns
  · simp [make, most]
  · by_cases none : rows + columns = 0
    · have room : countLimit ≠ 0 := by decide
      simp [make, none, room]
    · unfold make
      simp only [if_neg none, most, false_or]
      cases pitchOk pitchY with
      | false => simp
      | true =>
        cases pitchX with
        | none => by_cases all : countLimit ≤ 2 * (rows + columns) <;> simp [all]
        | some dx =>
          cases ok : pitchOk dx with
          | false => simp [Option.filter, ok]
          | true =>
            by_cases all : countLimit ≤ 2 * (rows + columns) <;> simp [Option.filter, ok, all]

theorem LayerSettings.layerGeometry_overflow_iff :
    Configuration.layerGeometry l = .error .overflow ↔ l.Overflows :=
  Layer.make_overflow_iff

namespace Configuration

/-- Whether the pins of some layer are too many to count, where all that is checked before them is
accepted. -/
structure Overflows (c : Configuration R) : Prop where
  machine : validateMachine (R := R) c.machine = .ok ()
  rates : c.rates.validate = .ok ()
  envelope : ∃ envelope, c.envelope = .ok envelope
  layers : ∃ before l after, c.layers = before ++ l :: after ∧
    (∀ l' ∈ before, ∃ layer, layerGeometry l' = .ok layer) ∧ l.Overflows

theorem validate_overflow_iff : c.validate = .error .overflow ↔ c.Overflows := by
  constructor
  · intro h
    rcases bind_eq_error h with h | ⟨⟨⟩, machine, h⟩
    · obtain ⟨e, -, ⟨⟩⟩ := mapError_eq_error h
    rcases bind_eq_error h with h | ⟨⟨⟩, rates, h⟩
    · obtain ⟨e, -, ⟨⟩⟩ := mapError_eq_error h
    rcases bind_eq_error h with h | ⟨envelope, made, h⟩
    · obtain ⟨e, -, ⟨⟩⟩ := mapError_eq_error h
    rcases bind_eq_error h with h | ⟨layers, -, ⟨⟩⟩
    obtain ⟨e, failed, same⟩ := mapError_eq_error h
    cases e with
    | error => cases same
    | overflow =>
      obtain ⟨before, l, after, split, accepted, failed⟩ := mapM_eq_error_iff.mp failed
      exact ⟨mapError_eq_ok machine, mapError_eq_ok rates, ⟨envelope, mapError_eq_ok made⟩, before,
        l, after, split, accepted, LayerSettings.layerGeometry_overflow_iff.mp failed⟩
  · rintro ⟨machine, rates, ⟨envelope, made⟩, before, l, after, split, accepted, overflows⟩
    have failed : c.layerGeometries = .error .overflow :=
      mapM_eq_error_iff.mpr ⟨before, l, after, split, accepted,
        LayerSettings.layerGeometry_overflow_iff.mpr overflows⟩
    unfold validate
    rw [machine, rates, made, failed]
    rfl

/-- Where the pins of every layer can be counted, nothing overflows. -/
theorem not_overflows (fit : ∀ l ∈ c.layers, 2 * (l.rows + l.columns) < Layer.countLimit) :
    ¬c.Overflows := by
  rintro ⟨-, -, -, before, l, after, split, -, overflows⟩
  have fits := fit l (split ▸ List.mem_append_right before List.mem_cons_self)
  rcases overflows with most | ⟨all, -⟩
  · omega
  · omega

/-- What is computed of an accepted layer, whatever the ordinals and the tables are: its pins are
counted right, and no count is left. -/
structure Sound (l : LayerSettings R) (layer : Layer R) : Prop where
  counted : layer.pinCount = 2 * (l.rows + l.columns)
  some : 2 ≤ layer.pinCount
  fits : layer.pinCount < Layer.countLimit
  edges : ∀ n, layer.countedEdgeOf? n = Option.some (layer.edgeOf n)
  tables : ∀ t : PinTable R, t.countedValidate layer = (t.validate layer).mapError .error

theorem sound_of_layerGeometry {layer : Layer R} (made : layerGeometry l = .ok layer) :
    Sound l layer := by
  obtain ⟨some, fits, rfl⟩ := Layer.make_eq_ok made
  have even : Layer.countLimit % 2 = 0 := by decide
  exact ⟨rfl, by show 2 ≤ 2 * _; omega, fits, Layer.countedEdgeOf?_eq _,
    PinTable.countedValidate_eq (by show 2 * _ + 1 < _; omega)⟩

/-- What a configuration promises to the machine that runs with it. -/
structure Usable (c : Configuration R) : Prop where
  envelope : ∃ envelope, c.envelope = .ok envelope ∧
    ∀ p, envelope.transfer.clip? p = some (envelope.transfer.clip p)
  layers : ∃ layers, c.layerGeometries = .ok layers ∧ List.Forall₂ Sound c.layers layers

theorem usable_of_valid [OrderedScalar R] [LegibleScalar R] (valid : c.validate = .ok ()) :
    c.Usable := by
  obtain ⟨-, envelope, layers, made, laidOut⟩ := validate_eq_ok valid
  refine ⟨⟨envelope, made, ?_⟩, layers, laidOut, ?_⟩
  · obtain ⟨⟨⟩, -, boxed⟩ := bind_eq_ok made
    obtain ⟨⟨⟩, box, ⟨⟩⟩ := bind_eq_ok boxed
    exact TransferBox.clip?_eq_some box
  · exact (mapM_eq_ok_iff.mp laidOut).imp fun _ _ => sound_of_layerGeometry

/-- A configuration is validated without leaving a count exactly if no layer has too many pins, as
long as all before it is accepted. One that is accepted is safe to run with: its pins are counted
right, and its boxes, edges and tables never end without a result. -/
theorem validate_total [OrderedScalar R] [LegibleScalar R] (c : Configuration R) :
    (c.validate = .error .overflow ↔ c.Overflows) ∧
    ((∀ l ∈ c.layers, 2 * (l.rows + l.columns) < Layer.countLimit) →
      c.validate = .ok () ∨ ∃ e, c.validate = .error (.error e)) ∧
    (c.validate = .ok () → c.Usable) := by
  refine ⟨validate_overflow_iff, fun fit => ?_, usable_of_valid⟩
  cases validated : c.validate with
  | ok => exact .inl rfl
  | error stop =>
    cases stop with
    | error e => exact .inr ⟨e, rfl⟩
    | overflow => exact absurd (validate_overflow_iff.mp validated) (not_overflows fit)

/-- The defaults are accepted, and are safe to run with. -/
theorem standard_usable :
    (∀ l ∈ (standard : Configuration Float).layers, 2 * (l.rows + l.columns) < Layer.countLimit) ∧
      (standard : Configuration Float).validate = .ok () ∧
      (standard : Configuration Float).Usable :=
  ⟨by decide, standard_valid, (validate_total standard).2.2 standard_valid⟩

/-- A document with one layer, whose rows and columns are counts of 32 bits and whose sum is not. -/
def crowdedText : String := "[layers.X]\nrows = 4294967295\ncolumns = 1\ndelta_y = 5.0\n"

/-- Its pins are too many to count, and it is neither accepted nor refused. -/
theorem crowded_overflows : ∃ c : Configuration Float, ofText? crowdedText = some c ∧
    (∀ l ∈ c.layers, l.rows < Layer.countLimit ∧ l.columns < Layer.countLimit) ∧
      c.validate = .error .overflow := by
  have read : (ofText? (R := Float) crowdedText).any (fun c =>
      c.layers.all (fun l => l.rows < Layer.countLimit ∧ l.columns < Layer.countLimit) &&
        c.validate matches .error .overflow) = true := by
    decide +kernel
  rcases found : ofText? (R := Float) crowdedText with _ | c
  · rw [found] at read
    cases read
  · rw [found, Option.any_some, Bool.and_eq_true, List.all_eq_true] at read
    obtain ⟨counts, overflows⟩ := read
    refine ⟨c, rfl, fun l hl => of_decide_eq_true (counts l hl), ?_⟩
    split at overflows
    · next validated => exact validated
    · cases overflows

end Configuration

end Winding
