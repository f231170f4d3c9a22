import Winding.Proofs.Calibration.Pins
import Winding.Proofs.Files.Writing
import Winding.Proofs.Markup.RoundTrip
import Winding.Proofs.Number.Legible

/-!
# Tables are read back from their texts

A table that was built from measured points or read from a document is well formed
(`PinTable.Built.wellFormed`). Its text has no offset, so that reading it back adds zero to every
coordinate and nothing else (`PinTable.WellFormed.ofText_text`). However often a table is written and
read, it agrees with the one at the start, whose offset was added once
(`PinTable.Built.reloaded_agrees`).
-/

namespace Winding

theorem Location.isFinite_iff {R : Type} [Scalar R] {l : Location R} : l.isFinite = true ↔
    Scalar.isFinite l.x = true ∧ Scalar.isFinite l.y = true ∧ Scalar.isFinite l.z = true := by
  rw [isFinite, Bool.and_eq_true_iff, Bool.and_eq_true_iff, and_assoc]

namespace PinTable

variable {R : Type} [Scalar R] {t : PinTable R}

/-! ## Well-formed tables -/

/-- What all tables have that can be written. -/
structure WellFormed (t : PinTable R) : Prop where
  front : Scalar.isFinite t.zFront = true
  back : Scalar.isFinite t.zBack = true
  ordered : InOrder t.pins
  numbered : ∀ p ∈ t.pins, p.1.IsNumbered
  finite : ∀ p ∈ t.pins, p.2.isFinite = true
  depths : ∀ p ∈ t.pins, p.2.z = depth t.zFront t.zBack p.1.face

/-- How tables come about. -/
inductive Built : PinTable R → Prop
  /-- From measured points of pins whose ordinals count from one. -/
  | points {layer zFront zBack points t}
      (numbered : ∀ point ∈ points, Pin.IsNumbered point.1)
      (made : make layer zFront zBack points = .ok t) : Built t
  /-- From a document. -/
  | read {text t} (read : ofText text = .ok t) : Built t

theorem make_eq_ok {layer : String} {zFront zBack : R} {points : List (Pin × R × R)}
    (h : make layer zFront zBack points = .ok t) :
    (t.layer = layer ∧ t.zFront = zFront ∧ t.zBack = zBack) ∧ InOrder t.pins ∧
      (∀ p, p ∈ t.pins ↔ p ∈ points.map (placed zFront zBack)) ∧
      ∀ p ∈ points.map (placed zFront zBack), p.2.isFinite = true := by
  obtain ⟨pins, collected, h⟩ := bind_eq_ok h
  obtain rfl := Except.ok.inj h
  obtain ⟨ordered, members, finite⟩ := collect_eq_ok List.Pairwise.nil collected
  exact ⟨⟨rfl, rfl, rfl⟩, ordered, fun p => (members p).trans (by simp), finite⟩

/-- The table of points with good ordinals and finite depths is well formed. -/
theorem wellFormed_of_make {layer : String} {zFront zBack : R} {points : List (Pin × R × R)}
    (h : make layer zFront zBack points = .ok t)
    (numbered : ∀ point ∈ points, Pin.IsNumbered point.1)
    (front : Scalar.isFinite t.zFront = true) (back : Scalar.isFinite t.zBack = true) :
    t.WellFormed := by
  obtain ⟨⟨-, rfl, rfl⟩, ordered, members, finite⟩ := make_eq_ok h
  refine ⟨front, back, ordered, fun p hp => ?_, fun p hp => finite p ((members p).mp hp),
    fun p hp => ?_⟩
  · obtain ⟨point, hpoint, rfl⟩ := List.mem_map.mp ((members p).mp hp)
    exact numbered point hpoint
  · obtain ⟨point, -, rfl⟩ := List.mem_map.mp ((members p).mp hp)
    rfl

/-- The parts of a document with an offset, and the points with the offset added, once. -/
theorem ofText_eq_ok {text : String} (h : ofText text = .ok t) :
    ∃ d layer zFront zBack dx dy points shifts, Markup.Document.ofText? text = some d ∧
      parts? d = some (layer, zFront, zBack, (dx, dy), points) ∧
      shifted dx dy points = .ok shifts ∧ make layer zFront zBack shifts = .ok t := by
  unfold ofText at h
  split at h
  · cases h
  · next d document =>
    unfold ofDocument at h
    split at h
    · cases h
    · next layer zFront zBack dx dy points parts =>
      obtain ⟨shifts, moved, made⟩ := bind_eq_ok h
      exact ⟨d, layer, zFront, zBack, dx, dy, points, shifts, document, parts, moved, made⟩

theorem shifted_eq_ok {dx dy : R} {points : List (String × R × R)} {shifts : List (Pin × R × R)}
    (h : shifted dx dy points = .ok shifts) :
    List.Forall₂ (fun p q => Pin.ofText? p.1 = some q.1 ∧ q.2 = (p.2.1 + dx, p.2.2 + dy))
      points shifts := by
  refine (mapM_eq_ok_iff.mp h).imp fun p q moved => ?_
  obtain ⟨id, x, y⟩ := p
  simp only at moved
  split at moved
  · cases moved
  · next pin read =>
    obtain rfl := Except.ok.inj moved
    exact ⟨read, rfl⟩

/-- A table that was built is well formed, given finite depths. -/
theorem Built.wellFormed (built : t.Built) (front : Scalar.isFinite t.zFront = true)
    (back : Scalar.isFinite t.zBack = true) : t.WellFormed := by
  cases built with
  | points numbered made => exact wellFormed_of_make made numbered front back
  | read read =>
    obtain ⟨_, _, _, _, _, _, points, shifts, -, -, moved, made⟩ := ofText_eq_ok read
    refine wellFormed_of_make made (fun q hq => ?_) front back
    obtain ⟨p, -, named, -⟩ := exists_of_forall₂ (shifted_eq_ok moved) q hq
    exact Pin.isNumbered_of_ofText? named

/-! ## Documents -/

/-- What is written of a pin: its identifier and its point. -/
def written (p : Pin × Location R) : String × R × R := (p.1.text, p.2.x, p.2.y)

/-- The element of a point. -/
def pointTag (point : String × R × R) : Markup.Tag :=
  ⟨"pin", [("id", point.1), ("x", Scalar.text point.2.1), ("y", Scalar.text point.2.2)]⟩

theorem children_eq (t : PinTable R) :
    t.document.children = (t.pins.map written).map pointTag := by
  rw [List.map_map]
  rfl

/-- The names of the attributes of a table. -/
def rootKeys : List String := ["layer", "zFront", "zBack"]

/-- The names of the attributes of a point. -/
def pointKeys : List String := ["id", "x", "y"]

theorem root_keys (t : PinTable R) :
    (t.document.root.attributes.map (·.1)).Sublist rootKeys := List.Sublist.refl _

theorem point_keys (point : String × R × R) :
    ((pointTag point).attributes.map (·.1)).Sublist pointKeys := List.Sublist.refl _

theorem mem_children {tag : Markup.Tag} (h : tag ∈ t.document.children) :
    ∃ point, tag = pointTag (R := R) point := by
  rw [children_eq] at h
  obtain ⟨point, -, rfl⟩ := List.mem_map.mp h
  exact ⟨point, rfl⟩

/-- The document of a table is plain, whatever its layer is called. -/
theorem document_isPlain (t : PinTable R) : t.document.IsPlain := by
  have root : ∀ name ∈ "LayerCalibration" :: rootKeys, Markup.IsName name.toList :=
    Markup.IsName.of_all (by decide)
  have point : ∀ name ∈ "pin" :: pointKeys, Markup.IsName name.toList :=
    Markup.IsName.of_all (by decide)
  refine ⟨.of_sublist t.root_keys (by decide) root, fun tag htag => ?_⟩
  obtain ⟨p, rfl⟩ := mem_children htag
  exact .of_sublist (point_keys p) (by decide) point

/-- A document without an offset shifts nothing but the sign of zeros. -/
theorem offset?_document (t : PinTable R) :
    (offset? t.document.children : Option (R × R)) = some (Scalar.zero, Scalar.zero) := by
  have none : t.document.children.filter (·.name == "offset") = [] := by
    refine List.filter_eq_nil_iff.mpr fun tag htag => ?_
    obtain ⟨point, rfl⟩ := mem_children htag
    nofun
  rw [offset?, none]

section Reading

variable [LegibleScalar R]

/-- The points are read as they were written. -/
theorem points?_document (finite : ∀ p ∈ t.pins, p.2.isFinite = true) :
    points? t.document.children = some (t.pins.map written) := by
  have pins : t.document.children.filter (·.name == "pin") = t.document.children := by
    refine List.filter_eq_self.mpr fun tag htag => ?_
    obtain ⟨point, rfl⟩ := mem_children htag
    rfl
  rw [points?, pins, children_eq]
  refine mapM_map_eq_some fun point hpoint => ?_
  obtain ⟨p, hp, rfl⟩ := List.mem_map.mp hpoint
  obtain ⟨x, y, -⟩ := Location.isFinite_iff.mp (finite p hp)
  have within : (pointTag (written p)).within ["id", "x", "y"] = true :=
    Markup.Tag.within_of_sublist (point_keys _) (by decide)
  have id? : (pointTag (written p)).get? "id" = some p.1.text := rfl
  have x? : number? (pointTag (written p)) "x" = some p.2.x := LegibleScalar.ofText?_text _ x
  have y? : number? (pointTag (written p)) "y" = some p.2.y := LegibleScalar.ofText?_text _ y
  rw [if_pos within, id?, x?, y?]
  rfl

/-- The parts of a table's document are those of the table. -/
theorem WellFormed.parts?_document (h : t.WellFormed) : parts? t.document =
    some (t.layer, t.zFront, t.zBack, (Scalar.zero, Scalar.zero), t.pins.map written) := by
  have within : t.document.root.within ["layer", "zFront", "zBack"] = true :=
    Markup.Tag.within_of_sublist t.root_keys (by decide)
  have named : t.document.children.all (fun tag => tag.name == "offset" || tag.name == "pin") := by
    refine List.all_eq_true.mpr fun tag htag => ?_
    obtain ⟨p, rfl⟩ := mem_children htag
    rfl
  have layer : t.document.root.get? "layer" = some t.layer := rfl
  have front : number? t.document.root "zFront" = some t.zFront :=
    LegibleScalar.ofText?_text t.zFront h.front
  have back : number? t.document.root "zBack" = some t.zBack :=
    LegibleScalar.ofText?_text t.zBack h.back
  unfold parts?
  rw [within, named, layer, front, back, t.offset?_document, points?_document h.finite]
  rfl

end Reading

/-! ## Reading back -/

/-- The table with zero added to all coordinates in the plane. -/
def settled (t : PinTable R) : PinTable R :=
  { t with pins := t.pins.map fun p => (p.1, ⟨p.2.x + Scalar.zero, p.2.y + Scalar.zero, p.2.z⟩) }

/-- Identifiers are read as the pins that they name, and zero is added to the points. -/
theorem WellFormed.shifted_written (h : t.WellFormed) :
    shifted Scalar.zero Scalar.zero (t.pins.map written) =
      .ok (t.settled.pins.map fun p => (p.1, p.2.x, p.2.y)) := by
  refine mapM_eq_ok_iff.mpr ?_
  rw [settled, List.map_map, List.forall₂_map_left_iff, List.forall₂_map_right_iff,
    List.forall₂_same]
  intro p hp
  simp only [Function.comp_apply, written, Pin.ofText?_text (h.numbered p hp)]

variable [NeutralScalar R]

/-- A settled table is well formed. -/
theorem WellFormed.settled (h : t.WellFormed) : t.settled.WellFormed := by
  have ordered : InOrder t.settled.pins := List.pairwise_map.mpr h.ordered
  refine ⟨h.front, h.back, ordered, ?_, ?_, ?_⟩ <;> intro q hq <;>
    obtain ⟨p, hp, rfl⟩ := List.mem_map.mp hq
  · exact h.numbered p hp
  · obtain ⟨x, y, z⟩ := Location.isFinite_iff.mp (h.finite p hp)
    exact Location.isFinite_iff.mpr
      ⟨NeutralScalar.isFinite_add_zero x, NeutralScalar.isFinite_add_zero y, z⟩
  · exact h.depths p hp

/-- A well-formed table is read back from its text with zero added once more. -/
theorem WellFormed.ofText_text (h : t.WellFormed) : ofText t.text = .ok t.settled := by
  have settled := h.settled
  have collected : collect t.zFront t.zBack [] (t.settled.pins.map fun p => (p.1, p.2.x, p.2.y)) =
      .ok t.settled.pins := settled.ordered.collect settled.depths settled.finite
  rw [ofText, text, t.document_isPlain.ofText?_text]
  simp only [ofDocument, h.parts?_document, h.shifted_written]
  show (collect t.zFront t.zBack [] _ >>= fun pins => pure _) = _
  rw [collected]
  rfl

/-- A settled table is read back as it was. -/
theorem WellFormed.settled_settled (h : t.WellFormed) : t.settled.settled = t.settled := by
  have same : t.settled.settled.pins = t.settled.pins := by
    simp only [PinTable.settled, List.map_map]
    refine List.map_congr_left fun p hp => ?_
    obtain ⟨x, y, -⟩ := Location.isFinite_iff.mp (h.finite p hp)
    simp only [Function.comp_apply, NeutralScalar.add_zero_add_zero x,
      NeutralScalar.add_zero_add_zero y]
  show ({ t.settled with pins := t.settled.settled.pins } : PinTable R) = _
  rw [same]

/-! ## Any number of times -/

/-- The table after it was written and read so many times. -/
def reloaded (t : PinTable R) : Nat → Except CalibrationError (PinTable R)
  | 0 => .ok t
  | n + 1 => do ofText (← t.reloaded n).text

/-- A table that can be written is read back every time, and settles with the first. -/
theorem WellFormed.reloaded (h : t.WellFormed) (n : Nat) :
    t.reloaded n = .ok (if n = 0 then t else t.settled) := by
  induction n with
  | zero => rfl
  | succ n ih =>
    rw [PinTable.reloaded, ih, if_neg n.succ_ne_zero]
    show ofText (if n = 0 then t else t.settled).text = _
    split
    · exact h.ofText_text
    · rw [h.settled.ofText_text, h.settled_settled]

/-- Two tables are equal, zeros of both signs being equal. -/
structure Agrees (t t' : PinTable R) : Prop where
  layer : t.layer = t'.layer
  zFront : (t.zFront == t'.zFront) = true
  zBack : (t.zBack == t'.zBack) = true
  pins : List.Forall₂ (fun p q => p.1 = q.1 ∧ (p.2 == q.2) = true) t.pins t'.pins

theorem Location.beq_iff {R : Type} [Scalar R] {l m : Location R} : (l == m) = true ↔
    (l.x == m.x) = true ∧ (l.y == m.y) = true ∧ (l.z == m.z) = true := by
  show (l.x == m.x && (l.y == m.y && l.z == m.z)) = true ↔ _
  rw [Bool.and_eq_true_iff, Bool.and_eq_true_iff]

theorem WellFormed.agrees (h : t.WellFormed) : t.Agrees t := by
  refine ⟨rfl, NeutralScalar.beq_self h.front, NeutralScalar.beq_self h.back,
    List.forall₂_same.mpr fun p hp => ⟨rfl, ?_⟩⟩
  obtain ⟨x, y, z⟩ := Location.isFinite_iff.mp (h.finite p hp)
  exact Location.beq_iff.mpr
    ⟨NeutralScalar.beq_self x, NeutralScalar.beq_self y, NeutralScalar.beq_self z⟩

theorem WellFormed.settled_agrees (h : t.WellFormed) : t.settled.Agrees t := by
  refine ⟨rfl, NeutralScalar.beq_self h.front, NeutralScalar.beq_self h.back, ?_⟩
  rw [PinTable.settled, List.forall₂_map_left_iff, List.forall₂_same]
  intro p hp
  obtain ⟨x, y, z⟩ := Location.isFinite_iff.mp (h.finite p hp)
  exact ⟨rfl, Location.beq_iff.mpr
    ⟨NeutralScalar.add_zero_beq x, NeutralScalar.add_zero_beq y, NeutralScalar.beq_self z⟩⟩

/-! ## The offset -/

omit [NeutralScalar R] in
theorem WellFormed.resolve (h : t.WellFormed) {pin : Pin} {location : Location R}
    (there : (pin, location) ∈ t.pins) : t.resolve pin = .ok location := by
  rw [PinTable.resolve, h.ordered.lookup there]

/-- The table has all points of a text, each moved by the offset of the text once. -/
def Shows (t : PinTable R) (text : String) : Prop :=
  ∀ d layer zFront zBack dx dy points, Markup.Document.ofText? text = some d →
    parts? d = some (layer, zFront, zBack, (dx, dy), points) →
    ∀ point ∈ points, ∃ pin location, Pin.ofText? point.1 = some pin ∧
      t.resolve pin = .ok location ∧ (location.x == point.2.1 + dx) = true ∧
        (location.y == point.2.2 + dy) = true

omit [NeutralScalar R] in
/-- The points of a document are in its table, with the offset added. -/
theorem exists_pin_of_ofText {text : String} (read : ofText text = .ok t) {d : Markup.Document}
    (document : Markup.Document.ofText? text = some d) {layer : String} {zFront zBack dx dy : R}
    {points : List (String × R × R)}
    (parts : parts? d = some (layer, zFront, zBack, (dx, dy), points)) {point : String × R × R}
    (hpoint : point ∈ points) : ∃ pin z, Pin.ofText? point.1 = some pin ∧
      (pin, (⟨point.2.1 + dx, point.2.2 + dy, z⟩ : Location R)) ∈ t.pins := by
  obtain ⟨d', _, _, _, _, _, _, shifts, document', parts', moved, made⟩ := ofText_eq_ok read
  obtain rfl := Option.some.inj (document'.symm.trans document)
  cases parts'.symm.trans parts
  obtain ⟨shift, hshift, named, place⟩ := exists_of_forall₂ (shifted_eq_ok moved).flip point hpoint
  obtain ⟨-, -, members, -⟩ := make_eq_ok made
  have there := (members _).mpr (List.mem_map_of_mem (f := placed zFront zBack) hshift)
  rw [placed, place] at there
  exact ⟨shift.1, _, named, there⟩

/-- Settling adds no offset. -/
theorem WellFormed.shows (h : t.WellFormed) {text : String} (read : ofText text = .ok t) :
    t.Shows text ∧ t.settled.Shows text := by
  constructor
  all_goals
    intro d layer zFront zBack dx dy points document parts point hpoint
    obtain ⟨pin, z, named, there⟩ := exists_pin_of_ofText read document parts hpoint
    obtain ⟨x, y, -⟩ := Location.isFinite_iff.mp (h.finite _ there)
  · exact ⟨pin, _, named, h.resolve there, NeutralScalar.beq_self x, NeutralScalar.beq_self y⟩
  · have moved : (pin, _) ∈ t.settled.pins := List.mem_map_of_mem there
    exact ⟨pin, _, named, h.settled.resolve moved, NeutralScalar.add_zero_beq x,
      NeutralScalar.add_zero_beq y⟩

/-! ## Tables that were built -/

/-- However often a table is written and read back, it comes back and agrees with the table at the
start; from the first time on nothing changes any more. A table that was read from a text with an
offset keeps having each point moved by the offset once. -/
theorem Built.reloaded_agrees (built : t.Built) (front : Scalar.isFinite t.zFront = true)
    (back : Scalar.isFinite t.zBack = true) (n : Nat) :
    ∃ t', t.reloaded n = .ok t' ∧ t'.Agrees t ∧ (0 < n → ofText t'.text = .ok t') ∧
      ∀ text, ofText text = .ok t → t'.Shows text := by
  have h := built.wellFormed front back
  refine ⟨_, h.reloaded n, ?_⟩
  by_cases none : n = 0
  · rw [if_pos none]
    exact ⟨h.agrees, by omega, fun text read => (h.shows read).1⟩
  · rw [if_neg none]
    refine ⟨h.settled_agrees, fun _ => ?_, fun text read => (h.shows read).2⟩
    rw [h.settled.ofText_text, h.settled_settled]

/-- A document with an offset, a zero of the other sign and pins out of their order. -/
def shiftedText : String :=
  "<LayerCalibration layer=\"V\" zFront=\"20.5\" zBack=\"415\"><offset x=\"0.25\" y=\"-0.1\"/>" ++
    "<pin id=\"B1\" x=\"571.2\" y=\"170\"/><pin id=\" f2 \" x=\"-0.25\" y=\"0.1\"/></LayerCalibration>"

theorem shiftedText_reloaded : ∃ t : PinTable Float, ofText shiftedText = .ok t ∧
    ∃ t', t.reloaded 3 = .ok t' ∧ t'.Agrees t ∧ (0 < 3 → ofText t'.text = .ok t') ∧
      ∀ text, ofText text = .ok t → t'.Shows text := by
  have usable : ((ofText shiftedText).toOption.elim false fun t : PinTable Float =>
      Scalar.isFinite t.zFront && Scalar.isFinite t.zBack) = true := by decide +kernel
  rcases read : ofText (R := Float) shiftedText with e | t
  · rw [read] at usable
    cases usable
  · rw [read] at usable
    obtain ⟨front, back⟩ := Bool.and_eq_true_iff.mp usable
    exact ⟨t, rfl, (Built.read read).reloaded_agrees front back 3⟩

/-! ## Files -/

/-- A table that was saved is loaded with zero added once more. -/
theorem WellFormed.load_save (h : t.WellFormed) {files files' : FileStore} {path : String}
    (saved : t.save files path = (files', .ok ())) : load files' path = .ok t.settled := by
  unfold save at saved
  split at saved
  · next written =>
    cases saved
    obtain ⟨found, -⟩ := FileStore.write_eq_ok written
    have content := FileStore.read_eq_ok_iff.mpr ⟨_, found⟩
    have text := FileStore.readText_eq_ok_iff.mpr ⟨_, content, fromUTF8?_toUTF8 t.text⟩
    rw [load, text]
    exact h.ofText_text
  · cases saved

end PinTable

end Winding
