import Winding.Calibration.Table
import Winding.Proofs.Number.Texts
import Winding.Proofs.Text.Lines

/-!
# Pins in order

A pin is read back from its text (`Pin.ofText?_text`). The pins of a table stand in their order,
each once (`PinTable.InOrder`): collecting measured points gives exactly those points in order
(`PinTable.collect_eq_ok`), and points that are in order already are collected as they stand
(`PinTable.InOrder.collect`).
-/

namespace Winding

namespace Pin

variable {p q r : Pin}

/-! ## Texts -/

/-- The pin has an ordinal that a text can write. -/
structure IsNumbered (p : Pin) : Prop where
  pos : 0 < p.ordinal
  below : p.ordinal < ordinalLimit

theorem isNumbered_of_ofText? {s : String} (h : ofText? s = some p) : p.IsNumbered := by
  unfold ofText? at h
  split at h
  · cases h
  · obtain ⟨face, -, h⟩ := Option.bind_eq_some_iff.mp h
    obtain ⟨ordinal, read, h⟩ := Option.bind_eq_some_iff.mp h
    split at h
    · cases h
    · next some =>
      obtain rfl := Option.some.inj h
      rw [natBelow?] at read
      obtain ⟨-, below⟩ := Option.filter_eq_some_iff.mp read
      exact ⟨Nat.pos_of_ne_zero some, of_decide_eq_true below⟩

/-- A pin is read back from its text. -/
theorem ofText?_text (h : p.IsNumbered) : ofText? p.text = some p := by
  obtain ⟨face, ordinal⟩ := p
  obtain ⟨pos, below⟩ := h
  have dark : ∀ c ∈ face.letter :: digitsOf ordinal, isBlank c = false := by
    intro c hc
    rcases List.mem_cons.mp hc with rfl | digit
    · cases face <;> decide
    · exact isBlank_digit ((AreDigits.digitsOf ordinal).digits c digit)
  have ordinal? : natBelow? ordinalLimit (digitsOf ordinal) = some ordinal := by
    have digits : (toString ordinal).toList = digitsOf ordinal := Nat.toList_repr
    rw [← digits]
    exact natBelow?_toString below
  have face? : faceOf? face.letter = some face := by cases face <;> rfl
  have some : ordinal ≠ 0 := Nat.ne_of_gt pos
  unfold ofText?
  rw [text, String.toList_ofList, trim_eq_self dark]
  simp only [face?, ordinal?, Option.bind_eq_bind, Option.bind_some, if_neg some]

/-! ## The order -/

theorem before_iff : p.before q = true ↔
    p.face = .front ∧ q.face = .back ∨ p.face = q.face ∧ p.ordinal < q.ordinal := by
  obtain ⟨_ | _, m⟩ := p <;> obtain ⟨_ | _, n⟩ := q <;> simp [before]

theorem before_irrefl (p : Pin) : ¬p.before p = true := by
  rw [before_iff]
  rintro (⟨front, back⟩ | ⟨-, below⟩)
  · cases front.symm.trans back
  · omega

theorem before_trans (h : p.before q = true) (h' : q.before r = true) : p.before r = true := by
  rw [before_iff] at h h' ⊢
  rcases h with ⟨front, back⟩ | ⟨same, below⟩
  · rcases h' with ⟨front', -⟩ | ⟨same, -⟩
    · cases front'.symm.trans back
    · exact .inl ⟨front, same ▸ back⟩
  · rcases h' with ⟨front, back⟩ | ⟨same', below'⟩
    · exact .inl ⟨same.trans front, back⟩
    · exact .inr ⟨same.trans same', by omega⟩

/-- Of two pins one comes before the other. -/
theorem before_of_not_before (ne : p ≠ q) (h : ¬p.before q = true) : q.before p = true := by
  rw [before_iff] at h ⊢
  obtain ⟨f, m⟩ := p
  obtain ⟨g, n⟩ := q
  by_cases face : f = g
  · subst face
    have other : m ≠ n := fun same => ne (same ▸ rfl)
    have above : ¬m < n := fun below => h (.inr ⟨rfl, below⟩)
    exact .inr ⟨rfl, by show n < m; omega⟩
  · cases f with
    | front =>
      cases g with
      | front => exact absurd rfl face
      | back => exact absurd (.inl ⟨rfl, rfl⟩) h
    | back =>
      cases g with
      | front => exact .inl ⟨rfl, rfl⟩
      | back => exact absurd rfl face

end Pin

namespace PinTable

variable {R : Type} {pin : Pin} {location : Location R} {pins pins' : List (Pin × Location R)}

/-! ## Insertions -/

/-- Pins in their order, each once. -/
def InOrder (pins : List (Pin × Location R)) : Prop :=
  pins.Pairwise fun p q => p.1.before q.1 = true

theorem mem_insert? (h : insert? pin location pins = some pins') (p : Pin × Location R) :
    p ∈ pins' ↔ p = (pin, location) ∨ p ∈ pins := by
  induction pins generalizing pins' with
  | nil =>
    obtain rfl := Option.some.inj h
    exact List.mem_singleton.trans (by simp)
  | cons q pins ih =>
    unfold insert? at h
    split at h
    · cases h
    · split at h
      · obtain rfl := Option.some.inj h
        exact List.mem_cons
      · obtain ⟨rest, inserted, rfl⟩ := Option.map_eq_some_iff.mp h
        rw [List.mem_cons, List.mem_cons, ih inserted]
        exact or_left_comm

/-- A pin is put in its place. -/
theorem InOrder.insert? (ordered : InOrder pins)
    (h : PinTable.insert? pin location pins = some pins') : InOrder pins' := by
  induction pins generalizing pins' with
  | nil =>
    obtain rfl := Option.some.inj h
    exact List.pairwise_singleton ..
  | cons q pins ih =>
    obtain ⟨first, rest⟩ := List.pairwise_cons.mp ordered
    unfold PinTable.insert? at h
    split at h
    · cases h
    · next other =>
      split at h
      · next below =>
        obtain rfl := Option.some.inj h
        refine List.pairwise_cons.mpr ⟨fun p hp => ?_, ordered⟩
        rcases List.mem_cons.mp hp with rfl | later
        · exact below
        · exact Pin.before_trans below (first p later)
      · next above =>
        obtain ⟨pins', inserted, rfl⟩ := Option.map_eq_some_iff.mp h
        refine List.pairwise_cons.mpr ⟨fun p hp => ?_, ih rest inserted⟩
        rcases (mem_insert? inserted p).mp hp with rfl | later
        · exact Pin.before_of_not_before other above
        · exact first p later

/-- A pin behind all others is added at the end. -/
theorem insert?_last (h : ∀ p ∈ pins, p.1.before pin = true) :
    insert? pin location pins = some (pins ++ [(pin, location)]) := by
  induction pins with
  | nil => rfl
  | cons q pins ih =>
    have below : q.1.before pin = true := h q List.mem_cons_self
    have other : pin ≠ q.1 := fun same => Pin.before_irrefl pin (same ▸ below)
    have above : ¬pin.before q.1 = true := fun above =>
      Pin.before_irrefl pin (Pin.before_trans above below)
    rw [insert?, if_neg other, if_neg above, ih fun p hp => h p (List.mem_cons_of_mem _ hp)]
    rfl

/-- Each pin is found with its location. -/
theorem InOrder.lookup (ordered : InOrder pins) (h : (pin, location) ∈ pins) :
    pins.lookup pin = some location := by
  induction pins with
  | nil => cases h
  | cons q pins ih =>
    obtain ⟨first, rest⟩ := List.pairwise_cons.mp ordered
    rcases List.mem_cons.mp h with rfl | later
    · exact List.lookup_cons_self
    · have other : (pin == q.1) = false := by
        rw [beq_eq_false_iff_ne]
        intro same
        exact Pin.before_irrefl q.1 (same ▸ first (pin, location) later)
      rw [List.lookup_cons, other]
      exact ih rest later

/-! ## Measured points -/

variable [Scalar R] {zFront zBack : R} {points : List (Pin × R × R)}

/-- A measured point at the depth of its face. -/
def placed (zFront zBack : R) (point : Pin × R × R) : Pin × Location R :=
  (point.1, ⟨point.2.1, point.2.2, depth zFront zBack point.1.face⟩)

theorem collect_cons_eq_ok {point : Pin × R × R}
    (h : collect zFront zBack pins (point :: points) = .ok pins') :
    (placed zFront zBack point).2.isFinite = true ∧
      ∃ more, insert? point.1 (placed zFront zBack point).2 pins = some more ∧
        collect zFront zBack more points = .ok pins' := by
  unfold collect at h
  simp only at h
  split at h
  · cases h
  · next finite =>
    split at h
    · cases h
    · next more inserted =>
      rw [Bool.not_eq_true, Bool.not_eq_false'] at finite
      exact ⟨finite, more, inserted, h⟩

/-- What is collected is in order and consists of the points so far and the new ones, which are
finite. -/
theorem collect_eq_ok (ordered : InOrder pins)
    (h : collect zFront zBack pins points = .ok pins') :
    InOrder pins' ∧ (∀ p, p ∈ pins' ↔ p ∈ pins ∨ p ∈ points.map (placed zFront zBack)) ∧
      ∀ p ∈ points.map (placed zFront zBack), p.2.isFinite = true := by
  induction points generalizing pins with
  | nil =>
    obtain rfl := Except.ok.inj h
    exact ⟨ordered, fun p => by simp, List.forall_mem_nil _⟩
  | cons point points ih =>
    obtain ⟨finite, more, inserted, h⟩ := collect_cons_eq_ok h
    obtain ⟨ordered', members, finite'⟩ := ih (ordered.insert? inserted) h
    refine ⟨ordered', fun p => ?_, List.forall_mem_cons.mpr ⟨finite, finite'⟩⟩
    rw [members, mem_insert? inserted, List.map_cons, List.mem_cons]
    show (p = placed zFront zBack point ∨ p ∈ pins) ∨ _ ↔ _
    rw [or_assoc]
    exact or_left_comm

/-- Points that are in order already are collected as they stand. -/
theorem InOrder.collect (ordered : InOrder pins)
    (depths : ∀ p ∈ pins, p.2.z = depth zFront zBack p.1.face)
    (finite : ∀ p ∈ pins, p.2.isFinite = true) :
    PinTable.collect zFront zBack [] (pins.map fun p => (p.1, p.2.x, p.2.y)) = .ok pins := by
  suffices ∀ front : List (Pin × Location R), InOrder (front ++ pins) →
      PinTable.collect zFront zBack front (pins.map fun p => (p.1, p.2.x, p.2.y)) =
        .ok (front ++ pins) from this [] ordered
  clear ordered
  intro front ordered
  induction pins generalizing front with
  | nil => exact congrArg Except.ok (List.append_nil front).symm
  | cons p pins ih =>
    have behind : ∀ q ∈ front, q.1.before p.1 = true := fun q hq =>
      (List.pairwise_append.mp ordered).2.2 q hq p List.mem_cons_self
    have location : (⟨p.2.x, p.2.y, depth zFront zBack p.1.face⟩ : Location R) = p.2 := by
      rw [← depths p List.mem_cons_self]
    have finite' : ¬(!p.2.isFinite) = true := by
      rw [finite p List.mem_cons_self]
      nofun
    rw [List.append_cons] at ordered ⊢
    rw [List.map_cons, PinTable.collect]
    simp only [location, if_neg finite', insert?_last behind]
    exact ih (fun q hq => depths q (List.mem_cons_of_mem p hq))
      (fun q hq => finite q (List.mem_cons_of_mem p hq)) _ ordered

end PinTable

end Winding
