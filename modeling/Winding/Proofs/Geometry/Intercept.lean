import Mathlib
import Winding.Geometry.Transfer
import Winding.Proofs.Number.Fraction

/-!
# Where a seek ends

A seek looks at the lines of its edge one after the other, and keeps the nearest crossing that is
ahead. Over rational numbers that crossing is the first one: the least multiple of the direction at
which travel crosses a line of the edge (`TransferBox.intercept_first`). A line that travel runs
along is met everywhere and crossed nowhere, so it does not end a seek (`TransferBox.along_refused`).
-/

namespace Winding

/-! ## Lines -/

section Lines

variable {R : Type}

/-- The coordinate that is the same all along a line. -/
def BoxLine.coordinate (line : BoxLine) (p : Location R) : R :=
  match line with
  | .top | .bottom => p.y
  | .left | .right => p.x

/-- The part of a direction that leads across a line. -/
def BoxLine.approach (line : BoxLine) (dx dy : R) : R :=
  match line with
  | .top | .bottom => dy
  | .left | .right => dx

/-- Where a line of a box is. -/
def TransferBox.place (b : TransferBox R) : BoxLine → R
  | .top => b.top
  | .bottom => b.bottom
  | .left => b.left
  | .right => b.right

variable [Scalar R]

/-- The point that lies a multiple of a direction ahead. The depth is kept. -/
def Location.ahead (p : Location R) (dx dy t : R) : Location R :=
  ⟨p.x + t * dx, p.y + t * dy, p.z⟩

theorem BoxLine.coordinate_ahead (line : BoxLine) (p : Location R) (dx dy t : R) :
    line.coordinate (p.ahead dx dy t) = line.coordinate p + t * line.approach dx dy := by
  cases line <;> rfl

end Lines

namespace TransferBox

variable {b : TransferBox Fraction} {p : Location Fraction} {dx dy : Fraction}
  {edge : TransferEdge}

/-! ## Crossings -/

/-- Travel from `p` along `(dx, dy)` is at a line after `t` times the direction, and does not run
along it. -/
structure Crosses (b : TransferBox Fraction) (p : Location Fraction) (dx dy : Fraction)
    (line : BoxLine) (t : ℚ) : Prop where
  approach : (line.approach dx dy).value ≠ 0
  meets : line.coordinate (p.ahead dx dy ⟨t⟩) = b.place line

/-- The multiples of the direction, greater than what counts as travel, after which travel from `p`
along `(dx, dy)` crosses a line of an edge. -/
def reaches (b : TransferBox Fraction) (p : Location Fraction) (dx dy : Fraction)
    (edge : TransferEdge) : Set ℚ :=
  {t | 1 / 10 ^ 9 < t ∧ ∃ line ∈ edge.lines, b.Crosses p dx dy line t}

theorem value_leastTravel : (leastTravel : Fraction).value = 1 / 10 ^ 9 := by
  decide +kernel

theorem meets_iff {a v d t : Fraction} (moves : d.value ≠ 0) :
    a + t * d = v ↔ t = (v - a) / d := by
  rw [Fraction.ext_iff, Fraction.ext_iff]
  exact (eq_sub_iff_add_eq'.symm.trans (eq_div_iff moves).symm)

/-- Travel that does not run along a line comes to it after one multiple of the direction. -/
theorem crossing_eq (line : BoxLine) : b.crossing p dx dy line =
    if (line.approach dx dy).value = 0 then none
    else
      let t := (b.place line - line.coordinate p) / line.approach dx dy
      some (t, p.ahead dx dy t) := by
  by_cases runs : (line.approach dx dy).value = 0
  · rw [if_pos runs]
    cases line with
    | top | bottom | left | right => exact if_pos ((Fraction.beq_zero_iff _).mpr runs)
  · rw [if_neg runs]
    have moves := mt (Fraction.beq_zero_iff _).mp runs
    -- The coordinate of the line is where travel comes to.
    have there := (meets_iff (a := line.coordinate p) (v := b.place line) runs).mpr rfl
    cases line with
    | top | bottom =>
      refine (if_neg moves).trans ?_
      exact congrArg (fun y => some (_, (⟨_, y, p.z⟩ : Location Fraction))) there.symm
    | left | right =>
      refine (if_neg moves).trans ?_
      exact congrArg (fun x => some (_, (⟨x, _, p.z⟩ : Location Fraction))) there.symm

theorem crossing_eq_some_iff {line : BoxLine} {t : Fraction} {point : Location Fraction} :
    b.crossing p dx dy line = some (t, point) ↔
      b.Crosses p dx dy line t.value ∧ point = p.ahead dx dy t := by
  rw [crossing_eq]
  by_cases runs : (line.approach dx dy).value = 0
  · rw [if_pos runs]
    exact ⟨nofun, fun h => absurd runs h.1.approach⟩
  · rw [if_neg runs, Option.some.injEq, Prod.mk.injEq]
    have meets : line.coordinate (p.ahead dx dy t) = b.place line ↔
        t = (b.place line - line.coordinate p) / line.approach dx dy := by
      rw [BoxLine.coordinate_ahead, meets_iff runs]
    constructor
    · rintro ⟨rfl, rfl⟩
      exact ⟨⟨runs, meets.mpr rfl⟩, rfl⟩
    · rintro ⟨crosses, rfl⟩
      obtain rfl := meets.mp crosses.meets
      exact ⟨rfl, rfl⟩

/-- The crossings that are looked at are those of the lines of the edge. -/
theorem mem_crossings_iff {t : Fraction} {point : Location Fraction} :
    (t, point) ∈ edge.lines.filterMap (b.crossing p dx dy) ↔
      (∃ line ∈ edge.lines, b.Crosses p dx dy line t.value) ∧ point = p.ahead dx dy t := by
  simp only [List.mem_filterMap, crossing_eq_some_iff]
  constructor
  · rintro ⟨line, selected, crosses, point⟩
    exact ⟨⟨line, selected, crosses⟩, point⟩
  · rintro ⟨⟨line, selected, crosses⟩, point⟩
    exact ⟨line, selected, crosses, point⟩

/-! ## The nearest crossing -/

/-- The nearest of the crossings ahead, if there is one ahead. -/
def Nearest (cs : List (Fraction × Location Fraction)) :
    Option (Fraction × Location Fraction) → Prop
  | none => ∀ c ∈ cs, ¬1 / 10 ^ 9 < c.1.value
  | some c => c ∈ cs ∧ 1 / 10 ^ 9 < c.1.value ∧
      ∀ d ∈ cs, 1 / 10 ^ 9 < d.1.value → c.1.value ≤ d.1.value

/-- One more crossing is looked at. -/
theorem Nearest.concat {cs : List (Fraction × Location Fraction)}
    {best : Option (Fraction × Location Fraction)} (h : Nearest cs best)
    (c : Fraction × Location Fraction) : Nearest (cs ++ [c]) (nearer best c) := by
  have split {P : Fraction × Location Fraction → Prop} (old : ∀ d ∈ cs, P d) (new : P c) :
      ∀ d ∈ cs ++ [c], P d := by
    intro d hd
    rcases List.mem_append.mp hd with hd | hd
    · exact old d hd
    · rwa [List.mem_singleton.mp hd]
  have last : c ∈ cs ++ [c] := List.mem_append_right _ List.mem_cons_self
  unfold nearer
  by_cases ahead : 1 / 10 ^ 9 < c.1.value
  · have counts : Scalar.lt leastTravel c.1 = true := by
      rwa [Fraction.lt_iff, value_leastTravel]
    rcases best with _ | b
    · rw [counts, if_pos (by rfl)]
      exact ⟨last, ahead, split (fun d hd counts => absurd counts (h d hd)) fun _ => le_rfl⟩
    · obtain ⟨mem, first, least⟩ := h
      by_cases before : c.1.value < b.1.value
      · rw [if_pos (by simpa [counts] using before)]
        exact ⟨last, ahead, split (fun d hd counts => before.le.trans (least d hd counts))
          fun _ => le_rfl⟩
      · rw [if_neg (by simpa [counts] using before)]
        exact ⟨List.mem_append_left _ mem, first, split least fun _ => le_of_not_gt before⟩
  · have short : Scalar.lt leastTravel c.1 = false := by
      rwa [Bool.eq_false_iff, ne_eq, Fraction.lt_iff, value_leastTravel]
    rw [short, Bool.false_and, if_neg Bool.false_ne_true]
    rcases best with _ | b
    · exact split h ahead
    · obtain ⟨mem, first, least⟩ := h
      exact ⟨List.mem_append_left _ mem, first, split least fun counts => absurd counts ahead⟩

theorem nearest_foldl (cs : List (Fraction × Location Fraction)) :
    Nearest cs (cs.foldl nearer none) := by
  induction cs using List.reverseRecOn with
  | nil => exact nofun
  | append_singleton cs c ih =>
    rw [List.foldl_append]
    exact ih.concat c

/-! ## Seeks -/

theorem intercept_undirected (short : |dx.value| < 1 / 2 ^ 52 ∧ |dy.value| < 1 / 2 ^ 52) :
    b.intercept p dx dy edge = .error .noDirection := by
  unfold intercept
  rw [if_pos]
  simpa using short

variable (b p edge) in
/-- A seek with a direction ends at the nearest crossing. -/
theorem intercept_directed (long : ¬(|dx.value| < 1 / 2 ^ 52 ∧ |dy.value| < 1 / 2 ^ 52)) :
    (b.reaches p dx dy edge = ∅ ∧ b.intercept p dx dy edge = .error (.noIntercept edge)) ∨
      ∃ t, IsLeast (b.reaches p dx dy edge) t ∧
        b.intercept p dx dy edge = .ok (p.ahead dx dy ⟨t⟩) := by
  unfold intercept
  rw [if_neg (by simpa using long)]
  have nearest := nearest_foldl (edge.lines.filterMap (b.crossing p dx dy))
  generalize (edge.lines.filterMap (b.crossing p dx dy)).foldl nearer none = best at nearest ⊢
  rcases best with _ | ⟨t, point⟩
  · refine .inl ⟨Set.eq_empty_iff_forall_notMem.mpr fun t reached => ?_, rfl⟩
    obtain ⟨counts, crosses⟩ := reached
    exact nearest (⟨t⟩, p.ahead dx dy ⟨t⟩) (mem_crossings_iff.mpr ⟨crosses, rfl⟩) counts
  · obtain ⟨mem, counts, least⟩ := nearest
    obtain ⟨crosses, rfl⟩ := mem_crossings_iff.mp mem
    refine .inr ⟨t.value, ⟨⟨counts, crosses⟩, fun u reached => ?_⟩, rfl⟩
    obtain ⟨counts', crosses'⟩ := reached
    exact least (⟨u⟩, p.ahead dx dy ⟨u⟩) (mem_crossings_iff.mpr ⟨crosses', rfl⟩) counts'

/-- With exact numbers, whatever the box, the start and the direction: a seek has no direction
exactly if both parts of it are below the gap after one. With a direction it ends exactly if travel
crosses a line of its edge ahead, and then at the first crossing, on a line of the edge and at the
depth of the start; else the edge is never reached. -/
theorem intercept_first (b : TransferBox Fraction) (p : Location Fraction) (dx dy : Fraction)
    (edge : TransferEdge) :
    (b.intercept p dx dy edge = .error .noDirection ↔
      |dx.value| < 1 / 2 ^ 52 ∧ |dy.value| < 1 / 2 ^ 52) ∧
    (¬(|dx.value| < 1 / 2 ^ 52 ∧ |dy.value| < 1 / 2 ^ 52) →
      ((∃ point, b.intercept p dx dy edge = .ok point) ↔ (b.reaches p dx dy edge).Nonempty) ∧
      (b.intercept p dx dy edge = .error (.noIntercept edge) ↔ b.reaches p dx dy edge = ∅)) ∧
    ∀ point, b.intercept p dx dy edge = .ok point →
      point.z = p.z ∧ (∃ line ∈ edge.lines, line.coordinate point = b.place line) ∧
        ∃ t, IsLeast (b.reaches p dx dy edge) t ∧ point = p.ahead dx dy ⟨t⟩ := by
  by_cases short : |dx.value| < 1 / 2 ^ 52 ∧ |dy.value| < 1 / 2 ^ 52
  · rw [intercept_undirected short]
    exact ⟨⟨fun _ => short, fun _ => rfl⟩, fun long => absurd short long, nofun⟩
  · rcases intercept_directed b p edge short with ⟨none, refused⟩ | ⟨t, first, ends⟩
    · rw [refused, none]
      refine ⟨⟨nofun, fun h => absurd h short⟩, fun _ => ⟨⟨nofun, ?_⟩, fun _ => rfl, fun _ => rfl⟩,
        nofun⟩
      exact fun some => absurd some Set.not_nonempty_empty
    · rw [ends]
      have some : (b.reaches p dx dy edge).Nonempty := ⟨t, first.1⟩
      refine ⟨⟨nofun, fun h => absurd h short⟩,
        fun _ => ⟨⟨fun _ => some, fun _ => ⟨_, rfl⟩⟩, nofun, fun none => absurd none some.ne_empty⟩,
        ?_⟩
      rintro point ⟨⟩
      obtain ⟨-, line, selected, crosses⟩ := first.1
      exact ⟨rfl, ⟨line, selected, crosses.meets⟩, t, first, rfl⟩

/-- A box to seek in. -/
def sample : TransferBox Fraction := ⟨⟨500⟩, ⟨0⟩, ⟨20⟩, ⟨1000⟩, ⟨5⟩⟩

/-- A steep climb to the left comes to the top before it comes to the left line. -/
theorem climb_first :
    sample.validate = .ok () ∧
      sample.intercept ⟨⟨100⟩, ⟨100⟩, ⟨3⟩⟩ ⟨-1 / 10⟩ ⟨1⟩ .topLeft = .ok ⟨⟨60⟩, ⟨500⟩, ⟨3⟩⟩ ∧
      ∃ t, IsLeast (sample.reaches ⟨⟨100⟩, ⟨100⟩, ⟨3⟩⟩ ⟨-1 / 10⟩ ⟨1⟩ .topLeft) t ∧
        (⟨⟨60⟩, ⟨500⟩, ⟨3⟩⟩ : Location Fraction) =
          Location.ahead ⟨⟨100⟩, ⟨100⟩, ⟨3⟩⟩ ⟨-1 / 10⟩ ⟨1⟩ ⟨t⟩ := by
  have ends : sample.intercept ⟨⟨100⟩, ⟨100⟩, ⟨3⟩⟩ ⟨-1 / 10⟩ ⟨1⟩ .topLeft =
      .ok ⟨⟨60⟩, ⟨500⟩, ⟨3⟩⟩ := by cbv
  obtain ⟨-, -, first⟩ := intercept_first sample ⟨⟨100⟩, ⟨100⟩, ⟨3⟩⟩ ⟨-1 / 10⟩ ⟨1⟩ .topLeft
  obtain ⟨-, -, least⟩ := first _ ends
  exact ⟨by cbv, ends, least⟩

/-- Travel along the top meets the top all the way, but a seek for it is refused. -/
theorem along_refused :
    sample.validate = .ok () ∧
      ¬(|(1 : ℚ)| < 1 / 2 ^ 52 ∧ |(0 : ℚ)| < 1 / 2 ^ 52) ∧
      (∀ t : ℚ, BoxLine.top.coordinate (Location.ahead ⟨⟨100⟩, ⟨500⟩, ⟨0⟩⟩ ⟨1⟩ ⟨0⟩ ⟨t⟩) =
        sample.place .top) ∧
      sample.intercept ⟨⟨100⟩, ⟨500⟩, ⟨0⟩⟩ ⟨1⟩ ⟨0⟩ .top = .error (.noIntercept .top) := by
  refine ⟨by cbv, by decide +kernel, fun t => ?_, by cbv⟩
  ext
  simp [BoxLine.coordinate, Location.ahead, place, sample]

end TransferBox

end Winding
