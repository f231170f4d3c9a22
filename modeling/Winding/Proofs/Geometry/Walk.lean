import Mathlib.Data.List.Count
import Winding.Geometry.Layer
import Winding.Proofs.Basic
import Winding.Proofs.Number.Exact

/-!
# The walk of the pins

Ordinals walk the frame edge by edge, as many of them along an edge as it has pins: a walk is laid
out pin by pin, and an ordinal is a place in it (`Layer.edgeAt_eq_getElem?`). The order of the edges
is a tour of the frame, told by the corners that the edges join (`Numbering.edges_tours`). So the
four edges divide the pins of a layer among them, and each has its own in one piece
(`Layer.make_divides`).
-/

namespace Winding

/-! ## Tours of the frame -/

/-- The corners that an edge joins, in clockwise order. -/
def FrameEdge.corners : FrameEdge → Corner × Corner
  | .left => (.bottomLeft, .topLeft)
  | .top => (.topLeft, .topRight)
  | .right => (.topRight, .bottomRight)
  | .bottom => (.bottomRight, .bottomLeft)

/-- The corner that a walk along an edge leaves, and the one at which it arrives. -/
def FrameEdge.ends (edge : FrameEdge) : Wrap → Corner × Corner
  | .clockwise => edge.corners
  | .counterClockwise => edge.corners.swap

/-- The corner to which a walk along edges leads, if each of them leaves the corner at which the one
before it arrives. -/
def Wrap.lead? (wrap : Wrap) : Corner → List FrameEdge → Option Corner
  | corner, [] => some corner
  | corner, edge :: edges =>
    if (edge.ends wrap).1 = corner then wrap.lead? (edge.ends wrap).2 edges else none

/-- Edges that lead around the frame: from the first corner in the direction of the numbering, along
every edge once, back to that corner. -/
structure Numbering.Tours (numbering : Numbering) (edges : List FrameEdge) : Prop where
  around : numbering.wrap.lead? numbering.start edges = some numbering.start
  once : edges.Nodup
  all : ∀ edge, edge ∈ edges

theorem Numbering.nodup_edges (numbering : Numbering) : numbering.edges.Nodup := by
  obtain ⟨start, wrap⟩ := numbering
  cases start <;> cases wrap <;> decide

theorem Numbering.edges_tours (numbering : Numbering) : numbering.Tours numbering.edges := by
  refine ⟨?_, numbering.nodup_edges, fun edge => ?_⟩
  · obtain ⟨start, wrap⟩ := numbering
    cases start <;> cases wrap <;> rfl
  · obtain ⟨start, wrap⟩ := numbering
    cases start <;> cases wrap <;> cases edge <;> decide

/-! ## Walks -/

/-- The pins along an edge of a frame with so many rows and columns. -/
def FrameEdge.pins (rows columns : Nat) : FrameEdge → Nat
  | .left | .right => rows
  | .bottom | .top => columns

namespace Layer

variable {R : Type} {layer : Layer R} {edges : List FrameEdge} {edge : FrameEdge} {a b c n : Nat}

theorem pinsAlong_eq (layer : Layer R) (edge : FrameEdge) :
    layer.pinsAlong edge = edge.pins layer.rows layer.columns := by
  cases edge <;> rfl

/-- The edges that the pins of a walk sit on, pin by pin. -/
def walk (layer : Layer R) (edges : List FrameEdge) : List FrameEdge :=
  edges.flatMap fun edge => List.replicate (layer.pinsAlong edge) edge

theorem walk_nil (layer : Layer R) : layer.walk [] = [] := rfl

theorem walk_cons (layer : Layer R) (edge : FrameEdge) (edges : List FrameEdge) :
    layer.walk (edge :: edges) =
      List.replicate (layer.pinsAlong edge) edge ++ layer.walk edges :=
  List.flatMap_cons

/-- The walk of all pins has two of each row and two of each column. -/
theorem length_walk (layer : Layer R) :
    (layer.walk layer.numbering.edges).length = 2 * (layer.rows + layer.columns) := by
  obtain ⟨start, wrap⟩ := layer.numbering
  cases start <;> cases wrap <;>
    · simp only [Numbering.edges, walk_cons, walk_nil, List.length_append, List.length_replicate,
        pinsAlong_eq, FrameEdge.pins, List.length_nil]
      omega

/-- A pin is found by taking off the pins of one edge after the other. -/
theorem edgeAt_eq_getElem? (layer : Layer R) (edges : List FrameEdge) (n : Nat) :
    layer.edgeAt edges (n + 1) = (layer.walk edges)[n]? := by
  induction edges generalizing n with
  | nil => rfl
  | cons edge edges ih =>
    rw [walk_cons, edgeAt]
    split
    · next within =>
      have lt : n < layer.pinsAlong edge := within
      rw [List.getElem?_append_left (by rwa [List.length_replicate]), List.getElem?_replicate,
        if_pos lt]
    · next past =>
      have le : layer.pinsAlong edge ≤ n := by omega
      rw [List.getElem?_append_right (by rwa [List.length_replicate]), List.length_replicate,
        Nat.sub_add_comm le, ih]

theorem mem_of_mem_walk (h : edge ∈ layer.walk edges) : edge ∈ edges := by
  obtain ⟨e, he, pins⟩ := List.mem_flatMap.mp h
  exact List.eq_of_mem_replicate pins ▸ he

/-- An edge that is walked once has as many pins in the walk as along it. -/
theorem count_walk (distinct : edges.Nodup) (h : edge ∈ edges) :
    (layer.walk edges).count edge = layer.pinsAlong edge := by
  induction edges with
  | nil => cases h
  | cons first edges ih =>
    obtain ⟨other, distinct⟩ := List.nodup_cons.mp distinct
    rw [walk_cons, List.count_append, List.count_replicate]
    rcases List.mem_cons.mp h with rfl | later
    · have none : (layer.walk edges).count edge = 0 :=
        List.count_eq_zero.mpr fun inside => other (mem_of_mem_walk inside)
      rw [none, if_pos (beq_self_eq_true edge), Nat.add_zero]
    · have ne : first ≠ edge := fun e => other (e ▸ later)
      rw [if_neg (by simpa using ne), Nat.zero_add, ih distinct later]

/-! ## The pins of a layer -/

theorem edgeOf_zero (layer : Layer R) : layer.edgeOf 0 = none := rfl

/-- Where the pins are counted right, an ordinal is a place in the walk. -/
theorem edgeOf_succ (counted : layer.pinCount = 2 * (layer.rows + layer.columns)) (n : Nat) :
    layer.edgeOf (n + 1) = (layer.walk layer.numbering.edges)[n]? := by
  rw [← length_walk] at counted
  unfold edgeOf
  split
  · next outside =>
    have le : (layer.walk layer.numbering.edges).length ≤ n := by omega
    exact (List.getElem?_eq_none le).symm
  · exact layer.edgeAt_eq_getElem? layer.numbering.edges n

theorem mem_of_edgeAt (h : layer.edgeAt edges a = some edge) : edge ∈ edges := by
  induction edges generalizing a with
  | nil => cases h
  | cons first edges ih =>
    unfold edgeAt at h
    split at h
    · obtain rfl := Option.some.inj h
      exact List.mem_cons_self
    · exact List.mem_cons_of_mem first (ih h)

/-- A walk does not come back to an edge. -/
theorem edgeAt_between (distinct : edges.Nodup) (first : layer.edgeAt edges a = some edge)
    (last : layer.edgeAt edges c = some edge) (above : a ≤ b) (below : b ≤ c) :
    layer.edgeAt edges b = some edge := by
  induction edges generalizing a b c with
  | nil => cases first
  | cons next edges ih =>
    obtain ⟨other, distinct⟩ := List.nodup_cons.mp distinct
    unfold edgeAt at first last ⊢
    -- Either the last of the three is on the first edge, or all are behind it.
    by_cases here : c ≤ layer.pinsAlong next
    · rw [if_pos here] at last
      rwa [if_pos (Nat.le_trans below here)]
    · rw [if_neg here] at last
      have past : ¬a ≤ layer.pinsAlong next := by
        intro within
        rw [if_pos within] at first
        obtain rfl := Option.some.inj first
        exact other (mem_of_edgeAt last)
      rw [if_neg past] at first
      rw [if_neg (by omega)]
      exact ih distinct first last (by omega) (by omega)

theorem edgeOf_eq_some_iff : layer.edgeOf a = some edge ↔
    (1 ≤ a ∧ a ≤ layer.pinCount) ∧ layer.edgeAt layer.numbering.edges a = some edge := by
  unfold edgeOf
  split
  · next outside =>
    constructor
    · nofun
    · omega
  · next inside =>
    constructor
    · intro h
      exact ⟨by omega, h⟩
    · exact And.right

/-- The ordinals between two pins of an edge are on that edge too. -/
theorem edgeOf_between (first : layer.edgeOf a = some edge) (last : layer.edgeOf c = some edge)
    (above : a ≤ b) (below : b ≤ c) : layer.edgeOf b = some edge := by
  rw [edgeOf_eq_some_iff] at first last ⊢
  obtain ⟨least, first⟩ := first
  obtain ⟨most, last⟩ := last
  exact ⟨by omega, edgeAt_between layer.numbering.nodup_edges first last above below⟩

/-- The edges of all ordinals, one after the other, are the walk. -/
theorem map_edgeOf (counted : layer.pinCount = 2 * (layer.rows + layer.columns)) :
    (List.range' 1 layer.pinCount).map layer.edgeOf =
      (layer.walk layer.numbering.edges).map some := by
  rw [counted, ← length_walk]
  refine List.ext_getElem? fun n => ?_
  rw [List.getElem?_map, List.getElem?_map]
  rcases Nat.lt_or_ge n (layer.walk layer.numbering.edges).length with lt | ge
  · rw [List.getElem?_range' lt, List.getElem?_eq_getElem lt, Option.map_some, Option.map_some,
      Nat.one_mul, Nat.add_comm, edgeOf_succ counted, List.getElem?_eq_getElem lt]
  · rw [List.getElem?_eq_none ge, List.getElem?_eq_none (by rwa [List.length_range'])]
    rfl

/-- The pins are the ordinals from one to their count. -/
theorem isSome_edgeOf_iff (counted : layer.pinCount = 2 * (layer.rows + layer.columns)) :
    (layer.edgeOf n).isSome ↔ 1 ≤ n ∧ n ≤ layer.pinCount := by
  cases n with
  | zero => simp [edgeOf_zero]
  | succ n =>
    have place : (layer.edgeOf (n + 1)).isSome ↔ n < layer.pinCount := by
      rw [edgeOf_succ counted, counted, ← length_walk]
      simp
    rw [place]
    omega

/-- As many ordinals are on an edge as it has pins. -/
theorem length_filter_edgeOf (counted : layer.pinCount = 2 * (layer.rows + layer.columns))
    (edge : FrameEdge) :
    ((List.range' 1 layer.pinCount).filter fun n => layer.edgeOf n = some edge).length =
      layer.pinsAlong edge := by
  have walked := congrArg (List.count (some edge)) (map_edgeOf counted)
  rw [List.count_map_of_injective _ some (Option.some_injective _),
    count_walk layer.numbering.nodup_edges (layer.numbering.edges_tours.all edge)] at walked
  rw [← walked, List.count, List.countP_map, List.countP_eq_length_filter]
  refine congrArg List.length (List.filter_congr fun n _ => ?_)
  rw [Function.comp_apply, beq_eq_decide]

/-- The edges divide the pins of a layer among them, along a tour of the frame. -/
structure Divides (layer : Layer R) (rows columns : Nat) (numbering : Numbering) : Prop where
  pins : ∀ n, (layer.edgeOf n).isSome ↔ 1 ≤ n ∧ n ≤ layer.pinCount
  count : ∀ edge : FrameEdge,
    ((List.range' 1 layer.pinCount).filter fun n => layer.edgeOf n = some edge).length =
      edge.pins rows columns
  /-- The pins of an edge are in one piece. -/
  between : ∀ edge a b c, layer.edgeOf a = some edge → layer.edgeOf c = some edge →
    a ≤ b → b ≤ c → layer.edgeOf b = some edge
  /-- All pins of an edge come before those of the next one. -/
  tour : ∃ edges, numbering.Tours edges ∧
    (List.range' 1 layer.pinCount).map layer.edgeOf =
      edges.flatMap fun edge => List.replicate (edge.pins rows columns) (some edge)

/-! ## Layers as made -/

section Make

variable [Scalar R] {name : String} {rows columns : Nat} {pitchX : Option R} {pitchY : R}
  {numbering : Numbering}

/-- A layer that is made has the counts it was asked for, and they fit. -/
theorem make_eq_ok (made : make name rows columns pitchX pitchY numbering = .ok layer) :
    0 < rows + columns ∧ 2 * (rows + columns) < countLimit ∧
      layer = ⟨name, 2 * (rows + columns), rows, columns, pitchX, pitchY, (slope pitchX pitchY).1,
        (slope pitchX pitchY).2, numbering⟩ := by
  unfold make at made
  split at made
  · cases made
  · split at made
    · cases made
    · next some =>
      split at made
      · cases made
      · split at made
        · cases made
        · split at made
          · cases made
          · next fits =>
            cases made
            exact ⟨Nat.pos_of_ne_zero some, Nat.lt_of_not_le fits, rfl⟩

/-- Whatever the counts, the first corner and the direction: in a layer that can be made the four
edges divide the pins among them, each has its own in one piece, and the ordinals walk them in the
order of a tour of the frame. -/
theorem make_divides (made : make name rows columns pitchX pitchY numbering = .ok layer) :
    layer.Divides rows columns numbering := by
  obtain ⟨-, -, rfl⟩ := make_eq_ok made
  refine ⟨fun n => isSome_edgeOf_iff rfl, fun edge => ?_, fun _ _ _ _ => edgeOf_between,
    numbering.edges, numbering.edges_tours, ?_⟩
  · rw [length_filter_edgeOf rfl, pinsAlong_eq]
  · rw [map_edgeOf rfl, walk, List.map_flatMap]
    simp only [List.map_replicate, pinsAlong_eq]

/-- A layer without rows, from the upper left corner: the ordinals walk the lower edge first. -/
theorem make_rowless :
    ∃ layer : Layer Whole,
      make "G" 0 2 none ⟨5⟩ ⟨.topLeft, .counterClockwise⟩ = .ok layer ∧
      layer.Divides 0 2 ⟨.topLeft, .counterClockwise⟩ ∧
      (List.range 6).map layer.edgeOf =
        [none, some .bottom, some .bottom, some .top, some .top, none] := by
  have made : make "G" 0 2 none ⟨5⟩ ⟨.topLeft, .counterClockwise⟩ = .ok
      (⟨"G", 4, 0, 2, none, ⟨5⟩, ⟨0⟩, ⟨5⟩, ⟨.topLeft, .counterClockwise⟩⟩ : Layer Whole) := rfl
  exact ⟨_, made, make_divides made, by decide⟩

end Make

end Layer

end Winding
