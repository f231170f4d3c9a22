import Mathlib.Data.List.Nodup
import Winding.Controller.Link
import Winding.Proofs.Basic

/-!
# The wiring of the registry

Points change their values, but never their tags, their kinds or their order: every registry in use
is wired like the standard one (`Registry.Wired`). In a wired registry every output can be staged
with a value of its kind (`Registry.Wired.stageAll`), and the point that triggers a motion is the
last one (`Registry.Wired.trigger_last`).
-/

namespace Winding

/-- What of a point never changes. -/
def Point.wiring (p : Point) : String × PointKind × Bool := (p.tag, p.kind, p.isOutput)

namespace Point

variable {σ : Type} [Adapter σ]

theorem send_wiring (p : Point) (plc : σ) {p' : Point} (h : (p.send plc).1 = .ok p') :
    p'.wiring = p.wiring := by
  unfold send at h
  split at h
  · cases h
    rfl
  · split at h
    · cases h
    · cases h
      rfl

theorem refresh_wiring (p : Point) (plc : σ) {p' : Point} (h : (p.refresh plc).1 = .ok p') :
    p'.wiring = p.wiring := by
  unfold refresh at h
  split at h
  · cases h
  · split at h
    · cases h
    · cases h
      rfl

end Point

namespace Registry

/-- The tags, the kinds and the directions of the points. -/
def wiring (r : Registry) : List (String × PointKind × Bool) := r.points.map Point.wiring

/-- The points are those of the winder, whatever their values are. -/
def Wired (r : Registry) : Prop := r.wiring = standard.wiring

/-- The winder has an output with this tag that holds the value as it is. -/
def Takes (tag : String) (v : TagValue) : Prop :=
  ∃ kind, (tag, kind, true) ∈ standard.wiring ∧ kind.hold? v = some v

/-- What is staged for a tag is the value. -/
def Stages (r : Registry) (tag : String) (v : TagValue) : Prop :=
  ∀ p ∈ r.points, p.tag = tag → p.value = v ∧ p.isStaged = true

theorem standard_distinct : (standard.wiring.map Prod.fst).Nodup := by decide

theorem standard_trigger :
    ∃ ps, standard.wiring = ps ++ [("MOVE_TYPE", .word, true)] :=
  ⟨standard.wiring.dropLast, by decide⟩

/-! ## Registration -/

/-- A point that is registered again takes its old place. -/
theorem place_eq_map {ps : List Point} {p q : Point} (distinct : (ps.map Point.tag).Nodup)
    (mem : q ∈ ps) (same : q.tag = p.tag) :
    place p ps = ps.map fun q => if q.tag = p.tag then p else q := by
  induction ps with
  | nil => cases mem
  | cons a as ih =>
    rw [List.map_cons, List.nodup_cons] at distinct
    obtain ⟨fresh, distinct⟩ := distinct
    by_cases front : a.tag = p.tag
    · have others : ∀ b ∈ as, (if b.tag = p.tag then p else b) = b := by
        intro b hb
        refine if_neg fun e => fresh ?_
        rw [front, ← e]
        exact List.mem_map_of_mem hb
      rw [place, if_pos front, List.map_cons, if_pos front, List.map_congr_left others,
        List.map_id']
    · rcases List.mem_cons.mp mem with rfl | later
      · exact absurd same front
      · rw [place, if_neg front, List.map_cons, if_neg front, ih distinct later]

/-- An operation that keeps the wiring of each point keeps that of all points. -/
theorem visit_wiring {σ : Type} {select : Point → Bool} {use : Point → σ → Answer Point × σ}
    (keeps : ∀ p plc p', (use p plc).1 = .ok p' → p'.wiring = p.wiring) (ps : List Point)
    (plc : σ) : (visit select use ps plc).2.1.map Point.wiring = ps.map Point.wiring := by
  induction ps generalizing plc with
  | nil => rfl
  | cons p ps ih =>
    unfold visit
    split
    · rcases used : use p plc with ⟨⟨e⟩ | ⟨p'⟩, plc'⟩
      · rfl
      · have kept := keeps p plc p' (by rw [used])
        simp only [List.map_cons, kept, ih plc']
    · simp only [List.map_cons, ih plc]

namespace Wired

variable {r : Registry}

theorem standard : Wired standard := rfl

theorem flushOutputs {σ : Type} [Adapter σ] (h : r.Wired) (plc : σ) :
    (r.flushOutputs plc).2.1.Wired :=
  (visit_wiring (fun p plc _ => p.send_wiring plc) r.points plc).trans h

theorem pollInputs {σ : Type} [Adapter σ] (h : r.Wired) (plc : σ) :
    (r.pollInputs plc).2.1.Wired :=
  (visit_wiring (fun p plc _ => p.refresh_wiring plc) r.points plc).trans h

theorem distinct (h : r.Wired) : (r.points.map Point.tag).Nodup := by
  have tags : r.points.map Point.tag = r.wiring.map Prod.fst := by
    rw [wiring, List.map_map]
    rfl
  rw [tags, h]
  exact standard_distinct

/-- A tag belongs to one point. -/
theorem eq_of_tag (h : r.Wired) {p q : Point} (hp : p ∈ r.points) (hq : q ∈ r.points)
    (same : p.tag = q.tag) : p = q :=
  List.inj_on_of_nodup_map h.distinct hp hq same

/-- There is a point for everything that the winder has wired. -/
theorem exists_point (h : r.Wired) {x : String × PointKind × Bool}
    (mem : x ∈ Registry.standard.wiring) : ∃ p ∈ r.points, p.wiring = x := by
  rw [← h] at mem
  exact List.mem_map.mp mem

theorem get?_eq (h : r.Wired) {p : Point} (hp : p ∈ r.points) : r.get? p.tag = some p := by
  have found : (r.points.find? fun q => q.tag == p.tag).isSome := by
    rw [List.find?_isSome]
    exact ⟨p, hp, beq_self_eq_true _⟩
  obtain ⟨q, hq⟩ := Option.isSome_iff_exists.mp found
  have same : q.tag = p.tag := by simpa using List.find?_some hq
  rw [get?, hq, h.eq_of_tag (List.mem_of_find?_eq_some hq) hp same]

/-- The trigger is the last point, and the only one with its tag. -/
theorem trigger_last (h : r.Wired) :
    ∃ ps p, r.points = ps ++ [p] ∧ p.tag = "MOVE_TYPE" ∧ p.isOutput = true ∧
      ∀ q ∈ ps, q.tag ≠ "MOVE_TYPE" := by
  obtain ⟨ws, last⟩ := standard_trigger
  have wired : r.points.map Point.wiring = ws ++ [("MOVE_TYPE", .word, true)] := h.trans last
  obtain ⟨ps, ends, split, -, trigger⟩ := List.map_eq_append_iff.mp wired
  obtain ⟨p, rest, rfl, same, none⟩ := List.map_eq_cons_iff.mp trigger
  obtain rfl := List.map_eq_nil_iff.mp none
  obtain ⟨tag, -, output⟩ : p.tag = "MOVE_TYPE" ∧ p.kind = .word ∧ p.isOutput = true := by
    simpa [Point.wiring] using same
  refine ⟨ps, p, split, tag, output, fun q hq e => ?_⟩
  have distinct := h.distinct
  rw [split, List.map_append, List.nodup_append] at distinct
  obtain ⟨-, -, apart⟩ := distinct
  exact apart q.tag (List.mem_map_of_mem hq) p.tag (by simp) (e.trans tag.symm)

/-! ## Staging -/

/-- An output takes every value of its kind; the other points are left alone. -/
theorem stage (h : r.Wired) {tag : String} {v : TagValue} (takes : Takes tag v) :
    ∃ r', r.stage tag v = .ok r' ∧ r'.Wired ∧ r'.Stages tag v ∧
      ∀ q ∈ r'.points, q.tag ≠ tag → q ∈ r.points := by
  obtain ⟨kind, wired, holds⟩ := takes
  obtain ⟨p, hp, same⟩ := h.exists_point wired
  obtain ⟨rfl, rfl, output⟩ : p.tag = tag ∧ p.kind = kind ∧ p.isOutput = true := by
    simpa [Point.wiring] using same
  let p' : Point := { p with value := v, isStaged := true }
  have staged : p.stage v = .ok p' := by
    rw [Point.stage, if_pos output, Point.hold, holds]
    rfl
  have placed : place p' r.points = r.points.map fun q => if q.tag = p.tag then p' else q :=
    place_eq_map h.distinct hp rfl
  refine ⟨r.register p', by simp only [Registry.stage, h.get?_eq hp, staged]; rfl, ?_, ?_, ?_⟩
  · have keeps : ∀ q ∈ r.points, (if q.tag = p.tag then p' else q).wiring = q.wiring := by
      intro q hq
      split
      · next same => rw [h.eq_of_tag hq hp same]; rfl
      · rfl
    show (place p' r.points).map Point.wiring = _
    rw [placed, List.map_map, ← h]
    exact List.map_congr_left keeps
  · intro q hq tag
    rw [show (r.register p').points = _ from placed] at hq
    obtain ⟨q₀, -, rfl⟩ := List.mem_map.mp hq
    split at tag
    · next same => rw [if_pos same]; exact ⟨rfl, rfl⟩
    · next other => exact absurd tag other
  · intro q hq tag
    rw [show (r.register p').points = _ from placed] at hq
    obtain ⟨q₀, mem, rfl⟩ := List.mem_map.mp hq
    split at tag
    · exact absurd rfl tag
    · next other => rwa [if_neg other]

/-- Values for different outputs can be staged one after another. -/
theorem stageAll (h : r.Wired) {vs : List (String × TagValue)}
    (distinct : (vs.map Prod.fst).Nodup) (takes : ∀ x ∈ vs, Takes x.1 x.2) :
    ∃ r', Link.stageAll r vs = .ok r' ∧ r'.Wired ∧ (∀ x ∈ vs, r'.Stages x.1 x.2) ∧
      ∀ q ∈ r'.points, q.tag ∉ vs.map Prod.fst → q ∈ r.points := by
  induction vs generalizing r with
  | nil => exact ⟨r, rfl, h, nofun, fun q hq _ => hq⟩
  | cons x vs ih =>
    rw [List.map_cons, List.nodup_cons] at distinct
    obtain ⟨fresh, distinct⟩ := distinct
    obtain ⟨r₁, staged, wired, stages, others⟩ := h.stage (takes x List.mem_cons_self)
    obtain ⟨r₂, rest, wired', stages', others'⟩ :=
      ih wired distinct fun y hy => takes y (List.mem_cons_of_mem x hy)
    refine ⟨r₂, ?_, wired', ?_, ?_⟩
    · rw [Link.stageAll, staged]
      exact rest
    · rintro y (_ | ⟨_, later⟩)
      -- what is staged later has other tags
      · intro q hq tag
        exact stages q (others' q hq (tag ▸ fresh)) tag
      · exact stages' y later
    · intro q hq other
      rw [List.map_cons, List.mem_cons, not_or] at other
      exact others q (others' q hq other.2) other.1

end Wired

end Registry

end Winding
