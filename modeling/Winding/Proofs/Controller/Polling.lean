import Winding.Proofs.Controller.Simulated
import Winding.Proofs.Controller.Trigger

/-!
# Polls and submissions at a sound controller

A sound controller answers every point of a registry. A poll finds the readiness and the position
that are there when `READY` is read, and no fault (`Link.poll_simulator`). A motion that is
submitted while the controller rests is under way to the end of its primitive
(`Link.submit_simulator`). Which motion a primitive asks for, and where it ends, follows from where
the controller rests (`Primitive.motion?`, `Primitive.arrives`).
-/

namespace Winding

open Simulator (ReadsReady Fits fits_of_wired)

/-! ## Points -/

namespace Point

/-- The point with the value that a sound controller has for it. -/
def found (s : Simulator) (p : Point) : Point :=
  if p.isOutput then p else { p with value := (s.tag? p.tag).getD p.value }

/-- The point after its value was sent. -/
def sent (p : Point) : Point := if p.isOutput then { p with isStaged := false } else p

/-- What is sent for a point. -/
def setting (p : Point) : String × TagValue := (p.tag, p.value)

variable {s s' : Simulator} {p : Point}

@[simp] theorem found_isOutput : (p.found s).isOutput = p.isOutput := by
  unfold found
  split
  · rfl
  · rfl

@[simp] theorem found_isStaged : (p.found s).isStaged = p.isStaged := by
  unfold found
  split
  · rfl
  · rfl

@[simp] theorem sent_isOutput : p.sent.isOutput = p.isOutput := by
  unfold sent
  split
  · rfl
  · rfl

theorem sent_isStaged (output : p.isOutput = true) : p.sent.isStaged = false := by
  rw [sent, if_pos output]

theorem sent_eq_self (still : p.isOutput = true → p.isStaged = false) : p.sent = p := by
  unfold sent
  split
  · next output => rw [← still output]
  · rfl

/-- A sound controller has every tag that is wired. -/
theorem exists_tag (sound : s.Sound) (wired : p.wiring ∈ Registry.standard.wiring) :
    ∃ v, s.tag? p.tag = some v ∧ p.kind.hold? v = some v := by
  obtain ⟨v, found, kind⟩ := Option.map_eq_some_iff.mp (sound.tags _ wired)
  exact ⟨v, found, PointKind.hold?_eq_self_iff.mpr kind⟩

theorem refresh_eq (sound : s.Sound) (wired : p.wiring ∈ Registry.standard.wiring)
    (other : p.tag ≠ Tag.ready) :
    p.refresh s = (.ok { p with value := (s.tag? p.tag).getD p.value }, s) := by
  obtain ⟨v, known, holds⟩ := exists_tag sound wired
  have answer : Adapter.read s p.tag = (.ok v, s) := sound.read_eq other known
  rw [refresh, answer]
  simp only [hold, holds, known, Option.getD_some]

/-- The readiness is refreshed with a change of the controller. -/
theorem refresh_ready {ready : Bool} (reads : s.ReadsReady ready s')
    (wired : p.wiring = (Tag.ready, .flag, false)) :
    p.refresh s = (.ok { p with value := .flag ready }, s') := by
  obtain ⟨tag, kind, -⟩ : p.tag = Tag.ready ∧ p.kind = .flag ∧ p.isOutput = false := by
    simpa [Point.wiring] using wired
  have answer : Adapter.read s p.tag = (.ok (.flag ready), s') := tag ▸ reads.answer
  rw [refresh, answer]
  simp only [hold, kind]
  rfl

/-- A value that waits is set, and the trigger begins its motion. -/
theorem send_eq (functional : s.isFunctional = true) (present : (s.tag? p.tag).isSome = true)
    (waits : p.isStaged = true) :
    p.send s = (.ok { p with isStaged := false },
      if p.tag = Tag.moveType then (s.set p.tag p.value).begin (.ofCode (p.value.word?.getD 0))
      else s.set p.tag p.value) := by
  have found : (s.tag? p.tag).isNone = false := by
    rw [Option.isNone_eq_false_iff]
    exact present
  have written : Adapter.write s p.tag p.value = (.ok (),
      if p.tag = Tag.moveType then (s.set p.tag p.value).begin (.ofCode (p.value.word?.getD 0))
      else s.set p.tag p.value) := by
    show s.write p.tag p.value = _
    rw [Simulator.write, functional, found]
    rfl
  rw [send, waits, written]
  rfl

end Point

namespace Registry

/-! ## Visits -/

section

variable {σ : Type} {select : Point → Bool} {use : Point → σ → Answer Point × σ}

theorem visit_cons_of_ok {p p' : Point} {plc plc' : σ} (selected : select p = true)
    (used : use p plc = (.ok p', plc')) (ps : List Point) :
    visit select use (p :: ps) plc =
      ((visit select use ps plc').1, p' :: (visit select use ps plc').2.1,
        (visit select use ps plc').2.2) := by
  rw [visit, if_pos selected, used]

theorem visit_cons_of_skipped {p : Point} (skipped : select p = false) (ps : List Point)
    (plc : σ) :
    visit select use (p :: ps) plc =
      ((visit select use ps plc).1, p :: (visit select use ps plc).2.1,
        (visit select use ps plc).2.2) := by
  rw [visit, if_neg (Bool.eq_false_iff.mp skipped)]

/-- What comes behind points that were all answered is visited after them. -/
theorem visit_append {ps ps' : List Point} {plc plc' : σ}
    (h : visit select use ps plc = (.ok (), ps', plc')) (qs : List Point) :
    visit select use (ps ++ qs) plc =
      ((visit select use qs plc').1, ps' ++ (visit select use qs plc').2.1,
        (visit select use qs plc').2.2) := by
  induction ps generalizing plc ps' with
  | nil =>
    cases h
    rfl
  | cons p ps ih =>
    rw [List.cons_append]
    by_cases selected : select p = true
    · rcases used : use p plc with ⟨e | p', plc₁⟩
      · rw [visit, if_pos selected, used] at h
        cases h
      · rw [visit_cons_of_ok selected used] at h
        rcases visited : visit select use ps plc₁ with ⟨result, ps₁, plc₂⟩
        rw [visited] at h
        cases h
        rw [visit_cons_of_ok selected used, ih visited]
        rfl
    · rw [Bool.not_eq_true] at selected
      rw [visit_cons_of_skipped selected] at h
      rcases visited : visit select use ps plc with ⟨result, ps₁, plc₂⟩
      rw [visited] at h
      cases h
      rw [visit_cons_of_skipped selected, ih visited]
      rfl

end

variable {r : Registry} {s s' : Simulator} {ps : List Point}

/-- Inputs other than `READY` are refreshed without a change of the controller. -/
theorem visit_refresh (sound : s.Sound) (wired : ∀ p ∈ ps, p.wiring ∈ standard.wiring)
    (other : ∀ p ∈ ps, p.tag ≠ Tag.ready) :
    visit (!·.isOutput) Point.refresh ps s = (.ok (), ps.map (Point.found s), s) := by
  induction ps with
  | nil => rfl
  | cons p ps ih =>
    obtain ⟨wired₁, wired⟩ := List.forall_mem_cons.mp wired
    obtain ⟨other₁, other⟩ := List.forall_mem_cons.mp other
    cases output : p.isOutput with
    | false =>
      have input : (!p.isOutput) = true := by rw [output]; rfl
      rw [visit_cons_of_ok input (Point.refresh_eq sound wired₁ other₁), ih wired other,
        List.map_cons, Point.found, if_neg (Bool.eq_false_iff.mp output)]
    | true =>
      have skipped : (!p.isOutput) = false := by rw [output]; rfl
      rw [visit_cons_of_skipped skipped, ih wired other, List.map_cons, Point.found,
        if_pos output]

/-- Values that wait are set, as long as no motion is triggered. -/
theorem visit_send (functional : s.isFunctional = true)
    (present : ∀ p ∈ ps, (s.tag? p.tag).isSome = true) (other : ∀ p ∈ ps, p.tag ≠ Tag.moveType) :
    visit Point.isOutput Point.send ps s =
      (.ok (), ps.map Point.sent, s.setAll ((staged ps).map Point.setting)) := by
  induction ps generalizing s with
  | nil => rfl
  | cons p ps ih =>
    obtain ⟨present₁, present⟩ := List.forall_mem_cons.mp present
    obtain ⟨other₁, other⟩ := List.forall_mem_cons.mp other
    cases output : p.isOutput with
    | false =>
      have still : staged (p :: ps) = staged ps :=
        List.filter_cons_of_neg (by rw [output]; exact Bool.false_ne_true)
      rw [visit_cons_of_skipped output, ih functional present other, still, List.map_cons,
        Point.sent_eq_self fun h => absurd h (Bool.eq_false_iff.mp output)]
    | true =>
      cases waits : p.isStaged with
      | false =>
        have still : staged (p :: ps) = staged ps :=
          List.filter_cons_of_neg (by rw [output, waits]; exact Bool.false_ne_true)
        have passed : p.send s = (.ok p, s) := by
          rw [Point.send, waits]
          rfl
        rw [visit_cons_of_ok output passed, ih functional present other, still, List.map_cons,
          Point.sent_eq_self fun _ => waits]
      | true =>
        have first : staged (p :: ps) = p :: staged ps :=
          List.filter_cons_of_pos (by rw [output, waits]; rfl)
        have written := Point.send_eq functional present₁ waits
        rw [if_neg other₁] at written
        have present' : ∀ q ∈ ps, ((s.set p.tag p.value).tag? q.tag).isSome = true :=
          fun q hq => Simulator.isSome_set (present q hq) _ _
        rw [visit_cons_of_ok output written,
          ih (s := s.set p.tag p.value) functional present' other, first, List.map_cons,
          List.map_cons, Simulator.setAll_cons, Point.sent, if_pos output]
        rfl

/-! ## Polls -/

/-- Nothing waits to be sent. -/
structure Flushed (r : Registry) : Prop where
  wired : r.Wired
  sent : ∀ p ∈ r.points, p.isOutput = true → p.isStaged = false

theorem standard_flushed : Flushed standard := ⟨.standard, by decide⟩

theorem Wired.mem_wiring (h : r.Wired) {p : Point} (hp : p ∈ r.points) :
    p.wiring ∈ Registry.standard.wiring := by
  rw [← h]
  exact List.mem_map_of_mem hp

theorem Wired.value?_eq (h : r.Wired) {p : Point} (hp : p ∈ r.points) :
    r.value? p.tag = some p.value := by
  rw [value?, h.get?_eq hp, Option.map_some]

/-- An input that was refreshed shows the value of its tag. -/
theorem Wired.value?_found (h : r.Wired) (sound : s.Sound) {p : Point}
    (mem : p.found s ∈ r.points) (wired : p.wiring ∈ Registry.standard.wiring)
    (input : p.isOutput = false) : r.value? p.tag = s.tag? p.tag := by
  obtain ⟨v, known, -⟩ := Point.exists_tag sound wired
  have refreshed : p.found s = { p with value := v } := by
    rw [Point.found, input, known]
    rfl
  rw [refreshed] at mem
  rw [known]
  exact h.value?_eq mem

/-- `READY` stands behind the inputs that tell the state. -/
theorem standard_ready : standard.wiring =
    standard.wiring.take 3 ++ (Tag.ready, .flag, false) :: standard.wiring.drop 4 := by
  decide

theorem Wired.split_ready (h : r.Wired) :
    ∃ before q behind, r.points = before ++ q :: behind ∧
      before.map Point.wiring = Registry.standard.wiring.take 3 ∧
      q.wiring = (Tag.ready, .flag, false) ∧
      behind.map Point.wiring = Registry.standard.wiring.drop 4 ∧
      ∀ p ∈ before ++ behind, p.tag ≠ Tag.ready := by
  have split : r.points.map Point.wiring = Registry.standard.wiring.take 3 ++
      (Tag.ready, .flag, false) :: Registry.standard.wiring.drop 4 := h.trans standard_ready
  obtain ⟨before, rest, points, first, tail⟩ := List.map_eq_append_iff.mp split
  obtain ⟨q, behind, rfl, wired, last⟩ := List.map_eq_cons_iff.mp tail
  refine ⟨before, q, behind, points, first, wired, last, fun p hp same => ?_⟩
  have tag : q.tag = Tag.ready := congrArg Prod.fst wired
  have distinct := h.distinct
  rw [points, List.map_append, List.map_cons, List.nodup_middle, List.nodup_cons,
    ← List.map_append] at distinct
  refine distinct.1 ?_
  rw [tag, ← same]
  exact List.mem_map_of_mem hp

/-- What is known after a poll: the inputs before `READY` as they were, and those behind it as they
are after the read of it. -/
structure Shows (r : Registry) (s : Simulator) (ready : Bool) (s' : Simulator) : Prop where
  flushed : r.Flushed
  ready : r.value? Tag.ready = some (.flag ready)
  early : ∀ x ∈ standard.wiring.take 3, x.2.2 = false → r.value? x.1 = s.tag? x.1
  late : ∀ x ∈ standard.wiring.drop 4, x.2.2 = false → r.value? x.1 = s'.tag? x.1

/-- A sound controller answers a poll. -/
theorem Flushed.pollInputs (h : r.Flushed) {ready : Bool} (sound : s.Sound)
    (reads : s.ReadsReady ready s') :
    ∃ r', r.pollInputs s = (.ok (), r', s') ∧ r'.Shows s ready s' := by
  obtain ⟨before, q, behind, points, first, ready', last, others⟩ := h.wired.split_ready
  have wired : ∀ p ∈ before ++ q :: behind, p.wiring ∈ standard.wiring :=
    fun p hp => h.wired.mem_wiring (points ▸ hp)
  have sent := h.sent
  rw [points] at sent
  obtain ⟨wired₁, wired₂⟩ := List.forall_mem_append.mp wired
  obtain ⟨-, wired₂⟩ := List.forall_mem_cons.mp wired₂
  obtain ⟨others₁, others₂⟩ := List.forall_mem_append.mp others
  have asked : (!q.isOutput) = true := congrArg (!·.2.2) ready'
  have polled : r.pollInputs s = (.ok (), ⟨before.map (Point.found s) ++
      { q with value := .flag ready } :: behind.map (Point.found s')⟩, s') := by
    rw [Registry.pollInputs, points, visit_append (visit_refresh sound wired₁ others₁),
      visit_cons_of_ok asked (Point.refresh_ready reads ready'),
      visit_refresh reads.sound wired₂ others₂]
  have wired' := h.wired.pollInputs s
  rw [polled] at wired'
  refine ⟨_, polled, ⟨wired', ?_⟩, ?_, ?_, ?_⟩
  · simp only [List.forall_mem_append, List.forall_mem_cons, List.forall_mem_map,
      Point.found_isOutput, Point.found_isStaged] at sent ⊢
    exact sent
  · have tag : q.tag = Tag.ready := congrArg Prod.fst ready'
    rw [← tag]
    exact wired'.value?_eq (p := { q with value := .flag ready }) (by simp)
  · intro x hx output
    rw [← first] at hx
    obtain ⟨p, hp, rfl⟩ := List.mem_map.mp hx
    exact wired'.value?_found sound (List.mem_append_left _ (List.mem_map_of_mem hp))
      (wired₁ p hp) output
  · intro x hx output
    rw [← last] at hx
    obtain ⟨p, hp, rfl⟩ := List.mem_map.mp hx
    exact wired'.value?_found reads.sound
      (List.mem_append_right _ (List.mem_cons_of_mem _ (List.mem_map_of_mem hp)))
      (wired₂ p hp) output

/-! ## Flushes -/

/-- Values for different outputs are staged, and nothing else is. -/
theorem Flushed.stageAll (h : r.Flushed) {vs : List (String × TagValue)}
    (distinct : (vs.map Prod.fst).Nodup) (takes : ∀ x ∈ vs, Takes x.1 x.2) :
    ∃ r', Link.stageAll r vs = .ok r' ∧ r'.Wired ∧
      ∀ x, x ∈ (staged r'.points).map Point.setting ↔ x ∈ vs := by
  obtain ⟨r', all, wired, stages, others⟩ := h.wired.stageAll distinct takes
  refine ⟨r', all, wired, fun x => ⟨fun hx => ?_, fun hx => ?_⟩⟩
  · obtain ⟨p, hp, rfl⟩ := List.mem_map.mp hx
    obtain ⟨hp, waits⟩ := List.mem_filter.mp hp
    obtain ⟨output, waits⟩ := Bool.and_eq_true_iff.mp waits
    by_cases new : p.tag ∈ vs.map Prod.fst
    · obtain ⟨⟨tag, v⟩, hv, rfl⟩ := List.mem_map.mp new
      rw [Point.setting, (stages _ hv p hp rfl).1]
      exact hv
    · exact absurd (waits.symm.trans (h.sent p (others p hp new) output)) (by decide)
  · obtain ⟨kind, mem, -⟩ := takes x hx
    obtain ⟨p, hp, same⟩ := wired.exists_point mem
    obtain ⟨tag, -, output⟩ : p.tag = x.1 ∧ p.kind = kind ∧ p.isOutput = true := by
      simpa [Point.wiring] using same
    obtain ⟨value, waits⟩ := stages x hx p hp tag
    refine List.mem_map.mpr ⟨p, List.mem_filter.mpr ⟨hp, by rw [output, waits]; rfl⟩, ?_⟩
    rw [Point.setting, tag, value]

/-- A trigger that waits is the last point. -/
theorem Wired.split_trigger (h : r.Wired) {v : TagValue}
    (triggered : (Tag.moveType, v) ∈ (staged r.points).map Point.setting) :
    ∃ ps q, r.points = ps ++ [q] ∧ q.setting = (Tag.moveType, v) ∧ q.isOutput = true ∧
      q.isStaged = true ∧ ∀ p ∈ ps, p.tag ≠ Tag.moveType := by
  obtain ⟨ps, q, points, tag, output, others⟩ := h.trigger_last
  obtain ⟨p, hp, setting⟩ := List.mem_map.mp triggered
  obtain ⟨hp, waits⟩ := List.mem_filter.mp hp
  have hq : q ∈ r.points := points ▸ List.mem_append_right _ (List.mem_singleton_self q)
  obtain rfl := h.eq_of_tag hp hq ((congrArg Prod.fst setting).trans tag.symm)
  exact ⟨ps, p, points, setting, output, (Bool.and_eq_true_iff.mp waits).2, others⟩

/-- A sound controller takes what is staged. With the trigger, which comes last, it begins the
motion. -/
theorem Wired.flushOutputs_simulator (h : r.Wired) (sound : s.Sound) {code : Int}
    (triggered : (Tag.moveType, .word code) ∈ (staged r.points).map Point.setting) :
    ∃ r', r.flushOutputs s = (.ok (), r',
        (s.setAll ((staged r.points).map Point.setting)).begin (.ofCode code)) ∧ r'.Flushed := by
  have present : ∀ p ∈ r.points, (s.tag? p.tag).isSome = true := by
    intro p hp
    obtain ⟨v, known, -⟩ := Point.exists_tag sound (h.mem_wiring hp)
    rw [known]
    rfl
  obtain ⟨ps, q, points, setting, output, waits, others⟩ := h.split_trigger triggered
  obtain ⟨trigger, value⟩ : q.tag = Tag.moveType ∧ q.value = .word code := by
    simpa [Point.setting] using setting
  rw [points, List.forall_mem_append, List.forall_mem_singleton] at present
  have back : staged (ps ++ [q]) = staged ps ++ [q] := by
    rw [staged, List.filter_append, List.filter_cons_of_pos (by rw [output, waits]; rfl)]
    rfl
  have begun := Point.send_eq (s := s.setAll ((staged ps).map Point.setting)) sound.functional
    (Simulator.isSome_setAll present.2 _) waits
  rw [if_pos trigger] at begun
  have flushed : r.flushOutputs s = (.ok (), ⟨r.points.map Point.sent⟩,
      (s.setAll ((staged r.points).map Point.setting)).begin (.ofCode code)) := by
    rw [Registry.flushOutputs, points, visit_append (visit_send sound.functional present.1 others),
      visit_cons_of_ok output begun, visit, back, List.map_append, List.map_append]
    simp only [List.map_cons, List.map_nil, Simulator.setAll_concat, Point.setting, Point.sent,
      output, value]
    rfl
  have wired := h.flushOutputs s
  rw [flushed] at wired
  refine ⟨_, flushed, wired, fun p hp outgoing => ?_⟩
  obtain ⟨p', -, rfl⟩ := List.mem_map.mp hp
  rw [Point.sent_isOutput] at outgoing
  exact Point.sent_isStaged outgoing

end Registry

/-! ## Primitives -/

section

variable {R : Type} [Scalar R]

/-- A place of the controller, in the numbers of the winder. -/
def Location.widen (place : Location Float32) : Location R :=
  ⟨Scalar.ofSingle place.x, Scalar.ofSingle place.y, Scalar.ofSingle place.z⟩

namespace Primitive

/-- The motion that a primitive asks for while the controller rests at a place. A dwell and a pause
ask for none. -/
def motion? (place : Location Float32) : Primitive R → Option ControllerState
  | .move target _ | .seek _ target _ =>
    some (if Location.near target.x (Scalar.ofSingle place.x) &&
        Location.near target.y (Scalar.ofSingle place.y) then .zSeek else .xySeek)
  | .latch _ => some .latching
  | .head _ _ => some .head
  | .dwell _ | .pause => none

/-- Where a primitive leaves the controller that rests at a place: a move and a seek put all three
axes at their target, the head the z axis alone. -/
def arrives (place : Location Float32) : Primitive R → Location Float32
  | .move target _ | .seek _ target _ =>
    ⟨Scalar.toSingle target.x, Scalar.toSingle target.y, Scalar.toSingle target.z⟩
  | .head _ z => { place with z := Scalar.toSingle z }
  | .latch _ | .dwell _ | .pause => place

variable {place : Location Float32} {p : Primitive R} {motion : ControllerState}

theorem motion?_isSome (place : Location Float32) (p : Primitive R) :
    (p.motion? place).isSome = p.isMotion := by
  cases p with
  | _ => rfl

theorem request?_of_position {l : Link R} (known : l.position = place.widen)
    (asks : p.motion? place = some motion) : l.request? p = some (motion, p.parameters) := by
  cases p with
  | move | seek =>
    rw [← Option.some.inj asks]
    simp only [Link.request?, Link.isVertical, known]
    rfl
  | latch | head =>
    cases asks
    rfl
  | dwell | pause => cases asks

/-- A motion is asked for by its code, which is not that of the error. -/
theorem ofCode_of_motion? (asks : p.motion? place = some motion) :
    .ofCode motion.code = motion ∧ motion ≠ .error := by
  cases p with
  | move | seek =>
    rw [← Option.some.inj asks]
    split
    · exact ⟨rfl, nofun⟩
    · exact ⟨rfl, nofun⟩
  | latch | head =>
    cases asks
    exact ⟨rfl, nofun⟩
  | dwell | pause => cases asks

/-- The coordinates where a motion ends are its parameters, for the axes that it moves. -/
theorem arrives_on (asks : p.motion? place = some motion) (a : Axis) :
    if Simulator.moves motion a then
      (Tag.target a, .analog ((p.arrives place).on a)) ∈ p.parameters
    else (p.arrives place).on a = place.on a := by
  cases p with
  | move target limits | seek _ target limits =>
    have all : Simulator.moves motion a = true := by
      rw [← Option.some.inj asks]
      split
      · rfl
      · rfl
    rw [if_pos all]
    cases a with
    | x => exact .head _
    | y => exact .tail _ (.head _)
    | z => exact .tail _ (.tail _ (.head _))
  | latch => cases asks; rfl
  | head =>
    cases asks
    cases a with
    | x | y => rfl
    | z => exact .tail _ (.head _)
  | dwell | pause => cases asks

/-- What is written for a primitive that asks for a motion. -/
def request (p : Primitive R) (motion : ControllerState) : List (String × TagValue) :=
  p.parameters ++ [(Tag.moveType, .word motion.code)]

theorem request_distinct (p : Primitive R) (motion : ControllerState) :
    ((p.request motion).map Prod.fst).Nodup :=
  p.parameters_distinct (.word motion.code)

theorem request_take (p : Primitive R) (motion : ControllerState) :
    ∀ x ∈ p.request motion, Registry.Takes x.1 x.2 :=
  p.trigger_take motion.code

end Primitive

/-! ## Links -/

namespace Link

variable {l : Link R} {s s' : Simulator} {place : Location Float32}

/-- The status that sound controllers show is healthy. -/
theorem statusOf_sound {r : Registry} {ready : Bool} (h : r.Shows s ready s') (sound : s.Sound)
    (sound' : s'.Sound) :
    (statusOf r : ControllerStatus R).ready = ready ∧
      (statusOf r : ControllerStatus R).isHealthy = true := by
  obtain ⟨code, state, noError⟩ := sound.state
  have shown : r.value? Tag.state = some (.word code) :=
    (h.early (Tag.state, .word, false) (by decide) rfl).trans state
  have errorCode : r.value? Tag.errorCode = some (.word 0) :=
    (h.early (Tag.errorCode, .word, false) (by decide) rfl).trans sound.errorCode
  have moduleFault (a : Axis) : r.value? (Tag.moduleFault a) = some (.flag false) :=
    (h.late (Tag.moduleFault a, .flag, false) (by cases a <;> decide) rfl).trans
      (sound'.moduleFault a)
  refine ⟨?_, ?_⟩
  · simp [statusOf, h.ready, TagValue.flag?]
  · simp [statusOf, ControllerStatus.isHealthy, ControllerStatus.isFault, shown, errorCode,
      moduleFault, TagValue.flag?, TagValue.word?, noError]

/-- The status shows where the controller rests. -/
theorem statusOf_position {r : Registry} {ready : Bool} (h : r.Shows s ready s')
    (idle : s'.Idle place) : (statusOf r : ControllerStatus R).position = place.widen := by
  have position (a : Axis) : r.value? (Tag.position a) = some (.analog (place.on a)) :=
    (h.late (Tag.position a, .analog, false) (by cases a <;> decide) rfl).trans (idle.position a)
  simp [statusOf, position, TagValue.number?, Location.widen, Location.on]

/-- A poll of a sound controller is answered with a healthy status, and finds the controller where
it rests. -/
theorem poll_simulator (flushed : l.registry.Flushed) (sound : s.Sound) {ready : Bool}
    (reads : s.ReadsReady ready s') :
    ∃ (status : ControllerStatus R) (l' : Link R), l.poll s = (.ok status, l', s', 0) ∧
      status.ready = ready ∧ status.stalled = none ∧ status.isHealthy = true ∧
        l'.registry.Flushed ∧ ∀ place, s'.Idle place → l'.position = place.widen := by
  obtain ⟨r, polled, shows⟩ := flushed.pollInputs sound reads
  obtain ⟨readiness, healthy⟩ := statusOf_sound (R := R) shows sound reads.sound
  have functional : Adapter.functional s = true := sound.functional
  refine ⟨statusOf r, { l with registry := r, position := (statusOf r).position }, ?_, readiness,
    rfl, healthy, shows.flushed, fun place idle => statusOf_position shows idle⟩
  rw [poll, functional, polled]
  rfl

/-- Once the request is set, the targets of a motion are where its primitive ends, and the
controller is there on the other axes. -/
theorem tag?_of_request (idle : s.Idle place) {p : Primitive R} {motion : ControllerState}
    (asks : p.motion? place = some motion) {settings : List (String × TagValue)}
    (all : ∀ x, x ∈ settings ↔ x ∈ p.request motion) (a : Axis) :
    (s.setAll settings).tag? (if Simulator.moves motion a then Tag.target a else Tag.position a) =
      some (.analog ((p.arrives place).on a)) := by
  have arrives := Primitive.arrives_on asks a
  split at arrives
  · next moved =>
    have mem := List.mem_append_left [(Tag.moveType, .word motion.code)] arrives
    rw [if_pos moved]
    refine Simulator.tag?_setAll_of_mem ((all _).mpr mem) fun x hx same => ?_
    exact congrArg Prod.snd
      (List.inj_on_of_nodup_map (p.request_distinct motion) ((all x).mp hx) mem same)
  · next still =>
    rw [if_neg still, arrives, ← idle.position]
    refine Simulator.tag?_setAll_of_notMem fun x hx same => ?_
    have input : (Tag.position a, .analog, false) ∈ Registry.standard.wiring := by
      cases a <;> decide
    obtain ⟨kind, wired, -⟩ := p.request_take motion x ((all x).mp hx)
    have output : true = false := congrArg (·.2.2) (Registry.wiring_unique wired input same)
    cases output

/-- A motion that is submitted while the controller rests is under way to the end of its
primitive. -/
theorem submit_simulator (flushed : l.registry.Flushed) (idle : s.Idle place)
    (known : l.position = place.widen) {p : Primitive R} {motion : ControllerState}
    (asks : p.motion? place = some motion) :
    ∃ l' s', l.submit s p = (.ok (), l', s', 0) ∧ l'.registry.Flushed ∧
      s'.Underway s.completionPolls (p.arrives place) ∧
        s'.completionPolls = s.completionPolls ∧ s'.submissions = s.submissions ++ [motion] := by
  obtain ⟨decoded, noError⟩ := Primitive.ofCode_of_motion? asks
  obtain ⟨r, staged, wired, settings⟩ :=
    flushed.stageAll (p.request_distinct motion) (p.request_take motion)
  obtain ⟨r', sent, flushed'⟩ := wired.flushOutputs_simulator idle.toSound
    ((settings _).mpr (List.mem_append_right _ List.mem_cons_self))
  rw [decoded] at sent
  have sound : (s.setAll ((Registry.staged r.points).map Point.setting)).Sound := by
    refine idle.toSound.setAll fun x hx => ?_
    obtain ⟨kind, wired, holds⟩ := p.request_take motion x ((settings x).mp hx)
    exact fits_of_wired wired (PointKind.hold?_eq_self_iff.mp holds)
  have underway := sound.begin_underway (decoded.symm ▸ noError)
    (tag?_of_request idle asks settings)
  obtain ⟨submissions, polls⟩ := sound.begin_submissions motion
  have submitted : l.submit s p = (.ok (), { l with registry := r' },
      (s.setAll ((Registry.staged r.points).map Point.setting)).begin motion, 0) := by
    have all : stageAll l.registry (p.parameters ++ [(Tag.moveType, .word motion.code)]) = .ok r :=
      staged
    rw [submit, Primitive.request?_of_position known asks]
    simp only [all, sent]
  exact ⟨_, _, submitted, flushed', underway, polls, submissions⟩

end Link

end

end Winding
