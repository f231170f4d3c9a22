import Winding.Proofs.Controller.Turns
import Winding.Proofs.Controller.Wiring

/-!
# Triggers come after their parameters

A controller is watched through a log of all writes that reached it (`Logged`), which changes
nothing (`Link.submit_logged`). A flush writes the staged outputs in their order, up to the first
that is not accepted (`Registry.flush_writes`). Outputs that an earlier flush left behind are
written with it, but the trigger of a motion is always that of the submission in progress, and it is
written after the parameters of this submission were accepted (`Link.trigger_after_parameters`).
-/

namespace Winding

/-! ## The log of writes -/

/-- A write that reached the controller, and whether it was accepted. -/
structure TagWrite where
  tag : String
  value : TagValue
  accepted : Bool

/-- A controller with a log of the writes that reached it. -/
structure Logged (σ : Type) where
  plc : σ
  writes : List TagWrite

instance {σ : Type} [Adapter σ] : Adapter (Logged σ) where
  functional w := Adapter.functional w.plc
  read w tag := ((Adapter.read w.plc tag).1, { w with plc := (Adapter.read w.plc tag).2 })
  write w tag v :=
    let answer := Adapter.write w.plc tag v
    (answer.1, ⟨answer.2, w.writes ++ [⟨tag, v, answer.1.isOk⟩]⟩)

/-- The value that was accepted last for a tag. -/
def lastAccepted? (ws : List TagWrite) (tag : String) : Option TagValue :=
  (ws.reverse.find? fun w => w.accepted && w.tag == tag).map TagWrite.value

theorem lastAccepted?_append {old ws : List TagWrite} {tag : String} {v : TagValue}
    (some : ∃ w ∈ ws, w.accepted = true ∧ w.tag = tag)
    (only : ∀ w ∈ ws, w.tag = tag → w.value = v) :
    lastAccepted? (old ++ ws) tag = .some v := by
  have found : (ws.reverse.find? fun w => w.accepted && w.tag == tag).isSome := by
    obtain ⟨w, hw, accepted, same⟩ := some
    rw [List.find?_isSome]
    exact ⟨w, List.mem_reverse.mpr hw, by simp [accepted, same]⟩
  obtain ⟨w, hw⟩ := Option.isSome_iff_exists.mp found
  have same := List.find?_some hw
  simp only [Bool.and_eq_true, beq_iff_eq] at same
  have value := only w (List.mem_reverse.mp (List.mem_of_find?_eq_some hw)) same.2
  rw [lastAccepted?, List.reverse_append, List.find?_append, hw, Option.some_or, Option.map_some,
    value]

/-! ## Flushing -/

/-- The write of a point's value, accepted or not. -/
def Point.write (p : Point) (accepted : Bool) : TagWrite := ⟨p.tag, p.value, accepted⟩

namespace Registry

/-- The outputs that wait to be sent. -/
def staged (ps : List Point) : List Point := ps.filter fun p => p.isOutput && p.isStaged

/-- What a flush of points may write, by its answer. -/
inductive Writes (ps : List Point) : Answer Unit → List TagWrite → Prop
  | all : Writes ps (.ok ()) ((staged ps).map (·.write true))
  /-- One write was not accepted, and none came after it. -/
  | upTo {before after : List Point} {p : Point} (e : NoAnswer)
      (split : staged ps = before ++ p :: after) :
    Writes ps (.error e) (before.map (·.write true) ++ [p.write false])

variable {p : Point} {ps : List Point} {answer : Answer Unit} {ws : List TagWrite}

theorem Writes.skip (h : Writes ps answer ws) (still : (p.isOutput && p.isStaged) = false) :
    Writes (p :: ps) answer ws := by
  have same : staged (p :: ps) = staged ps := List.filter_cons_of_neg (by simp [still])
  cases h with
  | all => exact same ▸ .all
  | upTo e split => exact .upTo e (same.trans split)

theorem Writes.cons (h : Writes ps answer ws) (waits : (p.isOutput && p.isStaged) = true) :
    Writes (p :: ps) answer (p.write true :: ws) := by
  have more : staged (p :: ps) = p :: staged ps := List.filter_cons_of_pos waits
  cases h with
  | all =>
    have whole : Writes (p :: ps) (.ok ()) ((staged (p :: ps)).map (·.write true)) := .all
    rwa [more] at whole
  | @upTo before after refused e split =>
    have later : staged (p :: ps) = (p :: before) ++ refused :: after := by
      rw [more, split, List.cons_append]
    exact .upTo e later

variable {σ : Type} [Adapter σ]

/-- Sending a point writes its value if it waits. -/
theorem send_cases (p : Point) (w : Logged σ) :
    p.isStaged = false ∧ p.send w = (.ok p, w) ∨
    p.isStaged = true ∧ ∃ plc,
      p.send w = (.ok { p with isStaged := false }, ⟨plc, w.writes ++ [p.write true]⟩) ∨
      ∃ e, p.send w = (.error e, ⟨plc, w.writes ++ [p.write false]⟩) := by
  unfold Point.send
  by_cases waits : p.isStaged = true
  · refine .inr ⟨waits, (Adapter.write w.plc p.tag p.value).2, ?_⟩
    rw [waits]
    simp only [Adapter.write, Bool.not_true, Bool.false_eq_true, if_false]
    rcases Adapter.write w.plc p.tag p.value with ⟨⟨e⟩ | ⟨⟨⟩⟩, plc⟩
    · exact .inr ⟨e, rfl⟩
    · exact .inl rfl
  · rw [Bool.not_eq_true] at waits
    refine .inl ⟨waits, ?_⟩
    rw [waits]
    rfl

/-- A flush writes the staged outputs in their order, up to the first that is not accepted. -/
theorem flush_writes (ps : List Point) (w : Logged σ) :
    ∃ ws, (visit Point.isOutput Point.send ps w).2.2.writes = w.writes ++ ws ∧
      Writes ps (visit Point.isOutput Point.send ps w).1 ws := by
  induction ps generalizing w with
  | nil => exact ⟨[], (List.append_nil _).symm, .all⟩
  | cons p ps ih =>
    unfold visit
    by_cases output : p.isOutput = true
    · rw [if_pos output]
      rcases send_cases p w with ⟨still, sent⟩ | ⟨waits, plc, sent | ⟨e, sent⟩⟩
      · rw [sent]
        obtain ⟨ws, more, writes⟩ := ih w
        exact ⟨ws, more, writes.skip (by rw [still, Bool.and_false])⟩
      · rw [sent]
        obtain ⟨ws, more, writes⟩ := ih ⟨plc, w.writes ++ [p.write true]⟩
        refine ⟨p.write true :: ws, ?_, writes.cons (by rw [output, waits]; rfl)⟩
        exact more.trans (List.append_assoc ..)
      · rw [sent]
        have front : staged (p :: ps) = [] ++ p :: staged ps :=
          List.filter_cons_of_pos (by rw [output, waits]; rfl)
        exact ⟨[p.write false], rfl, .upTo e front⟩
    · rw [if_neg output]
      obtain ⟨ws, more, writes⟩ := ih w
      exact ⟨ws, more, writes.skip (by rw [Bool.not_eq_true] at output; rw [output]; rfl)⟩

/-! ## The trigger -/

omit [Adapter σ] in
/-- A staged output behind all others is written last, or something before it is not accepted. -/
theorem Writes.last {q : Point} (h : Writes (ps ++ [q]) answer ws)
    (waits : (q.isOutput && q.isStaged) = true) :
    (∃ accepted, ws = (staged ps).map (·.write true) ++ [q.write accepted] ∧
      (answer = .ok () → accepted = true)) ∨
    (∃ e, answer = .error e) ∧ ∀ w ∈ ws, ∃ p ∈ ps, w.tag = p.tag := by
  have back : staged [q] = [q] := List.filter_cons_of_pos waits
  have split : staged (ps ++ [q]) = staged ps ++ [q] := by
    rw [staged, List.filter_append]
    exact congrArg (staged ps ++ ·) back
  cases h with
  | all =>
    refine .inl ⟨true, ?_, fun _ => rfl⟩
    rw [split, List.map_append]
    rfl
  | @upTo before after p e stop =>
    rw [split] at stop
    rcases List.eq_nil_or_concat after with rfl | ⟨more, last, rfl⟩
    · obtain ⟨rfl, same⟩ := List.append_inj' stop rfl
      cases same
      exact .inl ⟨false, rfl, nofun⟩
    · have early : staged ps = before ++ p :: more := by
        rw [List.concat_eq_append, ← List.cons_append, ← List.append_assoc] at stop
        exact (List.append_inj' stop rfl).1
      refine .inr ⟨⟨e, rfl⟩, fun w hw => ?_⟩
      have mem (x : Point) (hx : x ∈ before ++ [p]) : x ∈ ps := by
        refine List.mem_of_mem_filter (p := fun p => p.isOutput && p.isStaged) ?_
        show x ∈ staged ps
        rw [early, List.append_cons]
        exact List.mem_append_left more hx
      rcases List.mem_append.mp hw with hw | hw
      · obtain ⟨x, hx, rfl⟩ := List.mem_map.mp hw
        exact ⟨x, mem x (List.mem_append_left _ hx), rfl⟩
      · rw [List.mem_singleton.mp hw]
        exact ⟨p, mem p (by simp), rfl⟩

end Registry

/-! ## Submissions -/

namespace Primitive

variable {R : Type} [Scalar R]

/-- What is written to trigger a primitive: `2` for travel, `3` if it is along the z axis alone, `4`
for the latch and `5` for the head. A dwell and a pause trigger nothing. -/
def trigger? (l : Link R) : Primitive R → Option Int
  | .move target _ | .seek _ target _ => some (if l.isVertical target then 3 else 2)
  | .latch _ => some 4
  | .head _ _ => some 5
  | .dwell _ | .pause => none

/-- The tags that carry a primitive's parameters, with their values. -/
def parameters : Primitive R → List (String × TagValue)
  | .move target limits | .seek _ target limits =>
    [("X_POSITION", .analog (Scalar.toSingle target.x)),
      ("Y_POSITION", .analog (Scalar.toSingle target.y)),
      ("Z_POSITION", .analog (Scalar.toSingle target.z)),
      ("XY_SPEED", .analog (Scalar.toSingle limits.velocity)),
      ("XY_ACCELERATION", .analog (Scalar.toSingle limits.acceleration)),
      ("XY_DECELERATION", .analog (Scalar.toSingle limits.deceleration))]
  | .latch side => [("LATCH_SIDE", .word side.code)]
  | .head side z =>
    [("HEAD_SIDE", .word side.code), ("Z_POSITION", .analog (Scalar.toSingle z))]
  | .dwell _ | .pause => []

theorem request?_eq (l : Link R) (p : Primitive R) :
    l.request? p = (p.trigger? l).map fun code => (.ofCode code, p.parameters) := by
  cases p with
  | move target limits | seek edge target limits =>
    by_cases vertical : l.isVertical target = true
    · simp only [Link.request?, trigger?, vertical]
      rfl
    · simp only [Link.request?, trigger?, vertical]
      rfl
  | latch | head | dwell | pause => rfl

theorem code_of_trigger? {l : Link R} {p : Primitive R} {code : Int}
    (h : p.trigger? l = some code) : (ControllerState.ofCode code).code = code := by
  cases p with
  | move | seek =>
    obtain rfl := Option.some.inj h
    split
    · rfl
    · rfl
  | latch | head =>
    cases h
    rfl
  | dwell | pause => cases h

theorem trigger?_isSome (l : Link R) (p : Primitive R) :
    (p.trigger? l).isSome = p.isMotion := by
  cases p with
  | move | seek | latch | head | dwell | pause => rfl

/-- Every parameter has an output of its own, and so has the trigger. -/
theorem parameters_distinct (p : Primitive R) (v : TagValue) :
    ((p.parameters ++ [("MOVE_TYPE", v)]).map Prod.fst).Nodup := by
  cases p with
  | move | seek | latch | head | dwell | pause => simp [parameters]

theorem parameters_take (p : Primitive R) : ∀ x ∈ p.parameters, Registry.Takes x.1 x.2 := by
  cases p with
  | move | seek =>
    simp only [parameters, List.forall_mem_cons]
    exact ⟨⟨.analog, by decide, rfl⟩, ⟨.analog, by decide, rfl⟩, ⟨.analog, by decide, rfl⟩,
      ⟨.analog, by decide, rfl⟩, ⟨.analog, by decide, rfl⟩, ⟨.analog, by decide, rfl⟩, nofun⟩
  | latch =>
    simp only [parameters, List.forall_mem_cons]
    exact ⟨⟨.word, by decide, rfl⟩, nofun⟩
  | head =>
    simp only [parameters, List.forall_mem_cons]
    exact ⟨⟨.word, by decide, rfl⟩, ⟨.analog, by decide, rfl⟩, nofun⟩
  | dwell | pause => exact nofun

theorem trigger_take (p : Primitive R) (code : Int) :
    ∀ x ∈ p.parameters ++ [("MOVE_TYPE", .word code)], Registry.Takes x.1 x.2 := by
  have trigger : ("MOVE_TYPE", .word, true) ∈ Registry.standard.wiring := by decide
  rw [List.forall_mem_append, List.forall_mem_singleton]
  exact ⟨p.parameters_take, .word, trigger, rfl⟩

end Primitive

namespace Link

variable {R : Type} [Scalar R] {σ : Type} [Adapter σ]

/-- What the writes of one submission are, after those that came before, by its result. -/
structure Triggers (l : Link R) (p : Primitive R) (before : List TagWrite)
    (result : Except ControllerError Unit) (ws : List TagWrite) : Prop where
  /-- A trigger is the last write. It is the primitive's, whose parameters were accepted. -/
  last : ∀ earlier later v accepted, ws = earlier ++ ⟨"MOVE_TYPE", v, accepted⟩ :: later →
    later = [] ∧ (∃ code, p.trigger? l = some code ∧ v = .word code) ∧
      ∀ x ∈ p.parameters, lastAccepted? (before ++ earlier) x.1 = some x.2
  /-- Motion that was submitted was triggered once. -/
  once : p.isMotion = true → result = .ok () →
    ∃ earlier v, ws = earlier ++ [⟨"MOVE_TYPE", v, true⟩] ∧ ∀ w ∈ earlier, w.tag ≠ "MOVE_TYPE"

omit [Adapter σ] in
/-- A value that is staged in front of the trigger is accepted before the trigger is written. -/
theorem lastAccepted?_staged {r : Registry} (wired : r.Wired) {ps : List Point} {q : Point}
    (points : r.points = ps ++ [q]) {tag : String} {v : TagValue} (takes : Registry.Takes tag v)
    (stages : r.Stages tag v) (other : tag ≠ q.tag) (before : List TagWrite) :
    lastAccepted? (before ++ (Registry.staged ps).map (·.write true)) tag = some v := by
  have front {p : Point} (hp : p ∈ ps) : p ∈ r.points := points ▸ List.mem_append_left [q] hp
  obtain ⟨kind, mem, -⟩ := takes
  obtain ⟨p, hp, same⟩ := wired.exists_point mem
  obtain ⟨rfl, -, output⟩ : p.tag = tag ∧ p.kind = kind ∧ p.isOutput = true := by
    simpa [Point.wiring] using same
  obtain ⟨value, waits⟩ := stages p hp rfl
  have inside : p ∈ ps := by
    rw [points, List.mem_append, List.mem_singleton] at hp
    exact hp.resolve_right fun e => other (congrArg Point.tag e)
  have written : p.write true ∈ (Registry.staged ps).map (·.write true) := by
    refine List.mem_map_of_mem (List.mem_filter.mpr ⟨inside, ?_⟩)
    rw [output, waits]
    rfl
  refine lastAccepted?_append ⟨_, written, rfl, rfl⟩ fun w hw tag => ?_
  obtain ⟨p', hp', rfl⟩ := List.mem_map.mp hw
  exact (stages p' (front (List.mem_of_mem_filter hp')) tag).1

/-- The outputs of a primitive, staged in a wired registry, are written before its trigger. -/
theorem triggers_of_writes {l : Link R} {p : Primitive R} {code : Int}
    (trigger : p.trigger? l = some code) {r : Registry} (wired : r.Wired)
    (parameters : ∀ x ∈ p.parameters, r.Stages x.1 x.2)
    (moveType : r.Stages "MOVE_TYPE" (.word code)) {answer : Answer Unit} {ws : List TagWrite}
    (writes : Registry.Writes r.points answer ws) (before : List TagWrite)
    {result : Except ControllerError Unit} (failed : ∀ e, answer = .error e → result ≠ .ok ()) :
    Triggers l p before result ws := by
  obtain ⟨ps, q, points, tag, output, others⟩ := wired.trigger_last
  obtain ⟨value, staged⟩ := moveType q (by rw [points]; simp) tag
  rw [points] at writes
  rcases writes.last (by rw [output, staged]; rfl) with ⟨accepted, rfl, all⟩ | ⟨⟨e, error⟩, early⟩
  · have early : ∀ w ∈ (Registry.staged ps).map (·.write true), w.tag ≠ "MOVE_TYPE" := by
      intro w hw
      obtain ⟨p', hp', rfl⟩ := List.mem_map.mp hw
      exact others p' (List.mem_of_mem_filter hp')
    have last : q.write accepted = ⟨"MOVE_TYPE", .word code, accepted⟩ := by
      rw [Point.write, tag, value]
    refine ⟨fun earlier later v accepted' split => ?_, fun _ ok => ?_⟩
    · obtain ⟨rfl, rfl, same⟩ :=
        append_singleton_eq_append_cons split fun inside => early _ inside rfl
      rw [last] at same
      refine ⟨rfl, ⟨code, trigger, (congrArg TagWrite.value same).symm⟩, fun x hx => ?_⟩
      have distinct := p.parameters_distinct (.word code)
      rw [List.map_append, List.nodup_append] at distinct
      have other : x.1 ≠ q.tag := tag ▸ distinct.2.2 x.1 (List.mem_map_of_mem hx) _ (by simp)
      exact lastAccepted?_staged wired points (p.parameters_take x hx) (parameters x hx) other
        before
    · cases answer with
      | error e => exact absurd ok (failed e rfl)
      | ok =>
        rw [last, all rfl]
        exact ⟨_, _, rfl, early⟩
  -- a write before the trigger was not accepted
  · refine ⟨fun earlier later v accepted split => ?_, fun _ ok => absurd ok (failed e error)⟩
    obtain ⟨p', hp', same⟩ := early ⟨"MOVE_TYPE", v, accepted⟩ (by rw [split]; simp)
    exact absurd same.symm (others p' hp')

theorem send_logged (p : Point) (w : Logged σ) :
    ((p.send w).1, (p.send w).2.plc) = p.send w.plc := by
  unfold Point.send
  split
  · rfl
  · simp only [Adapter.write]
    rcases Adapter.write w.plc p.tag p.value with ⟨⟨e⟩ | ⟨⟨⟩⟩, plc⟩
    · rfl
    · rfl

omit [Adapter σ] in
theorem visit_logged (select : Point → Bool) {use : Point → Logged σ → Answer Point × Logged σ}
    {use' : Point → σ → Answer Point × σ}
    (same : ∀ p w, ((use p w).1, (use p w).2.plc) = use' p w.plc) (ps : List Point)
    (w : Logged σ) :
    let v := Registry.visit select use ps w
    (v.1, v.2.1, v.2.2.plc) = Registry.visit select use' ps w.plc := by
  induction ps generalizing w with
  | nil => rfl
  | cons p ps ih =>
    simp only [Registry.visit]
    split
    · rw [← same p w]
      rcases use p w with ⟨⟨e⟩ | ⟨p'⟩, w'⟩
      · rfl
      · simp only [← ih w']
    · simp only [← ih w]

/-- The log changes nothing, here and in `poll_logged`. -/
theorem submit_logged (l : Link R) (w : Logged σ) (p : Primitive R) :
    let r := l.submit w p
    (r.1, r.2.1, r.2.2.1.plc, r.2.2.2) = l.submit w.plc p := by
  unfold submit
  split
  · rfl
  · split
    · rfl
    · next r _ =>
      have same := visit_logged Point.isOutput send_logged r.points w
      simp only [Registry.flushOutputs, ← same]
      rcases Registry.visit Point.isOutput Point.send r.points w with ⟨⟨_ | _⟩ | ⟨⟨⟩⟩, ps, w'⟩
      · rfl
      · rfl
      · rfl

theorem poll_logged (l : Link R) (w : Logged σ) :
    let r := l.poll w
    (r.1, r.2.1, r.2.2.1.plc, r.2.2.2) = l.poll w.plc := by
  have refresh (p : Point) (w : Logged σ) :
      ((p.refresh w).1, (p.refresh w).2.plc) = p.refresh w.plc := by
    simp only [Point.refresh, Adapter.read]
    rcases Adapter.read w.plc p.tag with ⟨⟨e⟩ | ⟨v⟩, plc⟩
    · rfl
    · dsimp only
      rcases p.hold v with e | v'
      · rfl
      · rfl
  have functional : Adapter.functional w = Adapter.functional w.plc := rfl
  unfold poll
  rw [functional]
  split
  · rfl
  · have same := visit_logged (!·.isOutput) refresh l.registry.points w
    simp only [Registry.pollInputs, ← same]
    rcases Registry.visit (!·.isOutput) Point.refresh l.registry.points w with
      ⟨⟨_ | _⟩ | ⟨⟨⟩⟩, ps, w'⟩
    · rfl
    · rfl
    · rfl

/-- What is left of a submission once its values are staged: they are flushed. -/
theorem submit_of_staged {l : Link R} {p : Primitive R} {motion : ControllerState}
    {parameters : List (String × TagValue)} (request : l.request? p = some (motion, parameters))
    {r : Registry}
    (staged : stageAll l.registry (parameters ++ [(Tag.moveType, .word motion.code)]) = .ok r)
    (plc : σ) :
    (l.submit plc p).2.1 = { l with registry := (r.flushOutputs plc).2.1 } ∧
      (l.submit plc p).2.2.1 = (r.flushOutputs plc).2.2 ∧
      ∀ e, (r.flushOutputs plc).1 = .error e → (l.submit plc p).1 ≠ .ok () := by
  unfold submit
  simp only [request, staged]
  rcases r.flushOutputs plc with ⟨⟨_ | _⟩ | ⟨⟨⟩⟩, r', plc'⟩
  · exact ⟨rfl, rfl, nofun⟩
  · exact ⟨rfl, rfl, nofun⟩
  · exact ⟨rfl, rfl, nofun⟩

/-- In a wired registry the values of a primitive can be staged. -/
theorem exists_staged {l : Link R} (wired : l.registry.Wired) {p : Primitive R} {code : Int}
    (trigger : p.trigger? l = some code) :
    ∃ r : Registry, r.Wired ∧
      stageAll l.registry
        (p.parameters ++ [(Tag.moveType, .word (ControllerState.ofCode code).code)]) = .ok r ∧
      (∀ x ∈ p.parameters, r.Stages x.1 x.2) ∧ r.Stages "MOVE_TYPE" (.word code) := by
  obtain ⟨r, staged, wired', stages, -⟩ :=
    wired.stageAll (p.parameters_distinct _) (p.trigger_take code)
  rw [Primitive.code_of_trigger? trigger]
  refine ⟨r, wired', staged, fun x hx => stages x (List.mem_append_left _ hx), ?_⟩
  exact stages ("MOVE_TYPE", .word code) (List.mem_append_right _ List.mem_cons_self)

/-- Every submission of a link that is wired triggers its primitive after the parameters. -/
theorem submit_triggers {l : Link R} (wired : l.registry.Wired) (w : Logged σ) (p : Primitive R) :
    ∃ ws, (l.submit w p).2.2.1.writes = w.writes ++ ws ∧
      Triggers l p w.writes (l.submit w p).1 ws := by
  have request := p.request?_eq l
  rcases trigger : p.trigger? l with _ | code
  · rw [trigger] at request
    have still : p.isMotion = false := by
      rw [← p.trigger?_isSome l, trigger]
      rfl
    have none : l.submit w p = (.ok (), l, w, 0) := by
      rw [submit, request]
      rfl
    rw [none]
    refine ⟨[], (List.append_nil _).symm, fun earlier later v accepted split => ?_,
      fun motion => ?_⟩
    · cases earlier with
      | nil => cases split
      | cons => cases split
    · cases still.symm.trans motion
  · rw [trigger] at request
    obtain ⟨r, wired', staged, parameters, moveType⟩ := exists_staged wired trigger
    obtain ⟨-, plc, failed⟩ := submit_of_staged request staged w
    obtain ⟨ws, more, writes⟩ := Registry.flush_writes r.points w
    refine ⟨ws, ?_, triggers_of_writes trigger wired' parameters moveType writes w.writes failed⟩
    rw [plc]
    exact more

/-! ## Links in use -/

theorem submit_wired {l : Link R} (wired : l.registry.Wired) (plc : σ) (p : Primitive R) :
    (l.submit plc p).2.1.registry.Wired := by
  have request := p.request?_eq l
  rcases trigger : p.trigger? l with _ | code
  · rw [trigger] at request
    rw [submit, request]
    exact wired
  · rw [trigger] at request
    obtain ⟨r, wired', staged, -, -⟩ := exists_staged wired trigger
    obtain ⟨link, -, -⟩ := submit_of_staged request staged plc
    rw [link]
    exact wired'.flushOutputs plc

theorem poll_wired {l : Link R} (wired : l.registry.Wired) (plc : σ) :
    (l.poll plc).2.1.registry.Wired := by
  unfold poll
  have polled := wired.pollInputs plc
  split
  · exact wired
  · generalize l.registry.pollInputs plc = answered at polled ⊢
    rcases answered with ⟨⟨_ | _⟩ | ⟨⟨⟩⟩, r, plc'⟩
    · exact polled
    · exact polled
    · exact polled

end Link

/-- What happens to a link: it is used, and the controller changes. -/
inductive LinkEvent (R σ : Type) where
  | submit (p : Primitive R)
  | poll
  | change (plc : σ)

namespace Link

variable {R : Type} [Scalar R] {σ : Type} [Adapter σ]

/-- The link and the controller after an event. -/
def perform (s : Link R × Logged σ) : LinkEvent R σ → Link R × Logged σ
  | .submit p => ((s.1.submit s.2 p).2.1, (s.1.submit s.2 p).2.2.1)
  | .poll => ((s.1.poll s.2).2.1, (s.1.poll s.2).2.2.1)
  | .change plc => (s.1, { s.2 with plc := plc })

theorem foldl_perform_wired {s : Link R × Logged σ} (wired : s.1.registry.Wired)
    (events : List (LinkEvent R σ)) : (events.foldl perform s).1.registry.Wired := by
  induction events generalizing s with
  | nil => exact wired
  | cons event events ih =>
    refine ih ?_
    cases event with
    | submit p => exact submit_wired wired s.2 p
    | poll => exact poll_wired wired s.2
    | change plc => exact wired

/-- However a link was used before, and whatever the controller did: a submission triggers its
primitive after the parameters. -/
theorem trigger_after_parameters (timeoutMillis : Nat) (plc : σ) (events : List (LinkEvent R σ))
    (p : Primitive R) :
    let s := events.foldl perform (make timeoutMillis, ⟨plc, []⟩)
    ∃ ws, (s.1.submit s.2 p).2.2.1.writes = s.2.writes ++ ws ∧
      Triggers s.1 p s.2.writes (s.1.submit s.2 p).1 ws :=
  submit_triggers (foldl_perform_wired Registry.Wired.standard events) _ p

end Link

end Winding
