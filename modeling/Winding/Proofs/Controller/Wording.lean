import Winding.Controller.Simulator
import Winding.Proofs.Controller.Telling
import Winding.Proofs.Controller.Trigger
import Winding.Proofs.Text.OneLine

/-!
# In what words the controller fails

A controller refuses a request in words about the tag that it was asked for (`CandidAdapter`), and
the tags of the winder are names on one line. So is everything else that the dispatcher tells about
the controller, and every cycle publishes a status that is told on one line
(`Dispatcher.Inline.cycle`).
-/

namespace Winding

variable {R : Type} [Scalar R]

/-! ## What is told -/

theorem TagValue.oneLine_text (v : TagValue) : OneLine v.text := by
  rcases v with _ | n | x
  · next b => cases b <;> decide
  · exact oneLine_int n
  · exact BinaryNumber.oneLine_text .single (.ofFloat32 x)

theorem Side.oneLine_text (s : Side) : OneLine s.text := by
  cases s <;> decide

theorem Location.oneLine_text [LineScalar R] (p : Location R) : OneLine p.text :=
  .append (.append (.append (.append (.append (.append (by decide) (LineScalar.fixed 3 p.x))
    (by decide)) (LineScalar.fixed 3 p.y)) (by decide)) (LineScalar.fixed 3 p.z)) (by decide)

theorem Primitive.oneLine_text [LineScalar R] (p : Primitive R) : OneLine p.text := by
  cases p with
  | move target limits =>
    exact .append (.append (.append (by decide) target.oneLine_text) (by decide))
      (LineScalar.text _)
  | seek edge target limits =>
    have name : OneLine edge.text := by cases edge <;> decide
    exact .append (.append (.append (.append (.append (by decide) name) (by decide))
      target.oneLine_text) (by decide)) (LineScalar.text _)
  | latch side => exact .append (by decide) side.oneLine_text
  | head side z =>
    exact .append (.append (.append (.append (by decide) side.oneLine_text) (by decide))
      (LineScalar.fixed 3 z)) (by decide)
  | dwell ms => exact .append (.append (by decide) (oneLine_nat ms)) (by decide)
  | pause => exact (by decide : OneLine "break")

theorem ControllerState.oneLine_text (s : ControllerState) : OneLine s.text := by
  cases s with
  | other code => exact .append (.append (by decide) (oneLine_int code)) (by decide)
  | init | ready | xySeek | zSeek | latching | head | error => decide

theorem ControllerError.oneLine_unresponsive (ms : Nat) :
    OneLine (ControllerError.unresponsive ms).message :=
  .append (.append (by decide) (oneLine_nat ms)) (by decide)

theorem ControllerError.oneLine_incomplete {primitive : String} (h : OneLine primitive) (ms : Nat) :
    OneLine (ControllerError.incomplete primitive ms).message :=
  .append (.append (.append (.append (by decide) h) (by decide)) (oneLine_nat ms)) (by decide)

/-! ## Refusals -/

/-- The error is about a request for a tag. -/
inductive ControllerError.Concerns (tag : String) : ControllerError → Prop
  | unresponsive (ms : Nat) : Concerns tag (.unresponsive ms)
  | unknownTag : Concerns tag (.unknownTag tag)
  | typeMismatch (kind : PointKind) (found : TagValue) :
    Concerns tag (.typeMismatch tag kind.text found)
  | readOnly : Concerns tag (.readOnly tag)
  | notFunctional : Concerns tag .notFunctional

theorem ControllerError.Concerns.oneLine {tag : String} {e : ControllerError} (h : e.Concerns tag)
    (line : OneLine tag) : OneLine e.message := by
  cases h with
  | unresponsive ms => exact oneLine_unresponsive ms
  | unknownTag | readOnly => exact .append (.append (by decide) line) (by decide)
  | typeMismatch kind found =>
    refine .append (.append (.append (.append (.append (by decide) line) (by decide))
      found.oneLine_text) (by decide)) ?_
    cases kind <;> decide
  | notFunctional => decide

/-- A controller that refuses requests in words about the tag that it was asked for. -/
class CandidAdapter (σ : Type) [Adapter σ] : Prop where
  read : ∀ (plc : σ) (tag : String) (e : ControllerError),
    (Adapter.read plc tag).1 = .error (.refused e) → e.Concerns tag
  write : ∀ (plc : σ) (tag : String) (v : TagValue) (e : ControllerError),
    (Adapter.write plc tag v).1 = .error (.refused e) → e.Concerns tag

namespace Simulator

theorem answer_concerns {s : Simulator} {tag : String} {e : ControllerError}
    (h : (s.answer tag).1 = .error (.refused e)) : e.Concerns tag := by
  unfold answer at h
  split at h
  · cases h
  · cases h
    exact .unknownTag

instance : CandidAdapter Simulator where
  read s tag e h := by
    change (s.read tag).1 = _ at h
    unfold read at h
    split at h
    · cases h
    · split at h
      · split at h
        · cases h
        · exact answer_concerns h
        · exact answer_concerns h
      · exact answer_concerns h
  write s tag v e h := by
    change (s.write tag v).1 = _ at h
    unfold write at h
    split at h
    · cases h
      exact .notFunctional
    · split at h
      · cases h
        exact .unknownTag
      · cases h

end Simulator

variable {σ : Type} [Adapter σ] [CandidAdapter σ]

namespace Point

variable {p : Point} {plc : σ} {e : ControllerError}

theorem refresh_concerns (h : (p.refresh plc).1 = .error (.refused e)) : e.Concerns p.tag := by
  unfold refresh at h
  split at h
  · next read =>
    cases h
    exact CandidAdapter.read plc p.tag e (congrArg Prod.fst read)
  · split at h
    · next held =>
      cases h
      unfold hold at held
      split at held
      · cases held
      · cases held
        exact .typeMismatch p.kind _
    · cases h

theorem send_concerns (h : (p.send plc).1 = .error (.refused e)) : e.Concerns p.tag := by
  unfold send at h
  split at h
  · cases h
  · split at h
    · next wrote =>
      cases h
      exact CandidAdapter.write plc p.tag p.value e (congrArg Prod.fst wrote)
    · cases h

end Point

namespace Registry

omit [Adapter σ] [CandidAdapter σ] in
/-- What ends a visit is the answer for one of the points. -/
theorem visit_eq_error {select : Point → Bool} {use : Point → σ → Answer Point × σ} {ps : List Point}
    {plc : σ} {e : NoAnswer} (h : (visit select use ps plc).1 = .error e) :
    ∃ p ∈ ps, ∃ plc, (use p plc).1 = .error e := by
  induction ps generalizing plc with
  | nil => cases h
  | cons p ps ih =>
    unfold visit at h
    split at h
    · split at h
      · next used =>
        cases h
        exact ⟨p, List.mem_cons_self, plc, congrArg Prod.fst used⟩
      · obtain ⟨q, hq, found⟩ := ih h
        exact ⟨q, List.mem_cons_of_mem p hq, found⟩
    · obtain ⟨q, hq, found⟩ := ih h
      exact ⟨q, List.mem_cons_of_mem p hq, found⟩

variable {r : Registry} {plc : σ} {e : ControllerError}

theorem Wired.oneLine_tag (h : r.Wired) {p : Point} (hp : p ∈ r.points) : OneLine p.tag := by
  have names : ∀ w ∈ Registry.standard.wiring, OneLine w.1 := by decide
  refine names p.wiring ?_
  rw [← h]
  exact List.mem_map_of_mem hp

theorem Wired.oneLine_pollInputs (h : r.Wired)
    (refused : (r.pollInputs plc).1 = .error (.refused e)) : OneLine e.message := by
  obtain ⟨p, hp, plc', refused⟩ := visit_eq_error refused
  exact (Point.refresh_concerns refused).oneLine (h.oneLine_tag hp)

theorem Wired.oneLine_flushOutputs (h : r.Wired)
    (refused : (r.flushOutputs plc).1 = .error (.refused e)) : OneLine e.message := by
  obtain ⟨p, hp, plc', refused⟩ := visit_eq_error refused
  exact (Point.send_concerns refused).oneLine (h.oneLine_tag hp)

end Registry

/-! ## The status -/

/-- What the status tells in words is on one line. -/
structure ControllerStatus.Inline (s : ControllerStatus R) : Prop where
  stalled : ∀ reason, s.stalled = some reason → OneLine reason
  lastError : ∀ message, s.lastError = some message → OneLine message

namespace ControllerStatus

variable {s : ControllerStatus R}

omit [Scalar R] in
theorem oneLine_faultText (s : ControllerStatus R) : OneLine s.faultText := by
  have text : OneLine ("PLC fault, state " ++ s.state.text ++ ", error code " ++
      toString s.errorCode) :=
    .append (.append (.append (by decide) s.state.oneLine_text) (by decide)) (oneLine_int _)
  unfold faultText
  simp only
  split
  · exact text
  · refine .append (text.append (by decide)) (.intercalate (by decide) fun t ht => ?_)
    obtain ⟨a, -, rfl⟩ := List.mem_map.mp ht
    cases a <;> decide

omit [Scalar R] in
/-- A fault is told on one line. -/
theorem Inline.fault (h : s.Inline) {reason : String} (fault : s.fault? = some reason) :
    OneLine reason :=
  Tells.fault ⟨h.stalled, h.lastError⟩ (by decide) (by decide) s.oneLine_faultText fault

end ControllerStatus

/-! ## The link -/

namespace Link

variable {l : Link R} {plc : σ} {e : ControllerError}

theorem oneLine_poll (wired : l.registry.Wired) (h : (l.poll plc).1 = .error e) :
    OneLine e.message := by
  unfold poll at h
  have refused : (l.registry.pollInputs plc).1 = .error (.refused e) → OneLine e.message :=
    wired.oneLine_pollInputs
  generalize l.registry.pollInputs plc = answered at h refused
  split at h
  · cases h
    decide
  · obtain ⟨⟨_ | _⟩ | ⟨⟨⟩⟩, r, plc'⟩ := answered
    · cases h
      exact refused rfl
    · cases h
      exact ControllerError.oneLine_unresponsive _
    · cases h

omit [CandidAdapter σ] in
theorem poll_inline {s : ControllerStatus R} (h : (l.poll plc).1 = .ok s) : s.Inline := by
  obtain ⟨stalled, lastError⟩ : s.Tells OneLine := tells_of_poll h
  exact ⟨stalled, lastError⟩

theorem oneLine_submit (wired : l.registry.Wired) {p : Primitive R}
    (h : (l.submit plc p).1 = .error e) : OneLine e.message := by
  have request := p.request?_eq l
  rcases trigger : p.trigger? l with _ | code
  · rw [trigger] at request
    rw [submit, request] at h
    cases h
  · rw [trigger] at request
    obtain ⟨r, wired', staged, -, -⟩ := exists_staged wired trigger
    have refused : (r.flushOutputs plc).1 = .error (.refused e) → OneLine e.message :=
      wired'.oneLine_flushOutputs
    rw [submit, request] at h
    simp only [Option.map_some, staged] at h
    generalize r.flushOutputs plc = answered at h refused
    obtain ⟨⟨_ | _⟩ | ⟨⟨⟩⟩, r', plc'⟩ := answered
    · cases h
      exact refused rfl
    · cases h
      exact ControllerError.oneLine_unresponsive _
    · cases h

/-- A link that knows the tags of the winder reports everything on one line. -/
theorem reports_inline [LineScalar R] :
    Reports (R := R) σ (fun l => l.registry.Wired) OneLine where
  poll _ plc wired := poll_wired wired plc
  submit _ plc p wired := submit_wired wired plc p
  unanswered _ _ _ wired := oneLine_poll wired
  refused _ _ _ _ wired := oneLine_submit wired
  incomplete front ms := by
    refine ControllerError.oneLine_incomplete ?_ ms
    rcases front with _ | e
    · exact (by decide : OneLine "")
    · exact e.primitive.oneLine_text

end Link

/-! ## The dispatcher -/

/-- The dispatcher knows the tags of the winder, and what it has to tell is on one line. -/
structure Dispatcher.Inline (d : Dispatcher R) : Prop where
  wired : d.link.registry.Wired
  stalled : ∀ s, d.stalled = some s → OneLine s.2

namespace Dispatcher

variable {d : Dispatcher R} {x : Exchange R}

omit [Scalar R] [Adapter σ] [CandidAdapter σ] in
theorem make_inline {l : Link R} (wired : l.registry.Wired) (moveTimeoutMillis : Nat) :
    (make l moveTimeoutMillis).Inline :=
  ⟨wired, nofun⟩

/-- A cycle publishes a status that is told on one line, whatever the controller does. -/
theorem Inline.cycle [LineScalar R] (h : d.Inline) (hx : x.status.Inline) (plc : σ) (now : Nat) :
    (d.cycle x plc now).1.Inline ∧ (d.cycle x plc now).2.1.status.Inline := by
  have told : d.Tells (fun l => l.registry.Wired) OneLine := ⟨h.wired, h.stalled⟩
  obtain ⟨told, status⟩ :=
    told.cycleOver Link.reports_inline ⟨hx.stalled, hx.lastError⟩ plc now now
  exact ⟨⟨told.link, told.stalled⟩, ⟨status.stalled, status.lastError⟩⟩

end Dispatcher

end Winding
