import Winding.Proofs.Controller.Turns
import Winding.Proofs.Number.Exact

/-!
# Readiness and the published status

After a cycle the queue says whether the controller takes motion, and the published status says
whether there is a fault. The two agree after every cycle in which the controller refuses nothing
(`Dispatcher.readiness_agrees`): a fault, a silent controller and an entry that takes too long
withdraw readiness with the status that they publish. A refused submission publishes its error in
the middle of a cycle, and the end of the cycle sets readiness from the status before it
(`Bench.readiness_of_refused`).
-/

namespace Winding

/-- Readiness says what the published status says. -/
def Exchange.Agrees {R : Type} (x : Exchange R) : Prop :=
  x.queue.ready = true ↔ x.status.fault? = none

instance {R : Type} (x : Exchange R) : Decidable x.Agrees :=
  inferInstanceAs (Decidable (x.queue.ready = true ↔ x.status.fault? = none))

/-- Readiness is kept while the published status tells of a failed request. -/
structure Exchange.Overstates {R : Type} (x : Exchange R) : Prop where
  ready : x.queue.ready = true
  fault : ∃ error : ControllerError, x.status.fault? = some error.message

namespace Exchange

variable {R : Type} {x : Exchange R}

theorem agrees_of_eq (h : x.queue.ready = x.status.isHealthy) : x.Agrees := by
  rw [Agrees, h, ControllerStatus.isHealthy_iff]

theorem Overstates.not_agrees (h : x.Overstates) : ¬ x.Agrees := by
  intro agrees
  obtain ⟨error, fault⟩ := h.fault
  exact nomatch fault.symm.trans (agrees.mp h.ready)

end Exchange

namespace ControllerStatus

variable {R : Type} {s : ControllerStatus R}

theorem isHealthy_of_sound (functional : s.functional = true) (responsive : s.responsive = true)
    (sound : s.isFault = false) : s.isHealthy = true := by
  rw [isHealthy, functional, responsive, sound]
  rfl

theorem isHealthy_of_fault (fault : s.isFault = true) : s.isHealthy = false := by
  rw [isHealthy, fault, Bool.not_true, Bool.and_false]

end ControllerStatus

variable {R σ : Type} [Scalar R] [Adapter σ]

/-- A poll that is answered shows a controller that is there and responds. -/
theorem Link.responsive_of_poll {l l' : Link R} {plc plc' : σ} {status : ControllerStatus R}
    {waited : Nat} (polled : l.poll plc = (.ok status, l', plc', waited)) :
    status.functional = true ∧ status.responsive = true := by
  unfold poll at polled
  split at polled
  · cases polled
  · rcases hr : l.registry.pollInputs plc with ⟨(_ | _) | _, registry, plc''⟩ <;>
      simp only [hr] at polled <;> cases polled
    exact ⟨rfl, rfl⟩

namespace Dispatcher

variable {d : Dispatcher R} {x : Exchange R}

/-- What a part of a cycle leaves of the status, and what it notes: no refusal with the status as it
was, or a refusal with an error in the status. -/
def Publishes (before : ControllerStatus R) (notes : List (Note R)) (d : Dispatcher R)
    (x : Exchange R) : Prop :=
  (x.status = before ∧ ∀ e, .refused e ∉ notes) ∨
    ∃ (e : QueueEntry R) (error : ControllerError), .refused e ∈ notes ∧ d.stalled = none ∧
      x.status = { before with responsive := false, lastError := some error.message }

omit [Scalar R] in
/-- What comes first may be noted first, if it is no refusal. -/
theorem Publishes.after {before : ControllerStatus R} {notes : List (Note R)}
    (h : Publishes before notes d x) {first : List (Note R)} (accepted : ∀ e, .refused e ∉ first) :
    Publishes before (first ++ notes) d x := by
  rcases h with ⟨kept, none⟩ | ⟨e, error, refused, rest⟩
  · refine .inl ⟨kept, fun e noted => ?_⟩
    exact (List.mem_append.mp noted).elim (accepted e) (none e)
  · exact .inr ⟨e, error, List.mem_append_right _ refused, rest⟩

theorem refused_not_mem_followNotes (e : QueueEntry R) (ready : Bool) (now : Nat) :
    .refused e ∉ d.followNotes x ready now := by
  unfold followNotes
  split <;> simp

theorem follow_status (ready : Bool) (now : Nat) :
    (d.follow x ready now).2.status = x.status := by
  unfold follow Dispatcher.retire
  split
  · rfl
  · split
    · rfl
    · split
      · rfl
      · split <;> rfl
  · split <;> rfl

theorem start_publishes (plc : σ) (e : QueueEntry R) (now : Nat) (stalled : d.stalled = none) :
    Publishes x.status (d.startNotes x plc e now) (d.start x plc e now).1
      (d.start x plc e now).2.1 := by
  by_cases motion : e.primitive.isMotion = true
  · rw [start_motion plc now motion, startNotes_motion plc now motion]
    rcases d.link.submit plc e.primitive with ⟨error | _, link, plc', waited⟩
    · exact .inr ⟨e, error, List.mem_singleton_self _, stalled, rfl⟩
    · exact .inl ⟨rfl, by simp⟩
  · cases primitive : e.primitive with
    | dwell | pause =>
      simp only [start, startNotes, primitive]
      exact .inl ⟨rfl, by simp⟩
    | _ =>
      rw [primitive] at motion
      exact absurd rfl motion

theorem advance_publishes (plc : σ) (ready : Bool) (now later : Nat) :
    Publishes x.status (d.advanceNotes x plc ready now later) (d.advance x plc ready now later).1
      (d.advance x plc ready now later).2.1 := by
  have kept := (d.dropMissing x.queue).follow_status (x := x) ready now
  have followed := fun e => (d.dropMissing x.queue).refused_not_mem_followNotes (x := x) e ready now
  unfold advance advanceNotes
  rcases hf : (d.dropMissing x.queue).follow x ready now with ⟨d', x'⟩
  simp only [hf] at kept ⊢
  rw [← kept]
  refine Publishes.after ?_ followed
  split
  · next free =>
    simp only [Bool.and_eq_true, Option.isNone_iff_eq_none] at free
    rcases x'.queue.front? with _ | e
    · exact .inl ⟨rfl, by simp⟩
    · exact start_publishes plc e later free.1.1
  · exact .inl ⟨rfl, by simp⟩

/-- Readiness agrees with the status unless something was refused. -/
def Settles (notes : List (Note R)) (x : Exchange R) : Prop :=
  (x.Agrees ∧ ∀ e, .refused e ∉ notes) ∨ (x.Overstates ∧ ∃ e, .refused e ∈ notes)

omit [Scalar R] in
/-- A cycle that fails withdraws readiness with a status that is not healthy. -/
theorem fail_settles (d : Dispatcher R) {status : ControllerStatus R} {notes : List (Note R)}
    (unhealthy : status.isHealthy = false) (accepted : ∀ e, .refused e ∉ notes) :
    Settles notes (d.fail x status).2 :=
  .inl ⟨Exchange.agrees_of_eq unhealthy.symm, accepted⟩

theorem act_settles (plc : σ) {polled : ControllerStatus R} (functional : polled.functional = true)
    (responsive : polled.responsive = true) (now later : Nat) :
    Settles (d.actNotes x plc polled now later) (d.act x plc polled now later).2.1 := by
  unfold act actNotes
  generalize d.dropStalled x.queue = d
  simp only
  split
  · next fault => exact d.fail_settles (ControllerStatus.isHealthy_of_fault fault) (by simp)
  · next sound =>
    have healthy := ControllerStatus.isHealthy_of_sound
      (s := { polled with stalled := d.stalled.map (·.2) }) functional responsive
      (Bool.eq_false_iff.mpr sound)
    have advanced := advance_publishes (d := d)
      (x := { x with status := { polled with stalled := d.stalled.map (·.2) } }) plc polled.ready
      now later
    generalize d.advanceNotes _ plc polled.ready now later = notes at advanced ⊢
    generalize d.advance _ plc polled.ready now later = r at advanced ⊢
    rcases r with ⟨⟨link, timeout, active, _ | ⟨seq, reason⟩⟩, x', plc', waited⟩
    · rcases advanced with ⟨kept, accepted⟩ | ⟨e, error, refused, -, told⟩
      · exact .inl ⟨Exchange.agrees_of_eq (congrArg ControllerStatus.isHealthy kept.symm), accepted⟩
      · exact .inr ⟨⟨healthy, error, congrArg ControllerStatus.fault? told⟩, e, refused⟩
    · rcases advanced with ⟨-, accepted⟩ | ⟨e, error, refused, idle, told⟩
      · refine d.fail_settles (ControllerStatus.isHealthy_of_fault ?_) accepted
        simp [ControllerStatus.isFault]
      · cases idle

theorem cycleOver_settles (d : Dispatcher R) (x : Exchange R) (plc : σ) (now later : Nat) :
    Settles (d.notes x plc now later) (d.cycleOver x plc now later).2.1 := by
  unfold cycleOver notes
  rcases hp : d.link.poll plc with ⟨_ | polled, link, plc', waited⟩
  · exact d.fail_settles (by simp [ControllerStatus.isHealthy, unanswered]) (by simp)
  · obtain ⟨functional, responsive⟩ := Link.responsive_of_poll hp
    have acted := act_settles (d := { d with link := link }) (x := x) plc' functional responsive now
      later
    rcases acted with ⟨agrees, accepted⟩ | ⟨overstates, e, refused⟩
    · exact .inl ⟨agrees, fun e => by simpa using accepted e⟩
    · exact .inr ⟨overstates, e, List.mem_cons_of_mem _ refused⟩

/-- After every cycle of every dispatcher with every controller, readiness agrees with the published
status exactly if the controller refused nothing in the cycle. Otherwise the queue says that the
controller takes motion while the published status tells of the refusal. -/
theorem readiness_agrees (d : Dispatcher R) (x : Exchange R) (plc : σ) (now later : Nat) :
    ((d.cycleOver x plc now later).2.1.Agrees ↔ ∀ e, .refused e ∉ d.notes x plc now later) ∧
      ((d.cycleOver x plc now later).2.1.Overstates ↔
        ∃ e, .refused e ∈ d.notes x plc now later) := by
  rcases d.cycleOver_settles x plc now later with ⟨agrees, accepted⟩ | ⟨overstates, e, refused⟩
  · exact ⟨iff_of_true agrees accepted,
      iff_of_false (fun overstates => overstates.not_agrees agrees)
        fun ⟨e, refused⟩ => accepted e refused⟩
  · exact ⟨iff_of_false overstates.not_agrees fun accepted => accepted e refused,
      iff_of_true overstates ⟨e, refused⟩⟩

end Dispatcher

/-! ## A controller that refuses -/

namespace Bench

/-- A controller that answers every read and refuses every write. -/
inductive Locked where
  | locked

instance : Adapter Locked where
  functional _ := true
  read c tag := (.ok (if tag = Tag.ready then .flag true else .word 0), c)
  write c _ _ := (.error (.refused .notFunctional), c)

/-- A queue with one request for the latch. -/
def latching : Exchange Whole :=
  ⟨{ (.empty 4 : Queue Whole) with entries := [⟨0, none, .latch .back⟩], submitted := 1 }, .unknown⟩

/-- Readiness does not agree with the status after every cycle. -/
theorem readiness_of_refused :
    ¬ ∀ (d : Dispatcher Whole) (x : Exchange Whole) (plc : Locked) (now : Nat),
      (d.cycle x plc now).2.1.Agrees := by
  intro agrees
  exact absurd (agrees (.make (.make 50) 1000) latching .locked 0) (by decide)

end Bench

end Winding
