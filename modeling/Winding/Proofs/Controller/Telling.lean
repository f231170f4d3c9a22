import Winding.Proofs.Controller.Readiness

/-!
# What the dispatcher tells

A status tells in words why a motion was given up, and with what error the controller did not
answer. If everything that a link reports has a property (`Link.Reports`), then so has everything
that is published in a cycle (`Dispatcher.Tells.cycleOver`). In particular these are errors of the
controller, and nothing else (`Dispatcher.Told.cycleOver`).
-/

namespace Winding

variable {R : Type} [Scalar R] {P : String → Prop}

/-- What the status tells in words has a property. -/
structure ControllerStatus.Tells (s : ControllerStatus R) (P : String → Prop) : Prop where
  stalled : ∀ reason, s.stalled = some reason → P reason
  lastError : ∀ message, s.lastError = some message → P message

omit [Scalar R] in
/-- So has the fault that it shows, if what is said without such words has it too. -/
theorem ControllerStatus.Tells.fault {s : ControllerStatus R} (h : s.Tells P) {reason : String}
    (silent : P "PLC unresponsive") (lost : P "PLC not functional") (text : P s.faultText)
    (fault : s.fault? = some reason) : P reason := by
  unfold fault? at fault
  split at fault
  · cases fault
    rcases last : s.lastError with _ | message
    · exact silent
    · exact h.lastError message last
  · split at fault
    · cases fault
      exact lost
    · split at fault
      · next stalled =>
        cases fault
        exact h.stalled reason stalled
      · split at fault
        · cases fault
          exact text
        · cases fault

variable {σ : Type} [Adapter σ]

namespace Link

/-- A poll that is answered tells nothing in words. -/
theorem tells_of_poll {l : Link R} {plc : σ} {status : ControllerStatus R}
    (polled : (l.poll plc).1 = .ok status) : status.Tells P := by
  unfold poll at polled
  generalize l.registry.pollInputs plc = answered at polled
  split at polled
  · cases polled
  · obtain ⟨⟨_ | _⟩ | ⟨⟨⟩⟩, r, plc'⟩ := answered
    · cases polled
    · cases polled
    · cases polled
      exact ⟨nofun, nofun⟩

/-- What links of a kind report of a controller has a property, and they stay of that kind. -/
structure Reports (σ : Type) [Adapter σ] (kind : Link R → Prop) (P : String → Prop) : Prop where
  poll (l : Link R) (plc : σ) : kind l → kind (l.poll plc).2.1
  submit (l : Link R) (plc : σ) (p : Primitive R) : kind l → kind (l.submit plc p).2.1
  unanswered (l : Link R) (plc : σ) (e : ControllerError) :
    kind l → (l.poll plc).1 = .error e → P e.message
  refused (l : Link R) (plc : σ) (p : Primitive R) (e : ControllerError) :
    kind l → (l.submit plc p).1 = .error e → P e.message
  /-- A motion that took too long. -/
  incomplete (front : Option (QueueEntry R)) (ms : Nat) :
    P (ControllerError.incomplete ((front.map fun e => e.primitive.text).getD "") ms).message

end Link

namespace Dispatcher

variable {kind : Link R → Prop} {d : Dispatcher R} {x : Exchange R}

/-- The link of the dispatcher is of a kind, and the reason why it gave up has a property. -/
structure Tells (d : Dispatcher R) (kind : Link R → Prop) (P : String → Prop) : Prop where
  link : kind d.link
  stalled : ∀ s, d.stalled = some s → P s.2

namespace Tells

theorem follow (h : d.Tells kind P) (reports : Link.Reports σ kind P) (x : Exchange R)
    (ready : Bool) (now : Nat) : (d.follow x ready now).1.Tells kind P := by
  have same (active : Option Active) : Tells { d with active := active } kind P :=
    ⟨h.link, h.stalled⟩
  unfold Dispatcher.follow
  split
  · exact h
  · split
    · exact same none
    · split
      · refine ⟨h.link, ?_⟩
        rintro _ ⟨⟩
        exact reports.incomplete _ _
      · split
        · exact h
        · exact same _
  · split
    · exact same none
    · exact h

theorem start (h : d.Tells kind P) (reports : Link.Reports σ kind P) (hx : x.status.Tells P)
    (plc : σ) (e : QueueEntry R) (now : Nat) :
    (d.start x plc e now).1.Tells kind P ∧ (d.start x plc e now).2.1.status.Tells P := by
  unfold Dispatcher.start
  split
  · exact ⟨⟨h.link, h.stalled⟩, hx⟩
  · exact ⟨h, hx⟩
  · have link := reports.submit d.link plc e.primitive h.link
    have told (error : ControllerError) := reports.refused d.link plc e.primitive error h.link
    generalize d.link.submit plc e.primitive = submitted at link told ⊢
    obtain ⟨error | ⟨⟩, link', plc', waited⟩ := submitted
    · refine ⟨⟨link, h.stalled⟩, hx.stalled, ?_⟩
      rintro _ ⟨⟩
      exact told error rfl
    · exact ⟨⟨link, h.stalled⟩, hx⟩

theorem advance (h : d.Tells kind P) (reports : Link.Reports σ kind P) (hx : x.status.Tells P)
    (plc : σ) (ready : Bool) (now later : Nat) :
    (d.advance x plc ready now later).1.Tells kind P ∧
      (d.advance x plc ready now later).2.1.status.Tells P := by
  have dropped : (d.dropMissing x.queue).Tells kind P := ⟨h.link, h.stalled⟩
  have followed := dropped.follow reports x ready now
  have kept := (d.dropMissing x.queue).follow_status (x := x) ready now
  unfold Dispatcher.advance
  generalize (d.dropMissing x.queue).follow x ready now = after at followed kept ⊢
  obtain ⟨d', x'⟩ := after
  have hx' : x'.status.Tells P := kept ▸ hx
  simp only
  split
  · split
    · exact followed.start reports hx' plc _ later
    · exact ⟨followed, hx'⟩
  · exact ⟨followed, hx'⟩

theorem act (h : d.Tells kind P) (reports : Link.Reports σ kind P) (x : Exchange R) (plc : σ)
    {polled : ControllerStatus R} (hp : polled.Tells P) (now later : Nat) :
    (d.act x plc polled now later).1.Tells kind P ∧
      (d.act x plc polled now later).2.1.status.Tells P := by
  have dropped : (d.dropStalled x.queue).Tells kind P :=
    ⟨h.link, fun s found => h.stalled s (Option.eq_some_of_filter_eq_some found)⟩
  unfold Dispatcher.act
  generalize d.dropStalled x.queue = d₁ at dropped ⊢
  let status : ControllerStatus R := { polled with stalled := d₁.stalled.map Prod.snd }
  have hs : status.Tells P := by
    refine ⟨fun reason told => ?_, hp.lastError⟩
    obtain ⟨s, stalled, rfl⟩ := Option.map_eq_some_iff.mp told
    exact dropped.stalled s stalled
  simp only
  split
  · exact ⟨⟨dropped.link, dropped.stalled⟩, hs⟩
  · have advanced := dropped.advance reports (x := { x with status := status }) hs plc polled.ready
      now later
    generalize d₁.advance _ plc polled.ready now later = after at advanced ⊢
    obtain ⟨d₂, x₂, plc₂, waited⟩ := after
    obtain ⟨hd₂, hx₂⟩ := advanced
    simp only
    split
    · next reason stalled =>
      refine ⟨⟨hd₂.link, hd₂.stalled⟩, ?_, hs.lastError⟩
      rintro _ ⟨⟩
      exact hd₂.stalled _ stalled
    · exact ⟨hd₂, hx₂⟩

/-- A cycle publishes what links report, and nothing else. -/
theorem cycleOver (h : d.Tells kind P) (reports : Link.Reports σ kind P) (hx : x.status.Tells P)
    (plc : σ) (now later : Nat) :
    (d.cycleOver x plc now later).1.Tells kind P ∧
      (d.cycleOver x plc now later).2.1.status.Tells P := by
  have link := reports.poll d.link plc h.link
  have told (error : ControllerError) := reports.unanswered d.link plc error h.link
  have polled (status : ControllerStatus R) :
      (d.link.poll plc).1 = .ok status → status.Tells P := Link.tells_of_poll
  unfold Dispatcher.cycleOver
  generalize d.link.poll plc = answered at link told polled ⊢
  obtain ⟨error | status, link', plc', waited⟩ := answered
  · refine ⟨⟨link, h.stalled⟩, hx.stalled, ?_⟩
    rintro _ ⟨⟩
    exact told error rfl
  · exact Tells.act (d := { d with link := link' }) ⟨link, h.stalled⟩ reports x plc'
      (polled status rfl) now later

end Tells

end Dispatcher

/-! ## Errors of the controller -/

/-- A text is an error of the controller in words. -/
def ControllerError.IsMessage (text : String) : Prop := ∃ e : ControllerError, text = e.message

/-- What the status tells in words are errors of the controller. -/
def ControllerStatus.Told (s : ControllerStatus R) : Prop := s.Tells ControllerError.IsMessage

/-- The dispatcher gave up for an error of the controller. -/
def Dispatcher.Told (d : Dispatcher R) : Prop :=
  d.Tells (fun _ => True) ControllerError.IsMessage

theorem Link.reports_errors :
    Link.Reports (R := R) σ (fun _ => True) ControllerError.IsMessage where
  poll _ _ _ := trivial
  submit _ _ _ _ := trivial
  unanswered _ _ e _ _ := ⟨e, rfl⟩
  refused _ _ _ e _ _ := ⟨e, rfl⟩
  incomplete _ _ := ⟨_, rfl⟩

/-- A cycle tells of errors of the controller, and of nothing else. -/
theorem Dispatcher.Told.cycleOver {d : Dispatcher R} {x : Exchange R} (h : d.Told)
    (hx : x.status.Told) (plc : σ) (now later : Nat) :
    (d.cycleOver x plc now later).1.Told ∧ (d.cycleOver x plc now later).2.1.status.Told :=
  Tells.cycleOver h Link.reports_errors hx plc now later

end Winding
