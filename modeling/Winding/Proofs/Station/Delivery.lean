import Winding.Proofs.Controller.Polling
import Winding.Proofs.Station.Discipline

/-!
# A queue is delivered

A dispatcher that has its queue to itself, at a controller that rests and has no fault, carries the
queue out in order (`Handover.delivers`). Each entry takes at most one cycle more than the reads of
`READY` for which a motion goes on, and one cycle comes before the first. What is left to do fits
the cycles that are left (`Dispatcher.OnSchedule`), and every cycle keeps to that
(`Dispatcher.cycleOver_keeps`).
-/

namespace Winding

variable {R : Type} [Scalar R]

namespace Primitive

/-- The motions that primitives ask for in turn. -/
def motions (place : Location Float32) : List (Primitive R) → List ControllerState
  | [] => []
  | p :: ps => (p.motion? place).toList ++ motions (p.arrives place) ps

/-- Where primitives leave the controller. -/
def reached (place : Location Float32) (ps : List (Primitive R)) : Location Float32 :=
  ps.foldl arrives place

end Primitive

open Primitive (motions reached)

theorem Queue.entries_complete {q : Queue R} {e : QueueEntry R} {ahead : List (QueueEntry R)}
    (entries : q.entries = e :: ahead) : (q.complete e.seq).2.entries = ahead := by
  simp [complete, entries]

/-! ## The schedule -/

/-- Whether an entry that is being carried out has time left. -/
def Active.InTime (now : Nat) : Active → Prop
  | .motion _ _ deadline => now < deadline
  | .dwell _ _ => True

instance (now : Nat) : (a : Active) → Decidable (a.InTime now)
  | .motion _ _ deadline => inferInstanceAs (Decidable (now < deadline))
  | .dwell _ _ => isTrue trivial

namespace Dispatcher

/-- What is still to be done once the controller rests at a place. -/
structure Due (polls : Nat) (asked : List ControllerState) (goal : Location Float32)
    (d : Dispatcher R) (plc : Simulator) (place : Location Float32)
    (ahead : List (QueueEntry R)) : Prop where
  flushed : d.link.registry.Flushed
  stalled : d.stalled = none
  polls : plc.completionPolls = polls
  noDwell : ∀ e ∈ ahead, ∀ ms, e.primitive ≠ .dwell ms
  asked : plc.submissions ++ motions place (ahead.map QueueEntry.primitive) = asked
  goal : reached place (ahead.map QueueEntry.primitive) = goal

/-- What is still to be done of a queue fits a number of cycles. -/
inductive OnSchedule (polls : Nat) (asked : List ControllerState) (goal : Location Float32)
    (cycles : Nat) (d : Dispatcher R) (entries : List (QueueEntry R)) (plc : Simulator) : Prop
  /-- The controller rests, and the front of the queue comes next. One cycle is left to begin it,
  and then one for each read of every motion and one to retire it. -/
  | rests {place : Location Float32} (due : d.Due polls asked goal plc place entries)
      (idle : plc.Idle place) (active : d.active = none)
      (fits : entries = [] ∨ 1 + entries.length * (polls + 1) ≤ cycles)
  /-- The controller carries out the front of the queue. It is seen busy before it is ready again,
  as otherwise the motion would never be retired. -/
  | moves {place : Location Float32} {e : QueueEntry R} {ahead : List (QueueEntry R)}
      {reads deadline : Nat} {busy : Bool} (due : d.Due polls asked goal plc place ahead)
      (underway : plc.Underway reads place) (active : d.active = some (.motion e.seq busy deadline))
      (front : entries = e :: ahead) (seen : busy = true ∨ 0 < reads)
      (fits : reads + 1 + ahead.length * (polls + 1) ≤ cycles)

variable {polls cycles : Nat} {asked : List ControllerState} {goal place : Location Float32}
  {d : Dispatcher R} {x : Exchange R} {plc : Simulator}

theorem OnSchedule.stalled {entries : List (QueueEntry R)}
    (h : OnSchedule polls asked goal cycles d entries plc) : d.stalled = none := by
  cases h with
  | rests due | moves due => exact due.stalled

/-- What comes of a part of a cycle is on schedule. -/
def Keeps (polls : Nat) (asked : List ControllerState) (goal : Location Float32) (cycles : Nat)
    (r : Dispatcher R × Exchange R × Simulator × Nat) : Prop :=
  OnSchedule polls asked goal cycles r.1 r.2.1.queue.entries r.2.2.1

/-- A poll leaves what is still to be done. -/
theorem Due.polled {ahead : List (QueueEntry R)} (due : d.Due polls asked goal plc place ahead)
    {ready : Bool} {plc' : Simulator} (reads : plc.ReadsReady ready plc') {d' : Dispatcher R}
    (flushed : d'.link.registry.Flushed) (stalled : d'.stalled = none) :
    d'.Due polls asked goal plc' place ahead where
  flushed := flushed
  stalled := stalled
  polls := reads.completionPolls.trans due.polls
  noDwell := due.noDwell
  asked := by rw [reads.submissions, due.asked]
  goal := due.goal

theorem Due.withActive {ahead : List (QueueEntry R)}
    (due : d.Due polls asked goal plc place ahead) (active : Option Active) :
    Due polls asked goal { d with active := active } plc place ahead :=
  ⟨due.flushed, due.stalled, due.polls, due.noDwell, due.asked, due.goal⟩

/-- The first of the entries was taken to the controller. -/
theorem Due.next {e : QueueEntry R} {ahead : List (QueueEntry R)}
    (due : d.Due polls asked goal plc place (e :: ahead)) {d' : Dispatcher R} {plc' : Simulator}
    (flushed : d'.link.registry.Flushed) (stalled : d'.stalled = none)
    (completionPolls : plc'.completionPolls = plc.completionPolls)
    (submissions : plc'.submissions =
      plc.submissions ++ (e.primitive.motion? place).toList) :
    d'.Due polls asked goal plc' (e.primitive.arrives place) ahead where
  flushed := flushed
  stalled := stalled
  polls := completionPolls.trans due.polls
  noDwell := (List.forall_mem_cons.mp due.noDwell).2
  asked := by rw [submissions, List.append_assoc, ← due.asked, List.map_cons, motions]
  goal := due.goal

/-- A pause is over at once. -/
theorem start_pause_keeps {e : QueueEntry R} {ahead : List (QueueEntry R)}
    (due : d.Due polls asked goal plc place (e :: ahead)) (idle : plc.Idle place)
    (active : d.active = none) (entries : x.queue.entries = e :: ahead)
    (pause : e.primitive = .pause) (fits : 1 + ahead.length * (polls + 1) ≤ cycles) (now : Nat) :
    Keeps polls asked goal cycles (d.start x plc e now) := by
  have nothing : plc.submissions = plc.submissions ++ (e.primitive.motion? place).toList := by
    rw [pause]
    exact (List.append_nil _).symm
  have due' := due.next due.flushed due.stalled rfl nothing
  have started : d.start x plc e now =
      (d, { x with queue := (x.queue.complete e.seq).2 }, plc, 0) := by
    rw [start, pause]
  rw [← Queue.entries_complete entries] at due' fits
  rw [pause] at due'
  rw [started]
  exact .rests due' idle active (.inr fits)

/-- A motion is under way once it is started. -/
theorem start_motion_keeps (positive : 0 < polls) {e : QueueEntry R} {ahead : List (QueueEntry R)}
    (due : d.Due polls asked goal plc place (e :: ahead)) (idle : plc.Idle place)
    (known : d.link.position = place.widen) (entries : x.queue.entries = e :: ahead)
    {motion : ControllerState} (asks : e.primitive.motion? place = some motion)
    (fits : polls + 1 + ahead.length * (polls + 1) ≤ cycles) (now : Nat) :
    Keeps polls asked goal cycles (d.start x plc e now) := by
  have isMotion : e.primitive.isMotion = true := by
    rw [← Primitive.motion?_isSome place, asks]
    rfl
  obtain ⟨link, plc', submitted, flushed, underway, completionPolls, submissions⟩ :=
    Link.submit_simulator due.flushed idle known asks
  have one : plc'.submissions = plc.submissions ++ (e.primitive.motion? place).toList := by
    rw [asks]
    exact submissions
  rw [due.polls] at underway
  rw [start_motion plc now isMotion, submitted]
  exact .moves (due.next flushed due.stalled completionPolls one) underway rfl entries
    (.inr positive) fits

/-- The front of the queue is started. -/
def startFront (d : Dispatcher R) (x : Exchange R) (plc : Simulator) (now : Nat) :
    Dispatcher R × Exchange R × Simulator × Nat :=
  match x.queue.front? with
  | some e => d.start x plc e now
  | none => (d, x, plc, 0)

theorem startFront_keeps (positive : 0 < polls) {ahead : List (QueueEntry R)}
    (due : d.Due polls asked goal plc place ahead) (idle : plc.Idle place)
    (active : d.active = none) (known : d.link.position = place.widen)
    (entries : x.queue.entries = ahead) (fits : ahead.length * (polls + 1) ≤ cycles) (now : Nat) :
    Keeps polls asked goal cycles (d.startFront x plc now) := by
  rcases ahead with _ | ⟨e, ahead⟩
  · have front : x.queue.front? = none := by rw [Queue.front?, entries, List.head?_nil]
    rw [← entries] at due
    rw [startFront, front]
    exact .rests due idle active (.inl entries)
  · have front : x.queue.front? = some e := by rw [Queue.front?, entries, List.head?_cons]
    rw [List.length_cons, Nat.succ_mul] at fits
    rw [startFront, front]
    rcases asks : e.primitive.motion? place with _ | motion
    · have pause : e.primitive = .pause := by
        cases primitive : e.primitive with
        | pause => rfl
        | dwell ms => exact absurd primitive (due.noDwell e List.mem_cons_self ms)
        | move | seek | latch | head =>
          rw [primitive] at asks
          cases asks
      exact start_pause_keeps due idle active entries pause (by omega) now
    · exact start_motion_keeps positive due idle known entries asks (by omega) now

theorem advance_of_rest (active : d.active = none) (stalled : d.stalled = none) (now later : Nat) :
    d.advance x plc true now later = d.startFront x plc later := by
  have dropped : d.dropMissing x.queue = d := by
    rw [dropMissing, active, Option.filter_none, ← active]
  rw [advance, dropped, follow, active]
  simp only [active, stalled, startFront]
  rfl

/-- A dispatcher with nothing under way starts the front of the queue once the controller is
ready. -/
theorem advance_rest_keeps (positive : 0 < polls) {ahead : List (QueueEntry R)}
    (due : d.Due polls asked goal plc place ahead) (idle : plc.Idle place)
    (active : d.active = none) (known : d.link.position = place.widen)
    (entries : x.queue.entries = ahead) (fits : ahead.length * (polls + 1) ≤ cycles)
    (now later : Nat) : Keeps polls asked goal cycles (d.advance x plc true now later) := by
  rw [advance_of_rest active due.stalled]
  exact startFront_keeps positive due idle active known entries fits later

section

variable {e : QueueEntry R} {ahead : List (QueueEntry R)} {deadline : Nat} {busy : Bool}

omit [Scalar R] in
theorem dropMissing_of_front (active : d.active = some (.motion e.seq busy deadline))
    (entries : x.queue.entries = e :: ahead) : d.dropMissing x.queue = d := by
  have front : x.queue.front? = some e := by rw [Queue.front?, entries, List.head?_cons]
  have inFront : isFront x.queue e.seq = true := isFront_iff.mpr ⟨e, front, rfl⟩
  have kept : Option.filter (fun a : Active => isFront x.queue a.seq)
      (some (.motion e.seq busy deadline)) = some (.motion e.seq busy deadline) := if_pos inFront
  rw [dropMissing, active, kept, ← active]

/-- A motion under way is seen while the controller is busy. -/
theorem advance_busy_keeps {reads now : Nat} (due : d.Due polls asked goal plc place ahead)
    (underway : plc.Underway reads place) (active : d.active = some (.motion e.seq busy deadline))
    (entries : x.queue.entries = e :: ahead) (inTime : now < deadline)
    (fits : reads + 1 + ahead.length * (polls + 1) ≤ cycles) (later : Nat) :
    Keeps polls asked goal cycles (d.advance x plc false now later) := by
  have seen : d.advance x plc false now later =
      ({ d with active := some (.motion e.seq true deadline) }, x, plc, 0) := by
    rw [advance, dropMissing_of_front active entries, follow, active]
    simp only [Bool.false_and, Bool.false_eq_true, if_false, if_neg (Nat.not_le.mpr inTime),
      Bool.and_false]
  rw [seen]
  exact .moves (due.withActive _) underway rfl entries (.inl rfl) fits

/-- A motion that is over is retired, and the next entry is started. -/
theorem advance_done_keeps (positive : 0 < polls) (due : d.Due polls asked goal plc place ahead)
    (idle : plc.Idle place) (active : d.active = some (.motion e.seq true deadline))
    (entries : x.queue.entries = e :: ahead) (known : d.link.position = place.widen)
    (fits : ahead.length * (polls + 1) ≤ cycles) (now later : Nat) :
    Keeps polls asked goal cycles (d.advance x plc true now later) := by
  have retired : d.advance x plc true now later =
      startFront { d with active := none } { x with queue := (x.queue.complete e.seq).2 } plc
        later := by
    rw [advance, dropMissing_of_front active entries, follow, active]
    simp only [Bool.and_self, if_true, retire, due.stalled, startFront]
    rfl
  rw [retired]
  exact startFront_keeps positive (due.withActive none) idle rfl known
    (Queue.entries_complete entries) fits later

end

/-! ## Cycles -/

/-- A healthy status keeps a dispatcher going, and the queue is told that the controller takes
motion. -/
theorem act_of_healthy {status : ControllerStatus R} (healthy : status.isHealthy = true)
    (noStall : status.stalled = none) (stalled : d.stalled = none) {now later : Nat}
    (still : (d.advance { x with status := status } plc status.ready now later).1.stalled = none) :
    d.act x plc status now later =
      (let r := d.advance { x with status := status } plc status.ready now later
      (r.1, { r.2.1 with queue := r.2.1.queue.setReady true }, r.2.2)) := by
  have dropped : d.dropStalled x.queue = d := by
    rw [dropStalled, stalled, Option.filter_none, ← stalled]
  have same : { status with stalled := d.stalled.map (·.2) } = status := by
    rw [stalled, Option.map_none, ← noStall]
  have sound : status.isFault = false := by
    rw [ControllerStatus.isHealthy, Bool.and_eq_true, Bool.not_eq_true'] at healthy
    exact healthy.2
  rw [act, dropped, same]
  simp only [sound, Bool.false_eq_true, if_false]
  rcases advanced : d.advance { x with status := status } plc status.ready now later with
    ⟨d', x', plc', waited⟩
  rw [advanced] at still
  have still : d'.stalled = none := still
  simp only [still, healthy]

/-- A cycle at a sound controller keeps to the schedule if what follows the poll does, and tells the
queue that the controller takes motion. -/
theorem cycleOver_of_reads {ahead : List (QueueEntry R)} {now later : Nat}
    (due : d.Due polls asked goal plc place ahead) (sound : plc.Sound) {ready : Bool}
    {plc' : Simulator} (reads : plc.ReadsReady ready plc')
    (next : ∀ (d' : Dispatcher R) (x' : Exchange R), d'.Due polls asked goal plc' place ahead →
      d'.active = d.active → x'.queue.entries = x.queue.entries →
      (∀ place, plc'.Idle place → d'.link.position = place.widen) →
      Keeps polls asked goal cycles (d'.advance x' plc' ready now later)) :
    Keeps polls asked goal cycles (d.cycleOver x plc now later) ∧
      (d.cycleOver x plc now later).2.1.queue.ready = true := by
  obtain ⟨status, link, polled, rfl, noStall, healthy, flushed, known⟩ :=
    Link.poll_simulator due.flushed sound reads
  have kept := next { d with link := link } { x with status := status }
    (due.polled reads flushed due.stalled) rfl rfl known
  rw [cycleOver, polled]
  simp only
  rw [act_of_healthy (d := { d with link := link }) healthy noStall due.stalled kept.stalled]
  exact ⟨kept, rfl⟩

/-- A cycle at a sound controller keeps to the schedule, unless a motion is out of time. -/
theorem cycleOver_keeps (positive : 0 < polls) {now later : Nat}
    (h : OnSchedule polls asked goal (cycles + 1) d x.queue.entries plc)
    (inTime : ∀ a ∈ d.active, a.InTime now) :
    Keeps polls asked goal cycles (d.cycleOver x plc now later) ∧
      (d.cycleOver x plc now later).2.1.queue.ready = true := by
  cases h with
  | rests due idle active fits =>
    have fits' : x.queue.entries.length * (polls + 1) ≤ cycles := by
      rcases fits with empty | fits
      · rw [empty, List.length_nil, Nat.zero_mul]
        exact Nat.zero_le cycles
      · omega
    have reads := idle.readsReady
    refine cycleOver_of_reads due idle.toSound reads fun d' x' due' same entries known => ?_
    exact advance_rest_keeps positive due' idle (same.trans active) (known _ idle) entries fits' _ _
  | @moves place e ahead reads deadline busy due underway active front seen fits =>
    cases reads with
    | zero =>
      obtain ⟨plc', reads, idle⟩ := underway.readsReady_zero
      obtain rfl : busy = true := seen.resolve_right (Nat.lt_irrefl 0)
      refine cycleOver_of_reads due underway.toSound reads fun d' x' due' same entries known => ?_
      exact advance_done_keeps positive due' idle (same.trans active) (entries.trans front)
        (known _ idle) (by omega) _ _
    | succ n =>
      obtain ⟨plc', reads, underway'⟩ := underway.readsReady_succ
      refine cycleOver_of_reads due underway.toSound reads fun d' x' due' same entries _ => ?_
      exact advance_busy_keeps due' underway' (same.trans active) (entries.trans front)
        (inTime _ active) (by omega) _

end Dispatcher

namespace Handover

open Dispatcher (OnSchedule)

/-! ## Runs -/

section

variable {σ : Type} [Adapter σ]

/-- Cycles at these times, of which each is that of the two times that the clock is read. -/
def cycles (times : List (Nat × Nat)) : List (Event σ R) := times.map fun t => .cycle t.1 t.2

/-- The clock reaches the deadline of no motion in cycles at these times. -/
def InTime (h : Handover σ R) : List (Nat × Nat) → Prop
  | [] => True
  | t :: times =>
    (∀ a ∈ h.dispatcher.active, a.InTime t.1) ∧ (h.perform (.cycle t.1 t.2)).InTime times

instance instDecidableInTime (h : Handover σ R) :
    (times : List (Nat × Nat)) → Decidable (h.InTime times)
  | [] => isTrue trivial
  | t :: times =>
    have := instDecidableInTime (h.perform (.cycle t.1 t.2)) times
    inferInstanceAs (Decidable ((∀ a ∈ h.dispatcher.active, a.InTime t.1) ∧ _))

/-- What leaves the queue in cycles is noted as retired, in order. -/
theorem cycles_conserve (h : Handover σ R) (times : List (Nat × Nat)) :
    h.exchange.queue.entries = (h.log (cycles times)).filterMap Note.retired? ++
      (h.run (cycles times)).exchange.queue.entries := by
  induction times generalizing h with
  | nil => rfl
  | cons t times ih =>
    rw [cycle_conserves h t.1 t.2, ih (h.perform (.cycle t.1 t.2)), ← List.append_assoc,
      ← List.filterMap_append]
    rfl

end

variable {polls : Nat} {asked : List ControllerState} {goal : Location Float32}

/-- Cycles in time keep to the schedule. -/
theorem run_onSchedule (positive : 0 < polls) {h : Handover Simulator R}
    {times : List (Nat × Nat)}
    (onSchedule : OnSchedule polls asked goal times.length h.dispatcher h.exchange.queue.entries
      h.plc) (ready : times = [] → h.exchange.queue.ready = true) (inTime : h.InTime times) :
    OnSchedule polls asked goal 0 (h.run (cycles times)).dispatcher
        (h.run (cycles times)).exchange.queue.entries (h.run (cycles times)).plc ∧
      (h.run (cycles times)).exchange.queue.ready = true := by
  induction times generalizing h with
  | nil => exact ⟨onSchedule, ready rfl⟩
  | cons t times ih =>
    obtain ⟨next, ready'⟩ :=
      Dispatcher.cycleOver_keeps (x := h.exchange) positive onSchedule inTime.1
    exact ih next (fun _ => ready') inTime.2

/-- When no cycle is left, nothing is left to do. -/
theorem done_of_onSchedule {d : Dispatcher R} {entries : List (QueueEntry R)} {plc : Simulator}
    (h : OnSchedule polls asked goal 0 d entries plc) :
    entries = [] ∧ plc.submissions = asked ∧ plc.Idle goal := by
  cases h with
  | rests due idle active fits =>
    have empty : entries = [] := fits.resolve_right (by omega)
    subst empty
    refine ⟨rfl, ?_, ?_⟩
    · rw [← due.asked]
      exact (List.append_nil _).symm
    · rw [← due.goal]
      exact idle
  | moves due underway active entries seen fits => omega

/-- A dispatcher that was just made, with the queue that it shares. -/
def fresh {σ : Type} (timeoutMillis moveTimeoutMillis : Nat) (x : Exchange R) (plc : σ) :
    Handover σ R :=
  ⟨.make (.make timeoutMillis) moveTimeoutMillis, x, plc⟩

/-- A dispatcher that was just made, with a controller that rests and has no fault, carries out
every queue without dwells in order, if nothing else touches the queue and the clock reaches no
deadline. After one cycle, and for each entry one more than the reads of `READY` that a motion
takes, the queue is empty and everything in it was retired in order. The controller was asked for
the motion of each entry but the pauses, once and in order, and rests where the last of them ends.
The queue knows that the controller takes motion. -/
theorem delivers (timeoutMillis moveTimeoutMillis polls : Nat) {x : Exchange R} {plc : Simulator}
    {place : Location Float32} (idle : plc.Idle place) (takes : plc.completionPolls = max polls 1)
    (noDwell : ∀ e ∈ x.queue.entries, ∀ ms, e.primitive ≠ .dwell ms) {times : List (Nat × Nat)}
    (count : times.length = 1 + x.queue.entries.length * (max polls 1 + 1))
    (inTime : (fresh timeoutMillis moveTimeoutMillis x plc).InTime times) :
    let h := fresh timeoutMillis moveTimeoutMillis x plc
    (h.run (cycles times)).exchange.queue.entries = [] ∧
      (h.log (cycles times)).filterMap Note.retired? = x.queue.entries ∧
      (h.run (cycles times)).plc.submissions =
        plc.submissions ++ motions place (x.queue.entries.map QueueEntry.primitive) ∧
      (h.run (cycles times)).plc.Idle
        (reached place (x.queue.entries.map QueueEntry.primitive)) ∧
      (h.run (cycles times)).exchange.queue.ready = true := by
  intro h
  have begins : OnSchedule (max polls 1)
      (plc.submissions ++ motions place (x.queue.entries.map QueueEntry.primitive))
      (reached place (x.queue.entries.map QueueEntry.primitive)) times.length h.dispatcher
      x.queue.entries plc :=
    .rests ⟨Registry.standard_flushed, rfl, takes, noDwell, rfl, rfl⟩ idle rfl (.inr count.ge)
  have begun : times ≠ [] := by
    intro never
    rw [never, List.length_nil] at count
    omega
  obtain ⟨ends, ready⟩ := run_onSchedule (Nat.le_max_right polls 1) begins
    (fun never => absurd never begun) inTime
  obtain ⟨empty, submissions, rests⟩ := done_of_onSchedule ends
  have conserved := h.cycles_conserve times
  rw [empty, List.append_nil] at conserved
  exact ⟨empty, conserved.symm, submissions, rests, ready⟩

end Handover

namespace Bench

/-- A queue with something for the latch, for all axes, for nobody and for the head. -/
def errands : Exchange Whole :=
  ⟨{ (.empty 4 : Queue Whole) with
    entries := Queue.number 0 none
      [.latch .back, .move ⟨⟨1⟩, ⟨2⟩, ⟨3⟩⟩ ⟨⟨1⟩, ⟨1⟩, ⟨1⟩⟩, .pause, .head .front ⟨5⟩]
    submitted := 4 }, .unknown⟩

/-- A dispatcher with these errands and a controller that was just made. -/
def errand : Handover Simulator Whole := .fresh 50 1000 errands (.make 0)

/-- The errands are run in nine cycles. -/
theorem errands_delivered :
    (errand.run (Handover.cycles (.replicate 9 (0, 0)))).exchange.queue.entries = [] ∧
      (errand.run (Handover.cycles (.replicate 9 (0, 0)))).plc.submissions =
        [.latching, .xySeek, .head] := by
  have noDwell : ∀ e ∈ errands.queue.entries, ∀ ms, e.primitive ≠ .dwell ms := by
    simp [errands, Queue.number]
  have inTime : errand.InTime (.replicate 9 (0, 0)) := by decide +kernel
  obtain ⟨empty, -, submissions, -, -⟩ :=
    Handover.delivers 50 1000 0 (Simulator.make_idle 0) rfl noDwell rfl inTime
  have asked : motions ⟨TagValue.single 0, TagValue.single 0, TagValue.single 0⟩
      (errands.queue.entries.map QueueEntry.primitive) = [.latching, .xySeek, .head] := by
    decide +kernel
  exact ⟨empty, submissions.trans asked⟩

end Bench

end Winding
