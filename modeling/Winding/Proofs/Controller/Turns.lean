import Mathlib.Logic.Relation
import Winding.Controller.Dispatcher
import Winding.Proofs.Motion.Recipe

/-!
# The turns of a dispatcher

An observer of a dispatcher writes down what becomes of each entry: when it is submitted to the
controller, when it leaves the queue, when the dispatcher gives up on it (`Dispatcher.notes`). A
cycle is a sequence of turns, each of which changes one thing and has a condition for it
(`Dispatcher.cycleOver_turns`). What every turn keeps is kept by every cycle: entries are retired from
the front of the queue, and none is pushed or dropped (`Dispatcher.cycleOver_retires`).
-/

namespace Winding

variable {R : Type}

/-- Whether the controller carries a primitive out. A dwell and a pause never reach it. -/
def Primitive.isMotion : Primitive R → Bool
  | .dwell _ | .pause => false
  | .move .. | .seek .. | .latch _ | .head .. => true

/-! ## Notes -/

/-- What the dispatcher has before it when it acts on an entry. -/
structure Moment (R : Type) where
  now : Nat
  /-- The entry that is being carried out. -/
  active : Option Active
  /-- The entry in front of the queue. -/
  front : Option (QueueEntry R)

/-- What an observer of a dispatcher writes down. -/
inductive Note (R : Type) where
  /-- The controller answered a poll, and said whether it was ready. -/
  | polled (ready : Bool)
  /-- The controller did not answer the poll, or its answer shows a fault. -/
  | lost
  /-- A primitive was sent to the controller, which took it. -/
  | submitted (e : QueueEntry R) (m : Moment R)
  /-- A primitive was sent to the controller, which did not take it. -/
  | refused (e : QueueEntry R)
  /-- A dwell began. -/
  | began (e : QueueEntry R) (m : Moment R)
  /-- An entry left the queue. -/
  | retired (e : QueueEntry R) (m : Moment R)
  /-- An entry took too long. -/
  | gaveUp (seq : Nat)

namespace Note

/-- The entry that left the queue. -/
def retired? : Note R → Option (QueueEntry R)
  | .retired e _ => some e
  | _ => none

/-- The entry that was submitted, or that began to dwell. -/
def started? : Note R → Option (QueueEntry R)
  | .submitted e _ | .began e _ => some e
  | _ => none

end Note

/-- Every note may follow those before it. -/
def Throughout (allowed : List (Note R) → Note R → Prop) (log : List (Note R)) : Prop :=
  ∀ before n, before ++ [n] <+: log → allowed before n

theorem throughout_nil (allowed : List (Note R) → Note R → Prop) : Throughout allowed [] :=
  fun before n part => absurd (List.prefix_nil.mp part) (by simp)

theorem Throughout.concat {allowed : List (Note R) → Note R → Prop} {log : List (Note R)}
    {n : Note R} (h : Throughout allowed log) (next : allowed log n) :
    Throughout allowed (log ++ [n]) := by
  intro before k part
  rcases List.prefix_concat_iff.mp part with same | part
  · obtain ⟨rfl, one⟩ := List.append_inj' same rfl
    obtain rfl := List.singleton_inj.mp one
    exact next
  · exact h before k part

namespace Dispatcher

/-- The present moment. -/
def moment (d : Dispatcher R) (x : Exchange R) (now : Nat) : Moment R :=
  ⟨now, d.active, x.queue.front?⟩

variable [Scalar R]

/-- How the active entry is followed: what leaves the queue is retired, and what is marked as stalled
was given up. -/
def followNotes (d : Dispatcher R) (x : Exchange R) (ready : Bool) (now : Nat) : List (Note R) :=
  ((x.queue.taken (d.follow x ready now).2.queue).map fun e => .retired e (d.moment x now)) ++
    (if d.stalled.isNone then
      ((d.follow x ready now).1.stalled.map fun s => Note.gaveUp s.1).toList
    else [])

variable {σ : Type} [Adapter σ]

/-- How an entry is started. -/
def startNotes (d : Dispatcher R) (x : Exchange R) (plc : σ) (e : QueueEntry R) (now : Nat) :
    List (Note R) :=
  match e.primitive with
  | .dwell _ => [.began e (d.moment x now)]
  | .pause =>
    (x.queue.taken (d.start x plc e now).2.1.queue).map fun e => .retired e (d.moment x now)
  | p =>
    match (d.link.submit plc p).1 with
    | .ok () => [.submitted e (d.moment x now)]
    | .error _ => [.refused e]

/-- What is noted of a status without a fault. -/
def advanceNotes (d : Dispatcher R) (x : Exchange R) (plc : σ) (ready : Bool) (now later : Nat) :
    List (Note R) :=
  let d := d.dropMissing x.queue
  let (d', x') := d.follow x ready now
  d.followNotes x ready now ++
    if d'.stalled.isNone && d'.active.isNone && ready then
      match x'.queue.front? with
      | some e => d'.startNotes x' plc e later
      | none => []
    else []

/-- What is noted of an answer. -/
def actNotes (d : Dispatcher R) (x : Exchange R) (plc : σ) (polled : ControllerStatus R)
    (now later : Nat) : List (Note R) :=
  let d := d.dropStalled x.queue
  let status := { polled with stalled := d.stalled.map (·.2) }
  if status.isFault then [.lost]
  else d.advanceNotes { x with status := status } plc status.ready now later

/-- What is noted of a cycle. -/
def notes (d : Dispatcher R) (x : Exchange R) (plc : σ) (now later : Nat) : List (Note R) :=
  let (result, link, plc, _) := d.link.poll plc
  match result with
  | .error _ => [.lost]
  | .ok polled =>
    .polled polled.ready :: { d with link := link }.actNotes x plc polled now later

end Dispatcher

/-! ## Turns -/

/-- What an observer sees of a dispatcher and its queue, and what was noted so far. -/
structure Watch (R : Type) where
  active : Option Active
  /-- The number of the entry that was given up. -/
  stalled : Option Nat
  queue : Queue R
  log : List (Note R)

/-- The observer's view of a dispatcher. -/
def Dispatcher.watch (d : Dispatcher R) (x : Exchange R) (log : List (Note R)) : Watch R :=
  ⟨d.active, d.stalled.map (·.1), x.queue, log⟩

namespace Watch

/-- One more note. -/
def note (w : Watch R) (n : Note R) : Watch R := { w with log := w.log ++ [n] }

/-- The present moment. -/
def moment (w : Watch R) (now : Nat) : Moment R := ⟨now, w.active, w.queue.front?⟩

/-- Nothing keeps the entry in front from being started. -/
structure Idle (w : Watch R) (e : QueueEntry R) : Prop where
  active : w.active = none
  stalled : w.stalled = none
  front : w.queue.front? = some e

variable [Scalar R]

/-- The entry in front leaves the queue. -/
def retire (w : Watch R) (e : QueueEntry R) (now : Nat) : Watch R where
  active := none
  stalled := w.stalled
  queue := (w.queue.complete e.seq).2
  log := w.log ++ [.retired e (w.moment now)]

/-- One change that a dispatcher makes. -/
inductive Turn : Watch R → Watch R → Prop
  | polled (w : Watch R) (ready : Bool) : Turn w (w.note (.polled ready))
  | lost (w : Watch R) :
      Turn w ({ w with active := none, queue := w.queue.setReady false }.note .lost)
  | setReady (w : Watch R) (ready : Bool) : Turn w { w with queue := w.queue.setReady ready }
  /-- The active entry is not in front any more. -/
  | forget {w : Watch R} {a : Active} (active : w.active = some a)
      (missing : Dispatcher.isFront w.queue a.seq = false) : Turn w { w with active := none }
  /-- The entry that was given up is not in front any more. -/
  | release {w : Watch R} {n : Nat} (stalled : w.stalled = some n)
      (missing : Dispatcher.isFront w.queue n = false) : Turn w { w with stalled := none }
  /-- The controller has become busy. -/
  | busy {w : Watch R} {n deadline : Nat} {busy : Bool}
      (active : w.active = some (.motion n busy deadline)) (polled : [.polled false] <:+ w.log) :
      Turn w { w with active := some (.motion n true deadline) }
  /-- The controller is ready again. -/
  | complete {w : Watch R} {e : QueueEntry R} {deadline : Nat} (now : Nat)
      (active : w.active = some (.motion e.seq true deadline)) (front : w.queue.front? = some e)
      (polled : [.polled true] <:+ w.log) : Turn w (w.retire e now)
  /-- A dwell is over. -/
  | elapse {w : Watch R} {e : QueueEntry R} {until_ now : Nat}
      (active : w.active = some (.dwell e.seq until_)) (front : w.queue.front? = some e)
      (due : until_ ≤ now) : Turn w (w.retire e now)
  | pass {w : Watch R} {e : QueueEntry R} (now : Nat) (idle : w.Idle e)
      (pause : e.primitive = .pause) : Turn w (w.retire e now)
  | giveUp {w : Watch R} {e : QueueEntry R} {deadline : Nat} {busy : Bool}
      (active : w.active = some (.motion e.seq busy deadline)) (front : w.queue.front? = some e)
      (stalled : w.stalled = none) :
      Turn w ({ w with active := none, stalled := some e.seq }.note (.gaveUp e.seq))
  | begin {w : Watch R} {e : QueueEntry R} {ms : Nat} (now : Nat) (idle : w.Idle e)
      (dwell : e.primitive = .dwell ms) :
      Turn w ({ w with active := some (.dwell e.seq (now + ms)) }.note (.began e (w.moment now)))
  | submit {w : Watch R} {e : QueueEntry R} (now deadline : Nat) (idle : w.Idle e)
      (motion : e.primitive.isMotion = true) :
      Turn w ({ w with active := some (.motion e.seq false deadline) }.note
        (.submitted e (w.moment now)))
  | refuse {w : Watch R} {e : QueueEntry R} (idle : w.Idle e) :
      Turn w ({ w with active := none, queue := w.queue.setReady false }.note (.refused e))

/-- Any number of turns. -/
abbrev Turns : Watch R → Watch R → Prop := Relation.ReflTransGen Turn

variable {w w' : Watch R}

/-- What every turn keeps is kept by any number of turns. -/
theorem Turns.keeps {P : Watch R → Prop} (turns : Turns w w') (h : P w)
    (turn : ∀ {w w'}, P w → Turn w w' → P w') : P w' := by
  induction turns with
  | refl => exact h
  | tail _ last ih => exact turn ih last

/-- Turns retire entries from the front of the queue. -/
theorem Turn.retires (h : Turn w w') : w.queue.Retires w'.queue := by
  cases h with
  | complete | elapse | pass => exact .complete _ _
  | lost | setReady | refuse => exact .setReady _ _
  | _ => exact .refl _

/-- What leaves the queue is what is noted as retired. -/
theorem Turn.conserves (h : Turn w w') :
    ∃ new, w'.log = w.log ++ new ∧
      w.queue.entries = new.filterMap Note.retired? ++ w'.queue.entries := by
  have retired {e : QueueEntry R} (now : Nat) (front : w.queue.front? = some e) :
      ∃ new, (w.retire e now).log = w.log ++ new ∧
        w.queue.entries = new.filterMap Note.retired? ++ (w.retire e now).queue.entries := by
    refine ⟨_, rfl, ?_⟩
    have left := (Queue.Retires.complete w.queue e.seq).entries_eq
    rwa [Queue.taken_complete front] at left
  cases h with
  | complete now active front polled => exact retired now front
  | elapse active front due => exact retired _ front
  | pass now idle pause => exact retired now idle.front
  | setReady | forget | release | busy => exact ⟨[], (List.append_nil _).symm, rfl⟩
  | polled | lost | giveUp | begin | submit | refuse => exact ⟨[_], rfl, rfl⟩

theorem Turns.conserves (h : Turns w w') :
    ∃ new, w'.log = w.log ++ new ∧
      w.queue.entries = new.filterMap Note.retired? ++ w'.queue.entries := by
  induction h with
  | refl => exact ⟨[], (List.append_nil _).symm, rfl⟩
  | tail _ last ih =>
    obtain ⟨new, log, entries⟩ := ih
    obtain ⟨new', log', entries'⟩ := last.conserves
    refine ⟨new ++ new', by rw [log', log, List.append_assoc], ?_⟩
    rw [entries, entries', List.filterMap_append, List.append_assoc]

/-- Nothing is active while an entry is given up. -/
theorem Turn.active_eq_none (h : Turn w w') (idle : w.stalled ≠ none → w.active = none) :
    w'.stalled ≠ none → w'.active = none := by
  cases h with
  | busy active | complete _ active | elapse active =>
    have stalled : w.stalled = none := by
      by_contra stalled
      exact nomatch active.symm.trans (idle stalled)
    exact fun given => absurd stalled given
  | begin _ idle' | submit _ _ idle' => exact fun given => absurd idle'.stalled given
  | polled | setReady => exact idle
  | release => exact fun given => absurd rfl given
  | lost | forget | pass | giveUp | refuse => exact fun _ => rfl

end Watch

/-! ## The turns of a cycle -/

namespace Dispatcher

open Watch

/-- The front of the queue, by its number. -/
theorem isFront_iff {q : Queue R} {seq : Nat} :
    isFront q seq = true ↔ ∃ e, q.front? = some e ∧ e.seq = seq := by
  simp [isFront]

variable {σ : Type} [Scalar R] [Adapter σ] {d : Dispatcher R} {x : Exchange R} {log : List (Note R)}

theorem dropMissing_turns (d : Dispatcher R) (x : Exchange R) (log : List (Note R)) :
    Turns (d.watch x log) ((d.dropMissing x.queue).watch x log) := by
  rcases d with ⟨link, timeout, _ | a, stalled⟩
  · exact .refl
  · rcases front : isFront x.queue a.seq with _ | _
    · have dropped : dropMissing ⟨link, timeout, some a, stalled⟩ x.queue =
          ⟨link, timeout, none, stalled⟩ := by simp [dropMissing, front]
      rw [dropped]
      exact .single (.forget rfl front)
    · have same : dropMissing ⟨link, timeout, some a, stalled⟩ x.queue =
          ⟨link, timeout, some a, stalled⟩ := by simp [dropMissing, front]
      rw [same]

theorem dropStalled_turns (d : Dispatcher R) (x : Exchange R) (log : List (Note R)) :
    Turns (d.watch x log) ((d.dropStalled x.queue).watch x log) := by
  rcases d with ⟨link, timeout, active, _ | s⟩
  · exact .refl
  · rcases front : isFront x.queue s.1 with _ | _
    · have dropped : dropStalled ⟨link, timeout, active, some s⟩ x.queue =
          ⟨link, timeout, active, none⟩ := by simp [dropStalled, front]
      rw [dropped]
      exact .single (.release rfl front)
    · have same : dropStalled ⟨link, timeout, active, some s⟩ x.queue =
          ⟨link, timeout, active, some s⟩ := by simp [dropStalled, front]
      rw [same]

omit [Scalar R] in
/-- An active entry that is left is in front. -/
theorem isFront_of_dropMissing {q : Queue R} {a : Active} (h : (d.dropMissing q).active = some a) :
    isFront q a.seq = true :=
  (Option.filter_eq_some_iff.mp h).2

/-- Nothing is noted while the active entry goes on. -/
theorem followNotes_eq_nil {d' : Dispatcher R} {ready : Bool} {now : Nat}
    (follows : d.follow x ready now = (d', x)) (stalled : d'.stalled = none) :
    d.followNotes x ready now = [] := by
  simp [followNotes, follows, stalled, Queue.taken_eq_nil]

theorem follow_turns {ready : Bool} (now : Nat)
    (front : ∀ a, d.active = some a → isFront x.queue a.seq = true) (stalled : d.stalled = none)
    (polled : [.polled ready] <:+ log) :
    Turns (d.watch x log) ((d.follow x ready now).1.watch (d.follow x ready now).2
      (log ++ d.followNotes x ready now)) := by
  -- A retired entry is noted, and nothing is given up with it.
  have retires {seq : Nat} {e : QueueEntry R} (he : x.queue.front? = some e) (number : e.seq = seq)
      (follows : d.follow x ready now = d.retire x seq) :
      (d.follow x ready now).1.watch (d.follow x ready now).2 (log ++ d.followNotes x ready now) =
        (d.watch x log).retire e now := by
    subst number
    simp [followNotes, follows, Dispatcher.retire, Queue.taken_complete he, stalled, watch,
      Watch.retire, moment, Watch.moment]
  -- An entry that goes on is not noted.
  have goesOn {k : Dispatcher R} (follows : d.follow x ready now = (k, x))
      (stalled' : k.stalled = none) :
      (d.follow x ready now).1.watch (d.follow x ready now).2 (log ++ d.followNotes x ready now) =
        k.watch x log := by
    rw [followNotes_eq_nil follows stalled', follows, List.append_nil]
  rcases active : d.active with _ | (⟨seq, busy, deadline⟩ | ⟨seq, until_⟩)
  · rw [goesOn (by rw [follow, active]) stalled]
  · obtain ⟨e, he, number⟩ := isFront_iff.mp (front _ active)
    by_cases done : (ready && busy) = true
    · obtain ⟨rfl, rfl⟩ : ready = true ∧ busy = true := by simpa using done
      subst number
      rw [retires he rfl (by rw [follow, active]; rfl)]
      exact .single (.complete now active he polled)
    · by_cases late : deadline ≤ now
      · have follows : d.follow x ready now = (d.giveUp x seq, x) := by
          rw [follow, active]
          simp [done, late]
        subst number
        have noted : d.followNotes x ready now = [.gaveUp e.seq] := by
          simp [followNotes, follows, giveUp, stalled, Queue.taken_eq_nil]
        rw [noted, follows]
        exact .single (.giveUp active he (by rw [watch, stalled]; rfl))
      · rcases ready with _ | _
        · rw [goesOn (k := { d with active := some (.motion seq true deadline) })
            (by rw [follow, active]; simp [late]) stalled]
          exact .single (.busy active polled)
        · rw [goesOn (by rw [follow, active]; simp [done, late]) stalled]
  · obtain ⟨e, he, number⟩ := isFront_iff.mp (front _ active)
    by_cases due : until_ ≤ now
    · subst number
      rw [retires he rfl (by rw [follow, active]; simp [due])]
      exact .single (.elapse active he due)
    · rw [goesOn (by rw [follow, active]; simp [due]) stalled]

/-- A motion is started by submitting it. -/
theorem start_motion (plc : σ) {e : QueueEntry R} (now : Nat)
    (motion : e.primitive.isMotion = true) :
    d.start x plc e now =
      (let (result, link, plc, waited) := d.link.submit plc e.primitive
      let d := { d with link := link }
      match result with
      | .ok () =>
        ({ d with active := some (.motion e.seq false (now + d.moveTimeoutMillis)) }, x, plc,
          waited)
      | .error error =>
        let (d, x) :=
          d.fail x { x.status with responsive := false, lastError := some error.message }
        (d, x, plc, waited)) := by
  unfold start
  cases primitive : e.primitive with
  | dwell | pause =>
    rw [primitive] at motion
    cases motion
  | _ => rfl

theorem startNotes_motion (plc : σ) {e : QueueEntry R} (now : Nat)
    (motion : e.primitive.isMotion = true) :
    d.startNotes x plc e now =
      match (d.link.submit plc e.primitive).1 with
      | .ok () => [.submitted e (d.moment x now)]
      | .error _ => [.refused e] := by
  unfold startNotes
  cases primitive : e.primitive with
  | dwell | pause =>
    rw [primitive] at motion
    cases motion
  | _ => rfl

theorem start_turns (plc : σ) {e : QueueEntry R} (now : Nat) (idle : (d.watch x log).Idle e) :
    Turns (d.watch x log) ((d.start x plc e now).1.watch (d.start x plc e now).2.1
      (log ++ d.startNotes x plc e now)) := by
  by_cases motion : e.primitive.isMotion = true
  · rw [start_motion plc now motion, startNotes_motion plc now motion]
    rcases d.link.submit plc e.primitive with ⟨_ | _, link, plc', waited⟩
    · exact .single (.refuse idle)
    · exact .single (.submit now _ idle motion)
  · cases primitive : e.primitive with
    | dwell ms =>
      simp only [start, startNotes, primitive]
      exact .single (.begin now idle primitive)
    | pause =>
      have active : d.active = none := idle.active
      have front : x.queue.front? = some e := idle.front
      have passed : (d.start x plc e now).1.watch (d.start x plc e now).2.1
          (log ++ d.startNotes x plc e now) = (d.watch x log).retire e now := by
        simp [start, startNotes, primitive, Queue.taken_complete front, active, watch,
          Watch.retire, moment, Watch.moment]
      rw [passed]
      exact .single (.pass now idle primitive)
    | _ =>
      rw [primitive] at motion
      exact absurd rfl motion

theorem advance_turns (plc : σ) {ready : Bool} (now later : Nat) (stalled : d.stalled = none)
    (polled : [.polled ready] <:+ log) :
    Turns (d.watch x log) ((d.advance x plc ready now later).1.watch
      (d.advance x plc ready now later).2.1 (log ++ d.advanceNotes x plc ready now later)) := by
  have dropped := d.dropMissing_turns x log
  have followed := follow_turns (d := d.dropMissing x.queue) (x := x) now
    (fun _ => isFront_of_dropMissing) stalled polled
  unfold advance advanceNotes
  rcases hf : (d.dropMissing x.queue).follow x ready now with ⟨d', x'⟩
  rw [hf] at followed
  simp only [hf]
  split
  · next free =>
    simp only [Bool.and_eq_true, Option.isNone_iff_eq_none] at free
    rcases front : x'.queue.front? with _ | e
    · rw [List.append_nil]
      exact dropped.trans followed
    · have idle : (d'.watch x' (log ++ (d.dropMissing x.queue).followNotes x ready now)).Idle e :=
        ⟨free.1.2, by rw [watch, free.1.1]; rfl, front⟩
      rw [← List.append_assoc]
      exact (dropped.trans followed).trans (start_turns plc later idle)
  · rw [List.append_nil]
    exact dropped.trans followed

theorem act_turns (plc : σ) (polled : ControllerStatus R) (now later : Nat)
    (noted : [.polled polled.ready] <:+ log) :
    Turns (d.watch x log) ((d.act x plc polled now later).1.watch
      (d.act x plc polled now later).2.1 (log ++ d.actNotes x plc polled now later)) := by
  have dropped := d.dropStalled_turns x log
  unfold act actNotes
  simp only
  split
  · exact dropped.tail (.lost _)
  · next healthy =>
    have stalled : (d.dropStalled x.queue).stalled = none := by
      rcases h : (d.dropStalled x.queue).stalled with _ | s
      · rfl
      · simp [ControllerStatus.isFault, h] at healthy
    have advanced := advance_turns (d := d.dropStalled x.queue)
      (x := { x with status := { polled with
        stalled := (d.dropStalled x.queue).stalled.map (·.2) } }) plc now later stalled noted
    have idle := advanced.keeps (P := fun w => w.stalled ≠ none → w.active = none)
      (fun given => absurd (by rw [watch, stalled]; rfl) given) fun h turn => turn.active_eq_none h
    replace advanced := dropped.trans advanced
    generalize (d.dropStalled x.queue).advance _ plc polled.ready now later = r at advanced idle ⊢
    rcases r with ⟨⟨link, timeout, active, _ | s⟩, x', plc', waited⟩
    · exact advanced.tail (.setReady _ _)
    · obtain rfl : active = none := idle (nofun)
      exact advanced.tail (.setReady _ _)

theorem cycleOver_turns (d : Dispatcher R) (x : Exchange R) (plc : σ) (now later : Nat)
    (log : List (Note R)) :
    Turns (d.watch x log) ((d.cycleOver x plc now later).1.watch
      (d.cycleOver x plc now later).2.1 (log ++ d.notes x plc now later)) := by
  unfold cycleOver notes
  rcases d.link.poll plc with ⟨_ | polled, link, plc', waited⟩
  · exact .single (.lost _)
  · have answered : Turn (d.watch x log) (d.watch x (log ++ [.polled polled.ready])) := .polled _ _
    have acted := act_turns (d := { d with link := link }) (x := x) plc' polled now later
      (List.suffix_append log [.polled polled.ready])
    rw [List.append_assoc] at acted
    exact acted.head answered

/-- A cycle retires entries from the front of the queue, and pushes and drops none. -/
theorem cycleOver_retires (d : Dispatcher R) (x : Exchange R) (plc : σ) (now later : Nat) :
    x.queue.Retires (d.cycleOver x plc now later).2.1.queue :=
  (d.cycleOver_turns x plc now later []).keeps (P := fun w => x.queue.Retires w.queue) (.refl _)
    fun retired turn => retired.trans turn.retires

theorem cycle_retires (d : Dispatcher R) (x : Exchange R) (plc : σ) (now : Nat) :
    x.queue.Retires (d.cycle x plc now).2.1.queue :=
  d.cycleOver_retires x plc now now

end Dispatcher

end Winding
