import Winding.Proofs.Station.Handover

/-!
# The discipline of retirement

When an entry may leave the queue (`Note.Retirement`) and when one may be started (`Note.Start`) is
said by what was noted before. A motion leaves only after it was submitted and the controller was
busy and is ready again, a dwell only after its time, and a pause only when nothing is active. Every
dispatcher keeps this discipline, whatever the controller does and whatever happens to the queue
(`Handover.disciplined`).
-/

namespace Winding

variable {R : Type}

/-! ## What may be noted -/

namespace Note

/-- The note is the last one that says that its entry was started, and these are the notes after
it. -/
def Latest (log : List (Note R)) (n : Note R) (after : List (Note R)) : Prop :=
  n :: after <:+ log ∧
    ∀ k ∈ after, k.started?.map QueueEntry.seq ≠ n.started?.map QueueEntry.seq

/-- The entry in front is started, and nothing else is active. -/
structure Start (e : QueueEntry R) (m : Moment R) : Prop where
  active : m.active = none
  front : m.front = some e

/-- An entry may leave the queue. -/
structure Retirement (log : List (Note R)) (e : QueueEntry R) (m : Moment R) : Prop where
  front : m.front = some e
  /-- Entries leave in the order of their numbers. -/
  order : ∀ n ∈ log, ∀ e', n.retired? = some e' → e'.seq < e.seq
  /-- A motion was submitted, and since then one poll found the controller busy, and the latest one
  found it ready. -/
  motion : e.primitive.isMotion = true → ∃ m' after,
    Latest log (.submitted e m') (after ++ [.polled true]) ∧ .polled false ∈ after
  /-- A dwell has begun, and its time is over. -/
  dwell : ∀ ms, e.primitive = .dwell ms → ∃ m' after,
    Latest log (.began e m') after ∧ m'.now + ms ≤ m.now
  pause : e.primitive = .pause → m.active = none

/-- What may be noted after other notes. -/
def Allowed (log : List (Note R)) : Note R → Prop
  | .submitted e m => Start e m ∧ e.primitive.isMotion = true
  | .began e m => Start e m ∧ ∃ ms, e.primitive = .dwell ms
  | .retired e m => Retirement log e m
  | .polled _ | .lost | .refused _ | .gaveUp _ => True

end Note

/-! ## Latest starts -/

namespace Note

variable {log after : List (Note R)} {n k : Note R}

theorem Latest.concat (h : Latest log n after)
    (other : k.started?.map QueueEntry.seq ≠ n.started?.map QueueEntry.seq) :
    Latest (log ++ [k]) n (after ++ [k]) := by
  obtain ⟨⟨before, rfl⟩, since⟩ := h
  refine ⟨⟨before, by simp⟩, fun j hj => ?_⟩
  rcases List.mem_append.mp hj with hj | hj
  · exact since j hj
  · rwa [List.mem_singleton.mp hj]

theorem latest_self (log : List (Note R)) (n : Note R) : Latest (log ++ [n]) n [] :=
  ⟨List.suffix_append log [n], List.forall_mem_nil _⟩

theorem Latest.mem (h : Latest log n after) : n ∈ log := h.1.subset List.mem_cons_self

/-- The latest note is the last one after an earlier one. -/
theorem Latest.exists_concat (h : Latest log n after) (last : [k] <:+ log) (ne : n ≠ k) :
    ∃ before, after = before ++ [k] := by
  have within : [k] <:+ n :: after := List.suffix_of_suffix_length_le last h.1 (by simp)
  obtain ⟨before, e⟩ := within
  rcases before with _ | ⟨j, before⟩
  · exact absurd (List.cons.inj e).1.symm ne
  · exact ⟨before, (List.cons.inj e).2.symm⟩

end Note

/-! ## What the dispatcher remembers -/

/-- The active entry was started, and what is remembered of it is what was noted since. -/
def Active.Recalls (log : List (Note R)) : Active → Prop
  | .motion seq busy _ => ∃ e m after, e.seq = seq ∧ e.primitive.isMotion = true ∧
      Note.Latest log (.submitted e m) after ∧ (busy = true → .polled false ∈ after)
  | .dwell seq until_ => ∃ e m after ms, e.seq = seq ∧ e.primitive = .dwell ms ∧
      Note.Latest log (.began e m) after ∧ until_ = m.now + ms

theorem Active.Recalls.concat {log : List (Note R)} {n : Note R} {a : Active} (h : a.Recalls log)
    (other : n.started? = none) : a.Recalls (log ++ [n]) := by
  cases a with
  | motion seq busy deadline =>
    obtain ⟨e, m, after, number, motion, latest, wasBusy⟩ := h
    exact ⟨e, m, after ++ [n], number, motion, latest.concat (by rw [other]; nofun),
      fun busy => List.mem_append_left _ (wasBusy busy)⟩
  | dwell seq until_ =>
    obtain ⟨e, m, after, ms, number, dwell, latest, due⟩ := h
    exact ⟨e, m, after ++ [n], ms, number, dwell, latest.concat (by rw [other]; nofun), due⟩

/-- The notes are disciplined, and agree with the queue and with what the dispatcher remembers. -/
structure Watch.Disciplined (w : Watch R) : Prop where
  numbered : w.queue.Numbered
  /-- What left the queue was pushed before everything that is in it. -/
  retired : ∀ n ∈ w.log, ∀ e, n.retired? = some e →
    e.seq < w.queue.submitted ∧ ∀ f ∈ w.queue.entries, e.seq < f.seq
  /-- What was started has its number to itself. -/
  started : ∀ n ∈ w.log, ∀ e, n.started? = some e →
    e.seq < w.queue.submitted ∧ ∀ f ∈ w.queue.entries, f.seq = e.seq → f = e
  active : ∀ a, w.active = some a → a.Recalls w.log
  log : Throughout Note.Allowed w.log

namespace Watch.Disciplined

variable {w w' : Watch R}

/-- Discipline does not depend on what is new in the queue. -/
theorem succeeds (h : w.Disciplined) {q : Queue R} (numbered : q.Numbered)
    (hq : w.queue.Succeeds q) : Disciplined { w with queue := q } where
  numbered := numbered
  retired n hn e left := by
    obtain ⟨lt, all⟩ := h.retired n hn e left
    exact ⟨lt.trans_le hq.submitted, hq.forall_mem all fun f le => lt.trans_le le⟩
  started n hn e named := by
    obtain ⟨lt, all⟩ := h.started n hn e named
    refine ⟨lt.trans_le hq.submitted, hq.forall_mem all fun f le same => ?_⟩
    exact absurd (same ▸ le) (not_le_of_gt lt)
  active := h.active
  log := h.log

theorem steers (h : w.Disciplined) {q : Queue R} (hq : w.queue.Steers q) :
    Disciplined { w with queue := q } :=
  h.succeeds (h.numbered.steers hq) hq.succeeds

theorem retires (h : w.Disciplined) {q : Queue R} (hq : w.queue.Retires q) :
    Disciplined { w with queue := q } :=
  h.succeeds (h.numbered.retires hq) hq.succeeds

/-- The dispatcher may forget what is active. -/
theorem forget (h : w.Disciplined) (stalled : Option Nat) :
    Disciplined { w with active := none, stalled := stalled } :=
  ⟨h.numbered, h.retired, h.started, nofun, h.log⟩

/-- One more note, of an entry that did not leave. -/
theorem retired_concat (h : w.Disciplined) {n : Note R} (other : n.retired? = none) :
    ∀ k ∈ w.log ++ [n], ∀ e, k.retired? = some e →
      e.seq < w.queue.submitted ∧ ∀ f ∈ w.queue.entries, e.seq < f.seq := by
  intro k hk e left
  rcases List.mem_append.mp hk with hk | hk
  · exact h.retired k hk e left
  · rw [List.mem_singleton.mp hk, other] at left
    cases left

/-- One more note, of an entry that was not started. -/
theorem started_concat (h : w.Disciplined) {n : Note R} (other : n.started? = none) :
    ∀ k ∈ w.log ++ [n], ∀ e, k.started? = some e →
      e.seq < w.queue.submitted ∧ ∀ f ∈ w.queue.entries, f.seq = e.seq → f = e := by
  intro k hk e named
  rcases List.mem_append.mp hk with hk | hk
  · exact h.started k hk e named
  · rw [List.mem_singleton.mp hk, other] at named
    cases named

/-- One more note, of an entry that neither left nor was started. -/
theorem note (h : w.Disciplined) {n : Note R} (left : n.retired? = none)
    (other : n.started? = none) (allowed : n.Allowed w.log) : (w.note n).Disciplined where
  numbered := h.numbered
  retired := h.retired_concat left
  started := h.started_concat other
  active a ha := (h.active a ha).concat other
  log := h.log.concat allowed

/-- The entry in front is started. -/
theorem begins (h : w.Disciplined) {e : QueueEntry R} (front : w.queue.front? = some e)
    {n : Note R} {a : Active} (started : n.started? = some e) (left : n.retired? = none)
    (recalls : a.Recalls (w.log ++ [n])) (allowed : n.Allowed w.log) :
    Disciplined ({ w with active := some a }.note n) where
  numbered := h.numbered
  retired := h.retired_concat left
  started k hk f was := by
    rcases List.mem_append.mp hk with hk | hk
    · exact h.started k hk f was
    · rw [List.mem_singleton.mp hk, started] at was
      obtain rfl := Option.some.inj was
      refine ⟨h.numbered.below _ (Queue.mem_of_front front), fun f hf same => ?_⟩
      rcases h.numbered.eq_or_lt front hf with rfl | lt
      · rfl
      · exact absurd same.symm lt.ne
  active a' ha := by
    obtain rfl := Option.some.inj ha
    exact recalls
  log := h.log.concat allowed

variable [Scalar R]

/-- The entry in front leaves the queue. -/
theorem retire (h : w.Disciplined) {e : QueueEntry R} {now : Nat}
    (front : w.queue.front? = some e)
    (motion : e.primitive.isMotion = true → ∃ m after,
      Note.Latest w.log (.submitted e m) (after ++ [.polled true]) ∧ .polled false ∈ after)
    (dwell : ∀ ms, e.primitive = .dwell ms → ∃ m after,
      Note.Latest w.log (.began e m) after ∧ m.now + ms ≤ now)
    (pause : e.primitive = .pause → w.active = none) : (w.retire e now).Disciplined := by
  have earlier : ∀ n ∈ w.log, ∀ e', n.retired? = some e' → e'.seq < e.seq :=
    fun n hn e' left => (h.retired n hn e' left).2 e (Queue.mem_of_front front)
  have completed := (h.forget w.stalled).retires (.complete w.queue e.seq)
  refine ⟨completed.numbered, fun n hn f left => ?_, completed.started_concat rfl, nofun,
    h.log.concat ⟨front, earlier, motion, dwell, pause⟩⟩
  rcases List.mem_append.mp hn with hn | hn
  · exact completed.retired n hn f left
  · rw [List.mem_singleton.mp hn] at left
    obtain rfl := Option.some.inj left
    have lt := h.numbered.below e (Queue.mem_of_front front)
    exact ⟨lt.trans_le (Queue.Retires.complete w.queue e.seq).succeeds.submitted,
      fun f => h.numbered.lt_of_mem_complete front⟩

/-- A turn keeps discipline. -/
theorem turn (h : w.Disciplined) (turn : w.Turn w') : w'.Disciplined := by
  cases turn with
  | polled ready => exact h.note rfl rfl trivial
  | lost => exact ((h.forget w.stalled).retires (.setReady w.queue false)).note rfl rfl trivial
  | setReady ready => exact h.retires (.setReady w.queue ready)
  | forget => exact h.forget w.stalled
  | release => exact ⟨h.numbered, h.retired, h.started, h.active, h.log⟩
  | busy active polled =>
    refine ⟨h.numbered, h.retired, h.started, fun a ha => ?_, h.log⟩
    obtain rfl := Option.some.inj ha
    obtain ⟨e, m, after, number, motion, latest, -⟩ := h.active _ active
    obtain ⟨before, rfl⟩ := latest.exists_concat polled nofun
    exact ⟨e, m, _, number, motion, latest, fun _ => by simp⟩
  | @complete e deadline now active front polled =>
    obtain ⟨e', m, after, number, motion, latest, wasBusy⟩ := h.active _ active
    obtain rfl := (h.started _ latest.mem e' rfl).2 e (Queue.mem_of_front front) number.symm
    obtain ⟨before, rfl⟩ := latest.exists_concat polled nofun
    refine h.retire front (fun _ => ⟨m, before, latest, ?_⟩) ?_ ?_
    · simpa using wasBusy rfl
    · intro ms dwell
      rw [dwell] at motion
      cases motion
    · intro pause
      rw [pause] at motion
      cases motion
  | @elapse e until_ now active front due =>
    obtain ⟨e', m, after, ms, number, dwell, latest, rfl⟩ := h.active _ active
    obtain rfl := (h.started _ latest.mem e' rfl).2 e (Queue.mem_of_front front) number.symm
    refine h.retire front ?_ (fun ms' dwell' => ⟨m, after, latest, ?_⟩) ?_
    · intro motion
      rw [dwell] at motion
      cases motion
    · obtain rfl := Primitive.dwell.inj (dwell.symm.trans dwell')
      exact due
    · intro pause
      cases dwell.symm.trans pause
  | pass now idle pause =>
    refine h.retire idle.front ?_ ?_ fun _ => idle.active
    · intro motion
      rw [pause] at motion
      cases motion
    · intro ms dwell
      cases pause.symm.trans dwell
  | giveUp active front stalled => exact (h.forget _).note rfl rfl trivial
  | begin now idle dwell =>
    exact h.begins idle.front rfl rfl ⟨_, _, [], _, rfl, dwell, Note.latest_self _ _, rfl⟩
      ⟨⟨idle.active, idle.front⟩, _, dwell⟩
  | submit now deadline idle motion =>
    exact h.begins idle.front rfl rfl ⟨_, _, [], rfl, motion, Note.latest_self _ _, nofun⟩
      ⟨⟨idle.active, idle.front⟩, motion⟩
  | refuse idle => exact ((h.forget w.stalled).retires (.setReady w.queue false)).note rfl rfl trivial

end Watch.Disciplined

/-! ## Runs -/

namespace Handover

variable {σ : Type} [Scalar R] [Adapter σ]

/-- What leaves the queue in a cycle is what is noted as retired. -/
theorem cycle_conserves (h : Handover σ R) (now later : Nat) :
    h.exchange.queue.entries = (h.notes (.cycle now later)).filterMap Note.retired? ++
      (h.perform (.cycle now later)).exchange.queue.entries := by
  have turns := h.dispatcher.cycleOver_turns h.exchange h.plc now later []
  obtain ⟨new, log, entries⟩ := turns.conserves
  obtain rfl : new = h.notes (.cycle now later) := log.symm
  exact entries

/-- On the bench, a motion, a pause and a dwell leave in this order. -/
example : (Bench.handover.log [.push none [.latch .back, .pause, .dwell 30], .cycle 0 5,
    .cycle 10 10, .cycle 20 22, .cycle 40 40, .cycle 60 60, .cycle 70 70]).filterMap
      (fun n => n.retired?.map QueueEntry.seq) = [0, 1, 2] := by
  decide

end Handover

end Winding
