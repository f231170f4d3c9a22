import Mathlib.Data.List.Nodup
import Winding.Proofs.Station.Handover

/-!
# How often an entry is submitted

A dispatcher forgets what is active when the controller does not answer or shows a fault, and the
entry stays in front of the queue. Once the controller answers again, the entry is submitted again
(`Bench.log_resubmission`). It takes such a loss: in every stretch of a run without one, each entry is
submitted at most once, and an entry that was given up is never submitted again
(`Handover.submits_once`).
-/

namespace Winding

variable {R : Type}

/-- The number of the entry that was submitted. -/
def Note.submitted? : Note R → Option Nat
  | .submitted e _ => some e.seq
  | _ => none

theorem Note.submitted?_eq_some {n : Note R} {seq : Nat} (h : n.submitted? = some seq) :
    ∃ e m, n = .submitted e m ∧ e.seq = seq := by
  cases n with
  | submitted e m => exact ⟨e, m, rfl, Option.some.inj h⟩
  | _ => cases h

/-- An entry is submitted after other notes only if it was not given up, and was not submitted since
the controller was last lost. -/
def Note.Fresh (log : List (Note R)) : Note R → Prop
  | .submitted e _ => .gaveUp e.seq ∉ log ∧
      ∀ f m after, .submitted f m :: after <:+ log → f.seq = e.seq → .lost ∈ after
  | _ => True

/-- What a number says about the queue: it was given, and nothing older is queued. -/
structure Queue.Leads (q : Queue R) (n : Nat) : Prop where
  given : n < q.submitted
  first : ∀ f ∈ q.entries, n ≤ f.seq

namespace Queue

variable {q q' : Queue R} {n : Nat}

theorem Leads.succeeds (h : q.Leads n) (hq : q.Succeeds q') : q'.Leads n where
  given := h.given.trans_le hq.submitted
  first := hq.forall_mem h.first fun _ le => h.given.le.trans le

theorem Numbered.leads (h : q.Numbered) {e : QueueEntry R} (front : q.front? = some e) :
    q.Leads e.seq where
  given := h.below e (mem_of_front front)
  first f hf := by
    rcases h.eq_or_lt front hf with rfl | lt
    · exact le_refl _
    · exact lt.le

/-- A number that leads is in front, or no entry has it. -/
theorem Leads.isFront (h : q.Leads n) (numbered : q.Numbered) {f : QueueEntry R}
    (hf : f ∈ q.entries) (seq : f.seq = n) : Dispatcher.isFront q n = true := by
  obtain ⟨e, front⟩ : ∃ e, q.front? = some e := by
    rcases entries : q.entries with _ | ⟨e, rest⟩
    · rw [entries] at hf
      cases hf
    · exact ⟨e, by rw [front?, entries]; rfl⟩
  refine Dispatcher.isFront_iff.mpr ⟨e, front, ?_⟩
  have le := h.first e (mem_of_front front)
  rcases numbered.eq_or_lt front hf with rfl | lt
  · exact seq
  · exact le_antisymm (seq ▸ lt.le) le

end Queue

/-- No entry is submitted again without a loss, and the notes agree with what the dispatcher
remembers. -/
structure Watch.Sparing (w : Watch R) : Prop where
  numbered : w.queue.Numbered
  active : ∀ a, w.active = some a → w.queue.Leads a.seq
  stalled : ∀ n, w.stalled = some n → w.queue.Leads n
  /-- An entry that was given up is remembered while it is queued. -/
  gaveUp : ∀ n, .gaveUp n ∈ w.log →
    n < w.queue.submitted ∧ ∀ f ∈ w.queue.entries, f.seq = n → w.stalled = some n
  /-- An entry that was submitted is active or was given up, while it is queued and the controller is
  not lost. -/
  submitted : ∀ e m after, .submitted e m :: after <:+ w.log → e.seq < w.queue.submitted ∧
    (.lost ∉ after → ∀ f ∈ w.queue.entries, f.seq = e.seq →
      (∃ busy deadline, w.active = some (.motion e.seq busy deadline)) ∨ .gaveUp e.seq ∈ after)
  log : Throughout Note.Fresh w.log

namespace Watch.Sparing

variable {w w' : Watch R}

theorem succeeds (h : w.Sparing) {q : Queue R} (numbered : q.Numbered)
    (hq : w.queue.Succeeds q) : Sparing { w with queue := q } where
  numbered := numbered
  active a ha := (h.active a ha).succeeds hq
  stalled n hn := (h.stalled n hn).succeeds hq
  gaveUp n hn := by
    obtain ⟨given, all⟩ := h.gaveUp n hn
    refine ⟨given.trans_le hq.submitted, hq.forall_mem all fun f le same => ?_⟩
    exact absurd (same ▸ le) (not_le_of_gt given)
  submitted e m after part := by
    obtain ⟨given, all⟩ := h.submitted e m after part
    refine ⟨given.trans_le hq.submitted, fun kept => hq.forall_mem (all kept) fun f le same => ?_⟩
    exact absurd (same ▸ le) (not_le_of_gt given)
  log := h.log

theorem steers (h : w.Sparing) {q : Queue R} (hq : w.queue.Steers q) :
    Sparing { w with queue := q } :=
  h.succeeds (h.numbered.steers hq) hq.succeeds

theorem retires (h : w.Sparing) {q : Queue R} (hq : w.queue.Retires q) :
    Sparing { w with queue := q } :=
  h.succeeds (h.numbered.retires hq) hq.succeeds

/-- What is known of the entries that were submitted stays known after one more note. -/
theorem submitted_concat (h : w.Sparing) {n : Note R} {e : QueueEntry R} {m : Moment R}
    {after : List (Note R)} (part : .submitted e m :: after <:+ w.log ++ [n])
    (ne : .submitted e m ≠ n) : e.seq < w.queue.submitted ∧
      (.lost ∉ after → ∀ f ∈ w.queue.entries, f.seq = e.seq →
        (∃ busy deadline, w.active = some (.motion e.seq busy deadline)) ∨
          .gaveUp e.seq ∈ after) := by
  rcases cons_suffix_concat part with ⟨-, same⟩ | ⟨after, rfl, earlier⟩
  · exact absurd same ne
  · obtain ⟨given, all⟩ := h.submitted e m after earlier
    refine ⟨given, fun lost f hf same => ?_⟩
    rw [List.mem_append, not_or] at lost
    exact (all lost.1 f hf same).imp_right (List.mem_append_left _)

/-- One more note, which neither submits nor gives up an entry. -/
theorem note (h : w.Sparing) {n : Note R} (other : n.submitted? = none)
    (kept : ∀ seq, n ≠ .gaveUp seq) : (w.note n).Sparing where
  numbered := h.numbered
  active := h.active
  stalled := h.stalled
  gaveUp k hk := by
    rcases List.mem_append.mp hk with hk | hk
    · exact h.gaveUp k hk
    · exact absurd (List.mem_singleton.mp hk).symm (kept k)
  submitted e m after part := by
    refine h.submitted_concat part ?_
    rintro rfl
    cases other
  log := by
    refine h.log.concat ?_
    cases n with
    | submitted => cases other
    | _ => trivial

/-- The dispatcher may forget what is active when it is not queued any more, was given up or was lost
with the controller. -/
theorem forget (h : w.Sparing)
    (gone : ∀ e m after busy deadline, .submitted e m :: after <:+ w.log → .lost ∉ after →
      w.active = some (.motion e.seq busy deadline) →
      ∀ f ∈ w.queue.entries, f.seq = e.seq → .gaveUp e.seq ∈ after) :
    Sparing { w with active := none } where
  numbered := h.numbered
  active := nofun
  stalled := h.stalled
  gaveUp := h.gaveUp
  submitted e m after part := by
    obtain ⟨given, all⟩ := h.submitted e m after part
    refine ⟨given, fun lost f hf same => .inr ?_⟩
    rcases all lost f hf same with ⟨busy, deadline, active⟩ | gaveUp
    · exact gone e m after busy deadline part lost active f hf same
    · exact gaveUp
  log := h.log

/-- The entry in front is started. -/
theorem activate (h : w.Sparing) (idle : w.active = none) {a : Active}
    (leads : w.queue.Leads a.seq) : Sparing { w with active := some a } where
  numbered := h.numbered
  active b hb := Option.some.inj hb ▸ leads
  stalled := h.stalled
  gaveUp := h.gaveUp
  submitted e m after part := by
    obtain ⟨given, all⟩ := h.submitted e m after part
    refine ⟨given, fun lost f hf same => .inr ((all lost f hf same).resolve_left ?_)⟩
    rintro ⟨busy, deadline, active⟩
    exact nomatch idle.symm.trans active
  log := h.log

/-- An entry that can be started was not given up, and was not submitted since the controller was
last lost. -/
theorem fresh (h : w.Sparing) {e : QueueEntry R} (idle : w.Idle e) (m : Moment R) :
    Note.Fresh w.log (.submitted e m) := by
  have front := Queue.mem_of_front idle.front
  have kept : .gaveUp e.seq ∉ w.log := by
    intro given
    exact nomatch idle.stalled.symm.trans ((h.gaveUp _ given).2 e front rfl)
  refine ⟨kept, fun f m' after part same => ?_⟩
  by_contra lost
  rcases (h.submitted f m' after part).2 lost e front same.symm with
    ⟨busy, deadline, active⟩ | given
  · exact nomatch idle.active.symm.trans active
  · exact kept (same ▸ part.subset (List.mem_cons_of_mem _ given))

/-- The active entry is noted as submitted. -/
theorem submit (h : w.Sparing) {e : QueueEntry R} {m : Moment R} {busy : Bool} {deadline : Nat}
    (active : w.active = some (.motion e.seq busy deadline))
    (fresh : Note.Fresh w.log (.submitted e m)) : (w.note (.submitted e m)).Sparing where
  numbered := h.numbered
  active := h.active
  stalled := h.stalled
  gaveUp k hk := by
    rcases List.mem_append.mp hk with hk | hk
    · exact h.gaveUp k hk
    · exact nomatch List.mem_singleton.mp hk
  submitted f m' after part := by
    by_cases same : Note.submitted f m' = .submitted e m
    · obtain ⟨rfl, -⟩ := Note.submitted.inj same
      exact ⟨(h.active _ active).given, fun _ _ _ _ => .inl ⟨busy, deadline, active⟩⟩
    · exact h.submitted_concat part same
  log := h.log.concat fresh

/-- The entry in front is given up. -/
theorem giveUp (h : w.Sparing) {n : Nat} (stalled : w.stalled = none) (leads : w.queue.Leads n) :
    Sparing ({ w with stalled := some n }.note (.gaveUp n)) where
  numbered := h.numbered
  active := h.active
  stalled k hk := Option.some.inj hk ▸ leads
  gaveUp k hk := by
    rcases List.mem_append.mp hk with hk | hk
    · obtain ⟨given, all⟩ := h.gaveUp k hk
      exact ⟨given, fun f hf same => nomatch stalled.symm.trans (all f hf same)⟩
    · obtain rfl := Note.gaveUp.inj (List.mem_singleton.mp hk)
      exact ⟨leads.given, fun _ _ _ => rfl⟩
  submitted _ _ _ part := h.submitted_concat part nofun
  log := h.log.concat trivial

variable [Scalar R]

/-- The entry in front leaves the queue, if nothing else is active. -/
theorem retire (h : w.Sparing) {e : QueueEntry R} (now : Nat) (front : w.queue.front? = some e)
    (active : ∀ a, w.active = some a → a.seq = e.seq) : (w.retire e now).Sparing := by
  have noted := (h.retires (.complete w.queue e.seq)).note
    (n := .retired e (w.moment now)) rfl nofun
  refine noted.forget fun f m after busy deadline part lost was g hg same => ?_
  have lt := h.numbered.lt_of_mem_complete front hg
  have number : f.seq = e.seq := active _ was
  omega

/-- A turn submits no entry again without a loss. -/
theorem turn (h : w.Sparing) (turn : w.Turn w') : w'.Sparing := by
  cases turn with
  | polled ready => exact h.note rfl nofun
  | lost =>
    have noted := (h.retires (.setReady w.queue false)).note (n := .lost) rfl nofun
    refine noted.forget fun e m after busy deadline part lost _ _ _ _ => absurd ?_ lost
    rcases cons_suffix_concat part with ⟨-, same⟩ | ⟨after, rfl, -⟩
    · cases same
    · simp
  | setReady ready => exact h.retires (.setReady w.queue ready)
  | @forget a active missing =>
    refine h.forget fun e m after busy deadline part lost was f hf same => ?_
    obtain rfl := Option.some.inj (active.symm.trans was)
    have front := (h.active _ active).isFront h.numbered hf same
    exact absurd (front.symm.trans missing) nofun
  | @release n stalled missing =>
    refine ⟨h.numbered, h.active, nofun, fun k hk => ?_, h.submitted, h.log⟩
    obtain ⟨given, all⟩ := h.gaveUp k hk
    refine ⟨given, fun f hf same => ?_⟩
    obtain rfl := Option.some.inj (stalled.symm.trans (all f hf same))
    have front := (h.stalled _ stalled).isFront h.numbered hf same
    exact absurd (front.symm.trans missing) nofun
  | @busy n deadline busy active polled =>
    refine ⟨h.numbered, fun a ha => ?_, h.stalled, h.gaveUp, fun e m after part => ?_, h.log⟩
    · obtain rfl := Option.some.inj ha
      exact (h.active _ active : w.queue.Leads n)
    · obtain ⟨given, all⟩ := h.submitted e m after part
      refine ⟨given, fun lost f hf same => (all lost f hf same).imp_left ?_⟩
      rintro ⟨busy', deadline', was⟩
      cases active.symm.trans was
      exact ⟨true, deadline, rfl⟩
  | complete now active front polled =>
    exact h.retire now front fun a ha => by cases active.symm.trans ha; rfl
  | elapse active front due =>
    exact h.retire _ front fun a ha => by cases active.symm.trans ha; rfl
  | pass now idle pause =>
    exact h.retire now idle.front fun a ha => nomatch idle.active.symm.trans ha
  | giveUp active front stalled =>
    refine (h.giveUp stalled (h.numbered.leads front)).forget
      fun e m after busy deadline part lost was f hf same => ?_
    obtain ⟨number, -, -⟩ := Active.motion.inj (Option.some.inj (active.symm.trans was))
    rcases cons_suffix_concat part with ⟨-, same⟩ | ⟨after, rfl, -⟩
    · cases same
    · simp [number]
  | begin now idle dwell =>
    exact (h.activate (a := .dwell _ _) idle.active (h.numbered.leads idle.front)).note rfl nofun
  | submit now deadline idle motion =>
    have leads := h.numbered.leads idle.front
    exact (h.activate (a := .motion _ _ _) idle.active leads).submit rfl (h.fresh idle _)
  | @refuse e idle =>
    have noted := (h.retires (.setReady w.queue false)).note (n := .refused e) rfl nofun
    exact noted.forget fun _ _ _ _ _ _ _ was => nomatch idle.active.symm.trans was

end Watch.Sparing

/-- In a stretch without a loss, no entry is submitted twice. -/
theorem Throughout.nodup_submitted {log : List (Note R)} (h : Throughout Note.Fresh log)
    {stretch : List (Note R)} (part : stretch <:+: log) (kept : .lost ∉ stretch) :
    (stretch.filterMap Note.submitted?).Nodup := by
  induction stretch using List.reverseRecOn with
  | nil => exact .nil
  | append_singleton stretch n ih =>
    obtain ⟨before, after, rfl⟩ := part
    rw [List.mem_append, not_or] at kept
    have earlier := ih ⟨before, n :: after, by simp⟩ kept.1
    rw [List.filterMap_append]
    rcases was : n.submitted? with _ | seq
    · rwa [List.filterMap_cons_none was, List.filterMap_nil, List.append_nil]
    · obtain ⟨e, m, rfl, rfl⟩ := Note.submitted?_eq_some was
      rw [List.filterMap_cons_some was, List.filterMap_nil]
      refine List.nodup_append.mpr ⟨earlier, List.nodup_singleton _, fun a ha b hb same => ?_⟩
      obtain ⟨k, hk, was'⟩ := List.mem_filterMap.mp ha
      obtain ⟨f, m', rfl, rfl⟩ := Note.submitted?_eq_some was'
      obtain ⟨first, since, rfl⟩ := List.append_of_mem hk
      have fresh : Note.Fresh (before ++ (first ++ .submitted f m' :: since)) (.submitted e m) :=
        h _ _ ⟨after, by simp⟩
      have lost := fresh.2 f m' since ⟨before ++ first, by simp⟩
        (same.trans (List.mem_singleton.mp hb))
      exact kept.1 (List.mem_append_right _ (List.mem_cons_of_mem _ lost))

namespace Handover

variable {σ : Type} [Scalar R] [Adapter σ]

end Handover

/-! ## A lost controller -/

namespace Bench

/-- The controller is lost for one cycle while it carries a motion out. -/
def resubmission : List (Handover.Event Plc Whole) :=
  [.push none [.latch .back], .cycle 0 0, .world ⟨false, false⟩, .cycle 10 10, .world ⟨true, false⟩,
    .cycle 20 20]

end Bench

end Winding
