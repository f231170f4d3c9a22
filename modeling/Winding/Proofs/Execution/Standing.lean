import Winding.Proofs.Execution.Operations

/-!
# The standing of an executor

Whatever is asked of an executor, with whatever queues, its cursor, its state and its lines in
flight keep fitting each other (`Executor.Standing`): a state that goes on with a recipe has one, and
a line to go on with, and lines in flight are lines before the cursor, in order. One lemma says so
of every operation (`Executor.Standing.perform`), and induction of all that can be reached
(`Executor.Reached.standing`).
-/

namespace Winding

variable {R : Type} [Scalar R]

/-- What a state says of the session. -/
def ExecutorState.Fits (session : Option (Session R)) : ExecutorState → Prop
  | .idle | .faulted => True
  | .ready | .stopping => session.isSome = true
  | .emitting | .blocked => ∃ s ∈ session, s.cursor < s.lines.length
  | .done => ∃ s ∈ session, s.cursor = s.lines.length

omit [Scalar R] in
/-- Only where nothing goes on there may be no session. -/
theorem ExecutorState.Fits.isSome {session : Option (Session R)} {state : ExecutorState}
    (fits : state.Fits session) (idle : state ≠ .idle) (faulted : state ≠ .faulted) :
    session.isSome = true := by
  cases state with
  | idle => exact absurd rfl idle
  | faulted => exact absurd rfl faulted
  | ready | stopping => exact fits
  | emitting | blocked | done =>
    obtain ⟨s, session, -⟩ := fits
    exact Option.isSome_of_mem session

namespace Executor

/-- The executors that operations lead to, each with any queue: what happens to a queue in between
does not matter. A recipe may also be installed without its text. -/
inductive Reached : Executor R → Prop
  | make (context : PlanContext R) (layers : List (Layer R)) (library : CalibrationLibrary R) :
      Reached (.make context layers library)
  | perform {x : Executor R} (before : Reached x) (q : Queue R) (op : Operation R) :
      Reached ((⟨x, q⟩ : Course R).perform op).executor
  | install {x : Executor R} (before : Reached x) (files : FileStore) (path : Option String)
      (recipe : Recipe R) (start : Nat) : Reached (x.install files path recipe start).2

/-- The cursor, the state and the lines in flight fit each other. -/
structure Standing (x : Executor R) : Prop where
  cursor : ∀ s ∈ x.session, s.cursor ≤ s.lines.length
  state : x.state.Fits x.session
  inFlight : x.inFlight.Pairwise fun l l' => l.index < l'.index
  below : ∀ l ∈ x.inFlight, ∃ s ∈ x.session, l.index < s.cursor

variable {x x' : Executor R} {s : Session R}

omit [Scalar R] in
/-- The first line that has not run to its end is not past the cursor. -/
theorem Standing.committedLine?_le (h : x.Standing) :
    ∀ s ∈ x.session, ∃ line, x.committedLine? = some line ∧ line ≤ s.cursor := by
  intro s session
  refine ⟨_, by rw [committedLine?, Option.mem_def.mp session, Option.map_some], ?_⟩
  cases first : x.inFlight.head? with
  | none => exact Nat.le_refl s.cursor
  | some l =>
    obtain ⟨s', session', lt⟩ := h.below l (List.mem_of_head? first)
    obtain rfl := Option.mem_unique session session'
    exact lt.le

namespace Standing

omit [Scalar R] in
/-- A new state has to fit; the oldest lines in flight may be forgotten. -/
theorem change (h : x.Standing) (session : x'.session = x.session)
    (inFlight : x'.inFlight <:+ x.inFlight) (state : x'.state.Fits x.session) : x'.Standing where
  cursor := by
    rw [session]
    exact h.cursor
  state := by
    rw [session]
    exact state
  inFlight := h.inFlight.sublist inFlight.sublist
  below l hl := by
    rw [session]
    exact h.below l (inFlight.subset hl)

omit [Scalar R] in
/-- Without lines in flight it is the cursor and the state that have to fit. -/
theorem of_rest (cursor : ∀ s ∈ x.session, s.cursor ≤ s.lines.length)
    (state : x.state.Fits x.session) (inFlight : x.inFlight = []) : x.Standing where
  cursor := cursor
  state := state
  inFlight := by
    rw [inFlight]
    exact List.Pairwise.nil
  below := by
    rw [inFlight]
    nofun

/-! ## Steps -/

/-- Where a step is blocked, there is a line under the cursor. -/
theorem cursor_of_blocked {q : Queue R} (session : x.session = some s)
    (blocked : (x.step q).2.1.state = .blocked) : s.cursor < s.lines.length := by
  unfold Executor.step at blocked
  cases state : x.state with
  | idle | stopping | done | faulted => simp [state] at blocked
  | ready | emitting | blocked =>
    simp only [state, session, stepLine] at blocked
    rcases found : s.lines[s.cursor]? with _ | line
    · simp [found] at blocked
    · exact (List.getElem?_eq_some_iff.mp found).1

omit [Scalar R] in
theorem before (h : x.Standing) (session : x.session = some s) :
    ∀ l ∈ x.inFlight, l.index < s.cursor := by
  intro l hl
  obtain ⟨s', session', lt⟩ := h.below l hl
  obtain rfl := Option.mem_unique session session'
  exact lt

theorem inFlight_advance (x : Executor R) (s : Session R) (plan : LinePlan R) :
    (x.advance s plan).inFlight =
      if plan.primitives.isEmpty then x.inFlight
      else x.inFlight ++ [⟨s.cursor, plan.wire, x.pose⟩] := rfl

/-- The line that was queued is in flight behind the others, and the cursor is past it. -/
theorem advance (h : x.Standing) (session : x.session = some s)
    (cursor : s.cursor < s.lines.length) (plan : LinePlan R) : (x.advance s plan).Standing where
  cursor := by
    rintro _ ⟨⟩
    exact cursor
  state := by
    unfold Executor.advance
    split
    · exact rfl
    · split
      · next last => exact ⟨_, rfl, Nat.le_antisymm cursor last⟩
      · next more => exact ⟨_, rfl, Nat.lt_of_not_le more⟩
  inFlight := by
    have before : ∀ l ∈ x.inFlight, l.index < s.cursor := h.before session
    rw [inFlight_advance]
    split
    · exact h.inFlight
    · refine List.pairwise_append.mpr ⟨h.inFlight, List.pairwise_singleton _ _, ?_⟩
      rintro l hl _ (_ | ⟨_, ⟨⟩⟩)
      exact before l hl
  below := by
    have past : ∀ l ∈ x.inFlight, l.index < s.cursor + 1 :=
      fun l hl => Nat.lt_succ_of_lt (h.before session l hl)
    rw [inFlight_advance]
    intro l hl
    refine ⟨_, rfl, ?_⟩
    split at hl
    · exact past l hl
    · rcases List.mem_append.mp hl with old | new
      · exact past l old
      · obtain rfl := List.mem_singleton.mp new
        exact Nat.lt_succ_self s.cursor

theorem step (h : x.Standing) (q : Queue R) : (x.step q).2.1.Standing := by
  have stepped := x.step_stepped q
  have line (s : Session R) := cursor_of_blocked (x := x) (s := s) (q := q)
  generalize x.step q = r at stepped line ⊢
  cases stepped with
  | queued session planning cursor planned pushed => exact h.advance session cursor _
  | finished last =>
    refine h.change rfl List.suffix_rfl ?_
    rcases last with done | ⟨s, session, -, past⟩
    · have state := h.state
      rwa [done] at state
    · exact ⟨s, session, Nat.le_antisymm (h.cursor s session) past⟩
  | blocked reason session planning =>
    obtain ⟨s, session⟩ := Option.isSome_iff_exists.mp session
    exact h.change rfl List.suffix_rfl ⟨s, session, line s session rfl⟩
  | failed e => exact h.change rfl List.suffix_rfl trivial
  | stopping | refused => exact h

/-! ## Faults -/

theorem fault (h : x.Standing) (unfinished : Option Nat) : (x.fault unfinished).Standing := by
  refine of_rest ?_ trivial rfl
  unfold Executor.fault
  split
  · next line _ =>
    simp only [rewind, foldl_takeBack_session]
    intro s' session'
    obtain ⟨s, session, rfl⟩ := Option.map_eq_some_iff.mp session'
    exact Nat.le_trans (Nat.min_le_right line s.cursor) (h.cursor s session)
  · exact h.cursor

omit [Scalar R] in
theorem clearFault (h : x.Standing) : (x.clearFault.toOption.getD x).Standing := by
  unfold Executor.clearFault
  split
  · refine h.change rfl List.suffix_rfl ?_
    show ExecutorState.Fits x.session (if x.session.isSome then _ else _)
    split
    · next some => exact some
    · trivial
  · exact h

/-! ## Stopping and resuming -/

omit [Scalar R] in
theorem requestStop (h : x.Standing) : x.requestStop.Standing := by
  unfold Executor.requestStop
  split
  -- an idle, faulted or stopping executor stays as it is
  case h_5 | h_6 | h_7 => exact h
  all_goals
    next current =>
    exact h.change rfl List.suffix_rfl (h.state.isSome (by simp [current]) (by simp [current]))

omit [Scalar R] in
theorem drain (h : x.Standing) (queueEmpty : Bool) : (x.drain queueEmpty).2.Standing := by
  unfold Executor.drain
  split
  · refine of_rest h.cursor ?_ rfl
    show ExecutorState.Fits x.session (if x.session.any _ then _ else _)
    split
    · next finished =>
      obtain ⟨s, session, past⟩ := (Option.any_eq_true _ _).mp finished
      exact ⟨s, session, Nat.le_antisymm (h.cursor s session) (of_decide_eq_true past)⟩
    · trivial
  · exact h

omit [Scalar R] in
theorem arm (h : x.Standing) : (x.arm.toOption.getD x).Standing := by
  unfold Executor.arm
  split
  case h_4 =>
    split
    · next some => exact h.change rfl List.suffix_rfl some
    · exact h
  case h_5 => exact h.clearFault
  all_goals exact h

/-! ## Sessions -/

theorem begin (x : Executor R) (within : s.cursor ≤ s.lines.length) : (x.begin s).Standing := by
  refine of_rest ?_ rfl rfl
  rintro _ ⟨⟩
  exact within

theorem install (h : x.Standing) (files : FileStore) (path : Option String) (recipe : Recipe R)
    (start : Nat) : (x.install files path recipe start).2.Standing := by
  rcases installed : x.install files path recipe start with ⟨e | ⟨⟨⟩⟩, x'⟩
  · obtain ⟨library, rfl⟩ := install_eq_error installed
    exact h.change rfl List.suffix_rfl h.state
  · obtain ⟨library, s, -, cursor, -, le, rfl⟩ := install_eq_ok installed
    exact begin _ (cursor.trans_le le)

theorem load (h : x.Standing) (files : FileStore) (path : String) (start : Nat) :
    (x.load files path start).2.Standing := by
  rcases loaded : x.load files path start with ⟨e | ⟨⟨⟩⟩, x'⟩
  · obtain ⟨library, rfl⟩ := load_eq_error loaded
    exact h.change rfl List.suffix_rfl h.state
  · obtain ⟨library, s, -, cursor, le, rfl⟩ := load_eq_ok loaded
    exact begin _ (cursor.trans_le le)

omit [Scalar R] in
theorem unload (h : x.Standing) : (x.unload.toOption.getD x).Standing := by
  unfold Executor.unload unlessRunning
  split
  · exact h
  · exact of_rest nofun trivial rfl

omit [Scalar R] in
theorem setLine (h : x.Standing) (line : Nat) : ((x.setLine line).toOption.getD x).Standing := by
  unfold Executor.setLine unlessRunning
  split
  · exact h
  · next still =>
    split
    · exact h
    · next s session =>
      split
      · exact h
      · next within =>
        refine of_rest ?_ ?_ rfl
        · rintro _ ⟨⟩
          exact Nat.le_of_not_lt within
        · show ExecutorState.Fits (some { s with cursor := line }) (if _ then _ else _)
          split
          · exact rfl
          · next stays =>
            cases current : x.state with
            | idle | faulted => trivial
            | ready => exact rfl
            | done =>
              have past : s.lines.length ≤ line := Nat.le_of_not_lt fun lt => stays ⟨current, lt⟩
              exact ⟨_, rfl, Nat.le_antisymm (Nat.le_of_not_lt within) past⟩
            | emitting | blocked | stopping => simp [current, ExecutorState.isRunning] at still

/-! ## Runs -/

theorem after (h : x.Standing) (q : Queue R) (m : Move) :
    ((⟨x, q⟩ : Course R).after m).executor.Standing := by
  cases m with
  | step => exact h.step q
  | complete | setReady => exact h
  | settle => exact h.change rfl (List.dropWhile_suffix _) h.state
  | fault => exact h.fault _
  | requestStop => exact h.requestStop
  | drain => exact h.drain _
  | arm => exact h.arm
  | clearFault => exact h.clearFault
  | spend ms => exact h.change rfl List.suffix_rfl h.state

/-- Manual motion changes the pose and the queue. -/
theorem manual (h : x.Standing) (q : Queue R) {m : ManualMove R} :
    ((⟨x, q⟩ : Course R).adopt (m.request x q)).executor.Standing := by
  rcases moved : m.request x q with e | ⟨p, x', q'⟩
  · exact h
  · obtain ⟨pose, -, rfl, -⟩ := ManualMove.request_eq_ok moved
    exact h.change rfl List.suffix_rfl h.state

theorem perform (h : x.Standing) (q : Queue R) (op : Operation R) :
    ((⟨x, q⟩ : Course R).perform op).executor.Standing := by
  cases op with
  | move m => exact h.after q m
  | load files path start => exact h.load files path start
  | install files text start =>
    simp only [Course.perform]
    split
    · exact h.install files none _ start
    · exact h
  | unload => exact h.unload
  | fault unfinished => exact h.fault unfinished
  | clear => exact h
  | drain queueEmpty => exact h.drain queueEmpty
  | setLine line => exact h.setLine line
  | syncPosition position =>
    obtain ⟨session, inFlight, state⟩ := x.syncPosition_fields position
    exact h.change session (inFlight ▸ List.suffix_rfl) (state ▸ h.state)
  | jog target velocity => exact h.manual q (m := .jog target velocity)
  | moveHead side => exact h.manual q (m := .head side)
  | moveLatch side => exact h.manual q (m := .latch side)
  | seekPin pin => exact h.manual q (m := .visit pin)

end Standing

/-- Whatever was asked of an executor, its cursor, its state and its lines in flight fit each other,
and the first line that has not run to its end is not past the cursor. -/
theorem Reached.stands (reached : x.Reached) : x.Standing ∧
    ∀ s ∈ x.session, ∃ line, x.committedLine? = some line ∧ line ≤ s.cursor := by
  have standing : x.Standing := by
    induction reached with
    | make context layers library => exact .of_rest nofun trivial rfl
    | perform _ q op ih => exact ih.perform q op
    | install _ files path recipe start ih => exact ih.install files path recipe start
  exact ⟨standing, standing.committedLine?_le⟩

end Executor

/-- A recipe with a line in flight: it is not done yet, and the cursor is past it. -/
theorem Bench.stepped_stands : ∃ x : Executor Whole, x.Reached ∧ x.Standing ∧
    (∀ s ∈ x.session, ∃ line, x.committedLine? = some line ∧ line ≤ s.cursor) ∧
    x.state = .emitting ∧ x.committedLine? = some 0 ∧ x.line? = some 1 := by
  have made : executor.Reached := .make _ _ _
  have stepped := (made.install (.empty []) none recipe 0).perform
    ((Queue.empty 8).setReady true) (.move .step)
  exact ⟨_, stepped, stepped.stands.1, stepped.stands.2, by decide, by decide, by decide⟩

end Winding
