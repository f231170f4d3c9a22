import Winding.Proofs.Execution.Coherence
import Winding.Proofs.Machine.Filing

/-!
# What commands do

A command that is carried out asks for something, loads a recipe, or changes nothing but the journal
(`Machine.Handled`). No command moves anything by itself.
-/

namespace Winding

variable {R : Type} [Scalar R]

/-! ## Loading -/

namespace Executor

variable {x x' : Executor R} {files : FileStore}

theorem load_eq_ok {path : String} {start : Nat} (h : x.load files path start = (.ok (), x')) :
    ∃ library s, s.start = start ∧ s.cursor = start ∧ start ≤ s.lines.length ∧
      x' = { x with library := library }.begin s := by
  unfold load at h
  split at h
  · cases h
  · split at h
    · cases h
    · obtain ⟨library, s, start, cursor, -, le, e⟩ := install_eq_ok h
      exact ⟨library, s, start, cursor, le, e⟩

/-- A recipe that cannot be installed leaves the session as it was. -/
theorem install_eq_error {path : Option String} {recipe : Recipe R} {start : Nat}
    {e : ExecutorError R} (h : x.install files path recipe start = (.error e, x')) :
    ∃ library, x' = { x with library := library } := by
  unfold install at h
  split at h
  · cases h
    exact ⟨x.library, rfl⟩
  · split at h
    · cases h
      exact ⟨x.library, rfl⟩
    · rcases x.library.get files recipe.layer with ⟨found, library⟩
      simp only at h
      split at h
      · cases h
        exact ⟨_, rfl⟩
      · split at h
        · cases h
          exact ⟨_, rfl⟩
        · cases h

theorem load_eq_error {path : String} {start : Nat} {e : ExecutorError R}
    (h : x.load files path start = (.error e, x')) :
    ∃ library, x' = { x with library := library } := by
  unfold load at h
  split at h
  · cases h
    exact ⟨x.library, rfl⟩
  · split at h
    · cases h
      exact ⟨x.library, rfl⟩
    · exact install_eq_error h

end Executor

/-! ## Commands -/

namespace Machine

open Operator

/-- The session that a command loads. -/
def loads? (m : Machine R) : Command R → Option (Session R)
  | .load recipe line =>
    if m.mode ≠ .stop then none
    else
      match m.executor.load m.files (m.directory.recipePath recipe) (line.getD 0) with
      | (.ok (), x) => x.session
      | (.error _, _) => none
  | _ => none

/-- Whether a command asks for motion outside winding. -/
def asksMotion : Command R → Bool
  | .jog _ _ | .head _ | .latch _ | .calibrate _ => true
  | _ => false

/-- Whether a command asks for motion outside winding, and is answered with `ok`. -/
def accepts (m : Machine R) (c : Command R) : Bool :=
  asksMotion c && match (m.handle c).1 with
    | .ok (.line text) => text = "ok"
    | _ => false

/-- The machine with a session, and its recipe as the one in progress. -/
def adopting (m : Machine R) (x : Executor R) (path : String) (line : Nat) : Machine R :=
  { m with executor := x }.withRecord fun r => r.withRecipe path line

/-- What a command can do. -/
inductive Handled (m : Machine R) : Command R → Machine R → Prop
  /-- The command is refused, or only asks for the status. -/
  | keeps {c : Command R} (none : m.loads? c = none) (refused : m.accepts c = false) :
      Handled m c m
  | stops : Handled m .stop { m with stopRequested := true, startRequested := false }
  | starts {x : Executor R} (shutdown : m.shutdownRequested = false) (mode : m.mode = .stop)
      (session : m.executor.session.isSome) (armed : m.executor.arm = .ok x) :
      Handled m .start
        { m with executor := x, stopRequested := false, startRequested := true }
  | asks {c : Command R} (request : ManualRequest R) (none : m.loads? c = none)
      (accepted : m.accepts c) (visit : ∀ pin, c ≠ .calibrate pin)
      (shutdown : m.shutdownRequested = false) (mode : m.mode = .stop ∨ m.mode = .manual) :
      Handled m c { m with pendingManual := m.pendingManual ++ [request] }
  | calibrates {s : Session R} (pin : Pin) (accepted : m.accepts (.calibrate pin))
      (mode : m.mode = .stop) (session : m.executor.session = some s) (known : s.table.contains pin) :
      Handled m (.calibrate pin) { m with pendingCalibration := some pin }
  | shuts : Handled m .shutdown
      { m with shutdownRequested := true, stopRequested := true, startRequested := false }
  /-- A recipe is refused. -/
  | fails {c : Command R} {m' : Machine R} (library : CalibrationLibrary R)
      (none : m.loads? c = none) (refused : m.accepts c = false)
      (noted : Noted { m with executor := { m.executor with library := library } } m') :
      Handled m c m'
  /-- A recipe is loaded, and is the one in progress. -/
  | loads {c : Command R} {m' : Machine R} {s : Session R} (library : CalibrationLibrary R)
      (path : String) (mode : m.mode = .stop) (loaded : m.loads? c = some s)
      (start : s.start = s.cursor) (cursor : s.cursor ≤ s.lines.length)
      (noted : (m.adopting ({ m.executor with library := library }.begin s) path s.start).Noted m') :
      Handled m c m'

variable {m m' : Machine R}

theorem refusal_ne_ok (reason : String) : refusal reason ≠ "ok" := by
  intro same
  have chars := congrArg String.toList same
  rw [refusal, String.toList_append] at chars
  cases chars

theorem accepts_eq {c : Command R} {text : String}
    (handled : m.handle c = replied (text, m')) :
    m.accepts c = (asksMotion c && decide (text = "ok")) := by
  rw [accepts, handled]
  rfl

/-- A command is refused. -/
theorem refused_handled {c : Command R} {reason : String} (none : m.loads? c = none)
    (handled : m.handle c = replied (refusal reason, m)) : m.Handled c m := by
  refine .keeps none ?_
  rw [accepts_eq handled, decide_eq_false (refusal_ne_ok reason), Bool.and_false]

theorem start_handled (m : Machine R) : m.Handled .start m.start.2 := by
  unfold start
  split
  · exact .keeps rfl rfl
  · next shutdown =>
    split
    · exact .keeps rfl rfl
    · next mode =>
      split
      · exact .keeps rfl rfl
      · next session =>
        split
        · exact .keeps rfl rfl
        · split
          · exact .keeps rfl rfl
          · next armed =>
            exact .starts (eq_false_of_ne_true shutdown) (Decidable.not_not.mp mode)
              (Option.isSome_iff_ne_none.mpr (by simpa using session)) armed

theorem ask_handled {c : Command R} (none : m.loads? c = none) (request : ManualRequest R)
    (motion : asksMotion c) (visit : ∀ pin, c ≠ .calibrate pin)
    (handled : m.handle c = replied (m.ask request)) : m.Handled c (m.ask request).2 := by
  unfold ask at handled ⊢
  split at handled
  · next busy =>
    rw [if_pos busy]
    exact refused_handled none handled
  · next mode =>
    rw [if_neg mode]
    split at handled
    · next shutdown =>
      rw [if_pos shutdown]
      exact refused_handled none handled
    · next shutdown =>
      rw [if_neg shutdown]
      refine .asks request none ?_ visit (eq_false_of_ne_true shutdown) ?_
      · rw [accepts_eq handled, motion]
        rfl
      · rwa [not_and_or, Decidable.not_not, Decidable.not_not] at mode

theorem jog_handled (target : Location R) (velocity : Option R) :
    m.Handled (.jog target velocity) (m.jog target velocity).2 := by
  have handled : m.handle (.jog target velocity) = replied (m.jog target velocity) := rfl
  unfold jog at handled ⊢
  split at handled
  · next outside =>
    rw [if_pos outside]
    exact refused_handled rfl handled
  · next inside =>
    rw [if_neg inside]
    split at handled
    · exact refused_handled rfl handled
    · exact ask_handled rfl _ rfl nofun handled

theorem calibrate_handled (pin : Pin) : m.Handled (.calibrate pin) (m.calibrate pin).2 := by
  have handled : m.handle (.calibrate pin) = replied (m.calibrate pin) := rfl
  unfold calibrate at handled ⊢
  split at handled
  · next busy =>
    rw [if_pos busy]
    exact refused_handled rfl handled
  · next mode =>
    rw [if_neg mode]
    split at handled
    · exact refused_handled rfl handled
    · next s session =>
      split at handled
      · next known =>
        rw [if_pos known]
        refine .calibrates pin ?_ (Decidable.not_not.mp mode) session known
        rw [accepts_eq handled]
        rfl
      · next unknown =>
        rw [if_neg unknown]
        exact refused_handled rfl handled

/-- A recipe that was loaded is adopted. -/
theorem load_eq_adopting {recipe : String} {line : Nat} {x : Executor R} {s : Session R}
    (mode : m.mode = .stop)
    (loaded : m.executor.load m.files (m.directory.recipePath recipe) line = (.ok (), x))
    (session : x.session = some s) :
    m.load recipe line =
      (m.adopting x (m.directory.recipePath recipe) line).save.andThen fun _ m' =>
        (.ok ("ok " ++ s.layer ++ " " ++ toString s.lines.length ++ " lines"),
          m'.note "machine" "load" ("recipe " ++ m.directory.recipePath recipe ++ " loaded")
            [("layer", s.layer), ("line", toString line)]) := by
  rw [load, if_neg (not_not.mpr mode)]
  simp only [loaded, adopt, session]
  rfl

theorem load_handled {recipe : String} {line : Option Nat} {text : String}
    (h : m.load recipe (line.getD 0) = (.ok text, m')) : m.Handled (.load recipe line) m' := by
  by_cases mode : m.mode = .stop
  · rcases hl : m.executor.load m.files (m.directory.recipePath recipe) (line.getD 0) with
      ⟨e | ⟨⟩, x⟩
    · rw [load, if_neg (not_not.mpr mode)] at h
      simp only [hl] at h
      cases h
      obtain ⟨library, rfl⟩ := Executor.load_eq_error hl
      exact .fails library (by simp [loads?, hl]) rfl (note_noted ..)
    · obtain ⟨library, s, start, cursor, le, rfl⟩ := Executor.load_eq_ok hl
      rw [load_eq_adopting mode hl rfl] at h
      obtain ⟨_, m₁, saved, h⟩ := Outcome.andThen_eq_ok h
      cases h
      refine .loads library (m.directory.recipePath recipe) mode ?_
        (start.trans cursor.symm) (cursor ▸ le) ((start ▸ save_eq_ok saved).trans (note_noted ..))
      simp only [loads?, if_neg (not_not.mpr mode), hl]
      rfl
  · rw [load, if_pos mode] at h
    cases h
    exact .keeps (by simp [loads?, mode]) rfl

/-- A command does one of these things. -/
theorem handle_eq_ok {c : Command R} {reply : Reply R} (h : m.handle c = (.ok reply, m')) :
    m.Handled c m' := by
  cases c with
  | start =>
    cases h
    exact m.start_handled
  | stop =>
    cases h
    exact .stops
  | jog target velocity =>
    cases h
    exact jog_handled target velocity
  | head side =>
    cases h
    exact ask_handled rfl _ rfl nofun rfl
  | latch side =>
    cases h
    exact ask_handled rfl _ rfl nofun rfl
  | load recipe line =>
    obtain ⟨text, m₁, loaded, h⟩ := Outcome.andThen_eq_ok h
    cases h
    exact load_handled loaded
  | status =>
    cases h
    exact .keeps rfl rfl
  | calibrate pin =>
    cases h
    exact calibrate_handled pin
  | shutdown =>
    cases h
    exact .shuts

/-- No command changes the mode, or the base of the wound length. -/
theorem handled_mode {c : Command R} (h : m.Handled c m') :
    m'.mode = m.mode ∧ m'.woundBase = m.woundBase := by
  cases h with
  | keeps | stops | starts | asks | calibrates | shuts => exact ⟨rfl, rfl⟩
  | fails library none refused noted =>
    obtain ⟨records, files, rfl, -⟩ := noted
    exact ⟨rfl, rfl⟩
  | loads library path mode loaded start cursor noted =>
    obtain ⟨records, files, rfl, -⟩ := noted
    exact ⟨rfl, rfl⟩

end Machine

end Winding
