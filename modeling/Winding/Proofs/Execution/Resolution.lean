import Winding.Proofs.Execution.Operations

/-!
# Pins are found while a recipe is wound

A recipe is installed only if every pin that it positions on is in the table of its layer
(`Session.Resolves`). Nothing that is asked of the executor afterwards takes a pin away, so no step
of the session ever looks for one in vain (`Course.pins_resolve`).
-/

namespace Winding

variable {R : Type}

/-- Every pin that a line positions on has a location in a table. -/
def Gcode.Line.ResolvesIn (table : PinTable R) (l : Gcode.Line R) : Prop :=
  ∀ front back dx dy, .pin front back dx dy ∈ l.commands →
    (∀ n ∈ front, ∃ location, table.resolve (.front n) = .ok location) ∧
      ∀ n ∈ back, ∃ location, table.resolve (.back n) = .ok location

/-- Every pin that a line of a session positions on has a location in its table. -/
def Session.Resolves (s : Session R) : Prop := ∀ l ∈ s.lines, l.ResolvesIn s.table

/-- Whether a line is refused for want of a pin or of a table. -/
def PlanError.isLookup : PlanError R → Bool
  | .noRecipe | .calibration _ => true
  | _ => false

/-! ## What a recipe is checked for -/

namespace Recipe

theorem mem_insertPin {p q : Pin} {ps : List Pin} : q ∈ insertPin p ps ↔ q = p ∨ q ∈ ps := by
  induction ps with
  | nil => rw [insertPin, List.mem_singleton, or_iff_left List.not_mem_nil]
  | cons r rs ih =>
    rw [insertPin]
    split
    · next same =>
      subst same
      rw [List.mem_cons, ← or_assoc, or_self]
    · split
      · exact List.mem_cons
      · rw [List.mem_cons, ih, List.mem_cons, or_left_comm]

theorem mem_foldl_insertPin {q : Pin} {ps acc : List Pin} :
    q ∈ ps.foldl (fun ps p => insertPin p ps) acc ↔ q ∈ ps ∨ q ∈ acc := by
  induction ps generalizing acc with
  | nil => rw [List.foldl_nil, or_iff_right List.not_mem_nil]
  | cons p ps ih => rw [List.foldl_cons, ih, mem_insertPin, List.mem_cons, or_left_comm, or_assoc]

/-- The pins of a recipe are those of its lines. -/
theorem mem_pins {r : Recipe R} {p : Pin} : p ∈ r.pins ↔ ∃ l ∈ r.lines, p ∈ l.pins := by
  rw [pins, mem_foldl_insertPin, or_iff_left List.not_mem_nil, List.mem_flatMap]

end Recipe

theorem PinTable.exists_resolve {table : PinTable R} {p : Pin} (there : table.contains p = true) :
    ∃ location, table.resolve p = .ok location := by
  obtain ⟨location, found⟩ := Option.isSome_iff_exists.mp there
  exact ⟨location, by rw [resolve, found]⟩

/-- A line all of whose pins are in a table is found in it. -/
theorem Gcode.Line.resolvesIn_of_contains {table : PinTable R} {l : Gcode.Line R}
    (there : ∀ p ∈ l.pins, table.contains p = true) : l.ResolvesIn table := by
  intro front back dx dy hc
  have named (p : Pin) (hp : p ∈ (Command.pin front back dx dy : Command R).pins) :
      ∃ location, table.resolve p = .ok location :=
    PinTable.exists_resolve (there p (List.mem_flatMap.mpr ⟨_, hc, hp⟩))
  refine ⟨fun n hn => named _ (List.mem_append_left _ ?_),
    fun n hn => named _ (List.mem_append_right _ ?_)⟩
  · exact Option.mem_toList.mpr (Option.mem_map_of_mem _ hn)
  · exact Option.mem_toList.mpr (Option.mem_map_of_mem _ hn)

variable [Scalar R]

namespace Executor

variable {x x₀ : Executor R} {files : FileStore} {start : Nat}

theorem contains_of_qualify {layer : Layer R} {table : PinTable R} {recipe : Recipe R}
    (qualified : qualify layer table recipe start = .ok ()) :
    ∀ p ∈ recipe.pins, table.contains p = true := by
  unfold qualify at qualified
  split at qualified
  · cases qualified
  · split at qualified
    · cases qualified
    · next none => exact fun p hp => by simpa using List.find?_eq_none.mp none p hp

/-- A recipe that is installed is found in the table of its session. -/
theorem install_resolves {path : Option String} {recipe : Recipe R}
    (installed : x.install files path recipe start = (.ok (), x₀)) :
    ∃ s, x₀.session = some s ∧ s.Resolves := by
  unfold install at installed
  split at installed
  · cases installed
  · split at installed
    · cases installed
    · simp only at installed
      split at installed
      · cases installed
      · next table _ =>
        split at installed
        · cases installed
        · next qualified =>
          obtain ⟨-, rfl⟩ := Prod.mk.inj installed
          refine ⟨_, rfl, fun l hl => Gcode.Line.resolvesIn_of_contains fun p hp => ?_⟩
          exact contains_of_qualify qualified p (Recipe.mem_pins.mpr ⟨l, hl, hp⟩)

theorem load_resolves {path : String} (loaded : x.load files path start = (.ok (), x₀)) :
    ∃ s, x₀.session = some s ∧ s.Resolves := by
  unfold load at loaded
  split at loaded
  · cases loaded
  · split at loaded
    · cases loaded
    · exact install_resolves loaded

/-- A step that is refused for a plan is refused for that of a line of the session. -/
theorem exists_line_of_step {q : Queue R} {s : Session R} {e : PlanError R}
    (session : x.session = some s) (refused : (x.step q).1 = .error (.plan e)) :
    ∃ l ∈ s.lines, planLine x.context (some s.table) x.pose l = .error e := by
  have line (refused : (x.stepLine q s).1 = .error (.plan e)) :
      ∃ l ∈ s.lines, planLine x.context (some s.table) x.pose l = .error e := by
    unfold stepLine at refused
    split at refused
    · cases refused
    · next l found =>
      split at refused
      · cases refused
      · split at refused
        · next unplanned =>
          cases refused
          exact ⟨l, List.mem_of_getElem? found, unplanned⟩
        · unfold emit at refused
          split at refused
          · cases refused
          · split at refused
            · cases refused
            · cases refused
  unfold step at refused
  simp only [session, Option.isSome_some, if_true] at refused
  split at refused
  iterate 4 cases refused
  iterate 3 exact line refused

end Executor

/-! ## Planning -/

namespace Planning.Outline

variable {env : Envelope R} {table : PinTable R} {o : Outline R} {e : PlanError R}

/-- A location is missing only for want of a pin. -/
theorem pinLocation?_eq_ok {front back : Option Nat}
    (hf : ∀ n ∈ front, ∃ location, table.resolve (.front n) = .ok location)
    (hb : ∀ n ∈ back, ∃ location, table.resolve (.back n) = .ok location) :
    ∃ found, pinLocation? table front back = .ok found := by
  rcases front with _ | f
  · rcases back with _ | b
    · exact ⟨none, rfl⟩
    · obtain ⟨location, resolved⟩ := hb b rfl
      exact ⟨_, by rw [pinLocation?, resolved]; rfl⟩
  · obtain ⟨location, resolved⟩ := hf f rfl
    rcases back with _ | b
    · exact ⟨_, by rw [pinLocation?, resolved]; rfl⟩
    · obtain ⟨location', resolved'⟩ := hb b rfl
      exact ⟨_, by rw [pinLocation?, resolved, resolved']; rfl⟩

/-- A command is not refused for want of a pin if all its pins are found. -/
theorem isLookup_of_apply {c : Gcode.Command R}
    (resolves : ∀ front back dx dy, c = .pin front back dx dy →
      (∀ n ∈ front, ∃ location, table.resolve (.front n) = .ok location) ∧
        ∀ n ∈ back, ∃ location, table.resolve (.back n) = .ok location)
    (refused : o.apply env (some table) c = .error e) : e.isLookup = false := by
  cases apply_refusal refused with
  | bounds | seek | head => rfl
  | table front back dx dy | calibration front back dx dy =>
    obtain ⟨hf, hb⟩ := resolves front back dx dy rfl
    obtain ⟨found, located⟩ := pinLocation?_eq_ok hf hb
    rcases bind_eq_error refused with refused | ⟨o₁, -, refused⟩
    · obtain ⟨target, e⟩ := flushSeek_refusal refused
      cases e
    · unfold aimAtPin at refused
      simp only [located] at refused
      split at refused
      · next missing => cases missing
      · cases refused
      · cases refused

end Planning.Outline

/-- A line is not refused for want of a pin if all its pins are found. -/
theorem isLookup_of_planLine {context : PlanContext R} {table : PinTable R} {pose : Pose R}
    {line : Gcode.Line R} {e : PlanError R} (resolves : line.ResolvesIn table)
    (refused : planLine context (some table) pose line = .error e) : e.isLookup = false := by
  rcases planLine_eq_error refused with ⟨-, rfl⟩ | ⟨-, applied | ⟨target, rfl⟩⟩
  · rfl
  · obtain ⟨before, c, after, o, split, -, refused⟩ := foldlM_eq_error_iff.mp applied
    refine Planning.Outline.isLookup_of_apply (fun front back dx dy hc => ?_) refused
    exact resolves front back dx dy (by rw [split, hc]; exact List.mem_append_right _ (.head _))
  · rfl

/-! ## Sessions -/

namespace Course

variable {k k' : Course R}

/-- A recipe is loaded, and all its pins are found in the table of its session. -/
def Resolves (k : Course R) : Prop := ∃ s, k.executor.session = some s ∧ s.Resolves

namespace Resolves

omit [Scalar R] in
/-- Only the lines and the table of the session matter. -/
theorem congr (h : k.Resolves)
    (session : ∀ s ∈ k.executor.session, ∃ s', k'.executor.session = some s' ∧
      s'.lines = s.lines ∧ s'.table = s.table) : k'.Resolves := by
  obtain ⟨s, hs, resolves⟩ := h
  obtain ⟨s', hs', lines, table⟩ := session s hs
  refine ⟨s', hs', ?_⟩
  rw [Session.Resolves, lines, table]
  exact resolves

omit [Scalar R] in
theorem of_session (h : k.Resolves) (same : k'.executor.session = k.executor.session) :
    k'.Resolves :=
  h.congr fun s hs => ⟨s, same.trans hs, rfl, rfl⟩

theorem fault (h : k.Resolves) (unfinished : Option Nat) :
    (⟨k.executor.fault unfinished, k.queue⟩ : Course R).Resolves := by
  unfold Executor.fault
  split
  · next line _ =>
    refine h.congr fun s hs => ⟨{ s with cursor := min line s.cursor }, ?_, rfl, rfl⟩
    simp only [Executor.rewind, Executor.foldl_takeBack_session]
    rw [Option.mem_def.mp hs]
    rfl
  · exact h.of_session rfl

theorem after (h : k.Resolves) (m : Move) : (k.after m).Resolves := by
  rcases m.kinds with rfl | ⟨seq, rfl⟩ | rfl | quiet
  · rcases k.step_cases with ⟨s, plan, q', session, -, -, -, -, after⟩ | ⟨-, quiet, -⟩
    · rw [after]
      refine h.congr fun s' hs' => ⟨{ s with cursor := s.cursor + 1 }, rfl, ?_⟩
      obtain rfl := Option.some.inj (session.symm.trans hs')
      exact ⟨rfl, rfl⟩
    · exact h.of_session quiet.session
  · exact h.of_session rfl
  · exact (h.fault _).of_session rfl
  · exact h.of_session (k.after_quiet quiet).session

theorem install (h : k.Resolves) (files : FileStore) (path : Option String) (recipe : Recipe R)
    (start : Nat) :
    (⟨(k.executor.install files path recipe start).2, k.queue⟩ : Course R).Resolves := by
  rcases installed : k.executor.install files path recipe start with ⟨⟨e⟩ | ⟨⟨⟩⟩, x⟩
  · obtain ⟨library, rfl⟩ := Executor.install_eq_error installed
    exact h.of_session rfl
  · exact Executor.install_resolves installed

theorem load (h : k.Resolves) (files : FileStore) (path : String) (start : Nat) :
    (⟨(k.executor.load files path start).2, k.queue⟩ : Course R).Resolves := by
  unfold Executor.load
  split
  · exact h
  · split
    · exact h
    · exact h.install files _ _ start

theorem manual (h : k.Resolves) (m : ManualMove R) :
    (k.adopt (m.request k.executor k.queue)).Resolves := by
  rcases moved : m.request k.executor k.queue with e | ⟨p, x, q⟩
  · exact h
  · obtain ⟨pose, -, rfl, -⟩ := ManualMove.request_eq_ok moved
    exact h.of_session rfl

/-- Whatever is asked but to unload the recipe. -/
theorem perform (h : k.Resolves) {op : Operation R} (kept : op ≠ .unload) :
    (k.perform op).Resolves := by
  cases op with
  | move m => exact h.after m
  | load files path start => exact h.load files path start
  | install files text start =>
    simp only [Course.perform]
    split
    · exact h.install files none _ start
    · exact h
  | unload => exact absurd rfl kept
  | fault unfinished => exact h.fault unfinished
  | clear => exact h.of_session rfl
  | drain queueEmpty =>
    simp only [Course.perform, Executor.drain]
    split
    · exact h.of_session rfl
    · exact h
  | setLine line =>
    simp only [Course.perform, Executor.setLine, Executor.unlessRunning]
    split
    · exact h
    · split
      · exact h
      · next s session =>
        split
        · exact h
        · refine h.congr fun s' hs' => ⟨{ s with cursor := line }, rfl, ?_⟩
          obtain rfl := Option.some.inj (session.symm.trans hs')
          exact ⟨rfl, rfl⟩
  | syncPosition position =>
    simp only [Course.perform, Executor.syncPosition]
    split
    · exact h
    · exact h.of_session rfl
  | jog target velocity => exact h.manual (.jog target velocity)
  | moveHead side => exact h.manual (.head side)
  | moveLatch side => exact h.manual (.latch side)
  | seekPin pin => exact h.manual (.visit pin)

theorem performAll (h : k.Resolves) {ops : List (Operation R)} (kept : .unload ∉ ops) :
    (k.performAll ops).Resolves := by
  induction ops generalizing k with
  | nil => exact h
  | cons op ops ih =>
    obtain ⟨first, more⟩ := not_or.mp (List.mem_cons.not.mp kept)
    exact ih (h.perform (Ne.symm first)) more

/-- No step is refused for want of a pin or of a recipe. -/
theorem isLookup_of_step (h : k.Resolves) {q : Queue R} {e : PlanError R}
    (refused : (k.executor.step q).1 = .error (.plan e)) : e.isLookup = false := by
  obtain ⟨s, session, resolves⟩ := h
  obtain ⟨l, hl, refused⟩ := Executor.exists_line_of_step session refused
  exact isLookup_of_planLine (resolves l hl) refused

end Resolves

/-- Once a recipe is loaded, whatever is asked of the executor but to unload it, and whatever its
queue is: every pin that a positioning of the session names has a location in its table, and no step
is refused for want of a pin or of a recipe. -/
theorem pins_resolve {x x₀ : Executor R} {files : FileStore} {start : Nat}
    (loaded : (∃ path, x.load files path start = (.ok (), x₀)) ∨
      ∃ path recipe, x.install files path recipe start = (.ok (), x₀))
    (q : Queue R) {ops : List (Operation R)} (kept : .unload ∉ ops) :
    let x' := (performAll ⟨x₀, q⟩ ops).executor
    (∃ s, x'.session = some s ∧ s.Resolves) ∧
      ∀ q', (x'.step q').1 ≠ .error (.plan .noRecipe) ∧
        ∀ e, (x'.step q').1 ≠ .error (.plan (.calibration e)) := by
  intro x'
  have begins : (⟨x₀, q⟩ : Course R).Resolves := by
    rcases loaded with ⟨path, loaded⟩ | ⟨path, recipe, installed⟩
    · exact Executor.load_resolves loaded
    · exact Executor.install_resolves installed
  have resolves := begins.performAll kept
  refine ⟨resolves, fun q' => ⟨fun refused => ?_, fun e refused => ?_⟩⟩
  · cases resolves.isLookup_of_step refused
  · cases resolves.isLookup_of_step refused

end Course

namespace Bench

/-- A table with a pin on each face. -/
def pinTable : PinTable Whole :=
  ⟨"X", ⟨0⟩, ⟨0⟩, [(.front 1, ⟨⟨3⟩, ⟨4⟩, ⟨0⟩⟩), (.back 1, ⟨⟨5⟩, ⟨12⟩, ⟨0⟩⟩)]⟩

/-- A line to the midpoint of both pins, and one to the back pin. -/
def pinRecipe : Recipe Whole where
  layer := "X"
  lines := [⟨1, none, [.pin (some 1) (some 1) ⟨0⟩ ⟨0⟩], 1⟩,
    ⟨2, none, [.pin none (some 1) ⟨0⟩ ⟨0⟩], 2⟩]
  hash := ""

/-- The machine as built, with this table. -/
def calibrated : Executor Whole := { executor with library := ⟨[], [("X", pinTable)]⟩ }

/-- The executor with the recipe. -/
def pinned : Executor Whole := (calibrated.install (.empty []) none pinRecipe 0).2

/-- Both lines are queued and a fault goes back to the first, then a jog and the line are asked
for. -/
def pinOperations : List (Operation Whole) :=
  [.move (.setReady true), .move .step, .move .step, .move .fault, .move .arm, .setLine 1,
    .jog ⟨⟨1⟩, ⟨1⟩, ⟨0⟩⟩ none]

theorem pinned_resolves :
    calibrated.install (.empty []) none pinRecipe 0 = (.ok (), pinned) ∧ .unload ∉ pinOperations ∧
      let x' := (Course.performAll ⟨pinned, .empty 8⟩ pinOperations).executor
      (∃ s, x'.session = some s ∧ s.Resolves) ∧
        ∀ q', (x'.step q').1 ≠ .error (.plan .noRecipe) ∧
          ∀ e, (x'.step q').1 ≠ .error (.plan (.calibration e)) := by
  have installed : calibrated.install (.empty []) none pinRecipe 0 = (.ok (), pinned) := rfl
  have kept : .unload ∉ pinOperations := by simp [pinOperations]
  exact ⟨installed, kept, Course.pins_resolve (.inr ⟨none, pinRecipe, installed⟩) _ kept⟩

end Bench

end Winding
