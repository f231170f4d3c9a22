import Winding.Machine.Startup
import Winding.Proofs.Machine.Handling
import Winding.Proofs.Machine.Periods
import Winding.Proofs.Planning.Contained

/-!
# Operations of an executor

All that can be asked of an executor and its motion queue, from any position and with any files
(`Operation`). Whatever is asked, in whatever order, the queue holds only motion that stays within
the machine (`Course.Contained.performAll`).
-/

namespace Winding

variable {R : Type} [Scalar R]

/-- What can be asked of an executor and its queue. -/
inductive Operation (R : Type) where
  | move (m : Move)
  /-- A recipe file is loaded, positioned at a line. -/
  | load (files : FileStore) (path : String) (start : Nat)
  /-- A recipe text is loaded; the calibration is read from files. -/
  | install (files : FileStore) (text : String) (start : Nat)
  | unload
  /-- The executor goes back to a line, or to the oldest in flight; the queue is left alone. -/
  | fault (unfinished : Option Nat)
  | clear
  /-- A stop ends if the queue is said to be empty. -/
  | drain (queueEmpty : Bool)
  | setLine (line : Nat)
  | syncPosition (position : Location R)
  | jog (target : Location R) (velocity : Option R)
  | moveHead (side : Side)
  | moveLatch (side : Side)
  | seekPin (pin : Pin)

namespace Course

/-- The course with manual motion; if it is refused, nothing changes. -/
def adopt (k : Course R) :
    Except (ExecutorError R) (Primitive R × Executor R × Queue R) → Course R
  | .ok (_, x, q) => ⟨x, q⟩
  | .error _ => k

/-- The course after an operation. One that is refused changes nothing, except that a calibration
that was read for it is kept. -/
def perform (k : Course R) : Operation R → Course R
  | .move m => k.after m
  | .load files path start => { k with executor := (k.executor.load files path start).2 }
  | .install files text start =>
    match Recipe.ofText text with
    | .ok recipe => { k with executor := (k.executor.install files none recipe start).2 }
    | .error _ => k
  | .unload => { k with executor := k.executor.unload.toOption.getD k.executor }
  | .fault unfinished => { k with executor := k.executor.fault unfinished }
  | .clear => { k with queue := k.queue.clear.2 }
  | .drain queueEmpty => { k with executor := (k.executor.drain queueEmpty).2 }
  | .setLine line => { k with executor := (k.executor.setLine line).toOption.getD k.executor }
  | .syncPosition position => { k with executor := k.executor.syncPosition position }
  | .jog target velocity => k.adopt (k.executor.jog k.queue target velocity)
  | .moveHead side => k.adopt (k.executor.moveHead k.queue side)
  | .moveLatch side => k.adopt (k.executor.moveLatch k.queue side)
  | .seekPin pin => k.adopt (k.executor.seekPin k.queue pin)

/-- The course after operations. -/
def performAll (k : Course R) (ops : List (Operation R)) : Course R := ops.foldl perform k

/-- The queue holds motion within the machine, and the recipe has feeds with which the rest of it
will be. -/
structure Contained (k : Course R) (context : PlanContext R) : Prop where
  planning : k.executor.context = context
  feeds : ∀ s ∈ k.executor.session, ∀ l ∈ s.lines, l.HasFeed
  queued : ∀ e ∈ k.queue.entries, e.primitive.Contained context.envelope.bounds context.rates

namespace Contained

variable {k k' : Course R} {context : PlanContext R}

/-- Only the recipe and the queue matter. -/
theorem congr (h : k.Contained context) (same : k'.executor.context = k.executor.context)
    (recipe : ∀ s' ∈ k'.executor.session, ∃ s ∈ k.executor.session, s'.lines = s.lines)
    (kept : ∀ e ∈ k'.queue.entries, e ∈ k.queue.entries) : k'.Contained context where
  planning := same.trans h.planning
  feeds s' session' := by
    obtain ⟨s, session, lines⟩ := recipe s' session'
    rw [lines]
    exact h.feeds s session
  queued e he := h.queued e (kept e he)

/-- Whatever keeps the recipe as it is can change the executor. -/
theorem of_executor (h : k.Contained context) {x : Executor R}
    (same : x.context = k.executor.context)
    (recipe : ∀ s' ∈ x.session, ∃ s ∈ k.executor.session, s'.lines = s.lines) :
    (⟨x, k.queue⟩ : Course R).Contained context :=
  h.congr same recipe fun _ he => he

theorem quiet (h : k.Contained context) (quiet : k.Quiet k') : k'.Contained context := by
  refine h.congr quiet.context (fun s hs => ⟨s, ?_, rfl⟩) fun e he => ?_
  · rwa [quiet.session] at hs
  · rwa [quiet.entries] at he

/-! ## Steps -/

omit [Scalar R] in
theorem primitive_of_mem_number {seq : Nat} {line : Option Nat} {ps : List (Primitive R)}
    {e : QueueEntry R} (h : e ∈ Queue.number seq line ps) : e.primitive ∈ ps := by
  induction ps generalizing seq with
  | nil => cases h
  | cons p ps ih =>
    rcases List.mem_cons.mp h with rfl | later
    · exact List.mem_cons_self
    · exact List.mem_cons_of_mem p (ih later)

/-- A batch of contained motion can be queued. -/
theorem pushAll (h : k.Contained context) {line : Option Nat} {ps : List (Primitive R)}
    {q : Queue R} (pushed : k.queue.pushAll line ps = .ok q)
    (contained : ∀ a ∈ ps, a.Contained context.envelope.bounds context.rates) :
    (⟨k.executor, q⟩ : Course R).Contained context where
  planning := h.planning
  feeds := h.feeds
  queued e he := by
    rw [Queue.pushAll_eq_ok pushed] at he
    rcases List.mem_append.mp he with old | new
    · exact h.queued e old
    · exact contained _ (primitive_of_mem_number new)

/-- The plan for a line of the recipe stays within the machine. -/
theorem plan [OrderedScalar R] (h : k.Contained context) (usable : context.rates.Usable)
    {s : Session R} (session : k.executor.session = some s) {i : Nat} {plan : LinePlan R}
    (planned : s.planAt? k.executor.context k.executor.pose i = some plan) :
    ∀ a ∈ plan.primitives, a.Contained context.envelope.bounds context.rates := by
  rw [h.planning] at planned
  obtain ⟨line, found, planned⟩ := Option.bind_eq_some_iff.mp planned
  have accepted := h.feeds s session line (List.mem_of_getElem? found)
  rcases ok : planLine context (some s.table) k.executor.pose line with e | plan'
  · rw [ok] at planned
    cases planned
  · rw [ok] at planned
    cases planned
    exact planLine_contained (Rates.limits_within usable (Rates.positive_of_accepted accepted)) ok

theorem step [OrderedScalar R] (h : k.Contained context) (usable : context.rates.Usable) :
    (k.after .step).Contained context := by
  rcases k.step_cases with ⟨s, plan, q', session, -, planned, pushed, -, after⟩ | ⟨-, quiet, -⟩
  · rw [after]
    refine (h.pushAll pushed (h.plan usable session planned)).of_executor rfl ?_
    rintro s' ⟨⟩
    exact ⟨s, session, rfl⟩
  · exact h.quiet quiet

/-! ## Faults -/

omit [Scalar R] in
theorem rewound {s : Option (Session R)} {i : Nat} :
    ∀ s' ∈ s.map fun s => { s with cursor := min i s.cursor }, ∃ s₀ ∈ s, s'.lines = s₀.lines := by
  rintro s' hs
  obtain ⟨s₀, h₀, rfl⟩ := Option.map_eq_some_iff.mp hs
  exact ⟨s₀, h₀, rfl⟩

theorem foldl_takeBack_context (ls : List (InFlight R)) (x : Executor R) :
    (ls.foldl Executor.takeBack x).context = x.context := by
  induction ls generalizing x with
  | nil => rfl
  | cons l ls ih => exact ih _

theorem fault (h : k.Contained context) (unfinished : Option Nat) :
    (⟨k.executor.fault unfinished, k.queue⟩ : Course R).Contained context := by
  unfold Executor.fault
  split
  · next line _ =>
    refine h.of_executor (foldl_takeBack_context _ k.executor) ?_
    simp only [Executor.rewind, Executor.foldl_takeBack_session]
    exact rewound
  · exact h.of_executor rfl fun s hs => ⟨s, hs, rfl⟩

theorem clear (h : k.Contained context) :
    (⟨k.executor, k.queue.clear.2⟩ : Course R).Contained context :=
  h.congr rfl (fun s hs => ⟨s, hs, rfl⟩) nofun

/-! ## Moves -/

theorem after [OrderedScalar R] (h : k.Contained context) (usable : context.rates.Usable)
    (m : Move) : (k.after m).Contained context := by
  rcases m.kinds with rfl | ⟨seq, rfl⟩ | rfl | quiet
  · exact h.step usable
  · refine h.congr rfl (fun s hs => ⟨s, hs, rfl⟩) fun e he => ?_
    obtain ⟨n, -, entries, -⟩ := Queue.Retires.complete k.queue seq
    exact List.mem_of_mem_drop (entries ▸ he)
  · exact (h.fault _).clear
  · exact h.quiet (k.after_quiet quiet)

/-! ## Loading -/

theorem install (h : k.Contained context) {recipe : Recipe R} (feeds : recipe.HasFeeds)
    (files : FileStore) (path : Option String) (start : Nat) :
    (⟨(k.executor.install files path recipe start).2, k.queue⟩ : Course R).Contained context := by
  rcases installed : k.executor.install files path recipe start with ⟨⟨e⟩ | ⟨⟨⟩⟩, x⟩
  · obtain ⟨library, rfl⟩ := Executor.install_eq_error installed
    exact h.of_executor rfl fun s hs => ⟨s, hs, rfl⟩
  · obtain ⟨library, s, -, -, lines, -, rfl⟩ := Executor.install_eq_ok installed
    refine ⟨h.planning, ?_, h.queued⟩
    rintro s' ⟨⟩
    rw [lines]
    exact feeds

theorem load (h : k.Contained context) (files : FileStore) (path : String) (start : Nat) :
    (⟨(k.executor.load files path start).2, k.queue⟩ : Course R).Contained context := by
  unfold Executor.load
  split
  · exact h
  · split
    · exact h
    · next recipe loaded => exact h.install (Recipe.load_hasFeeds loaded) files (some path) start

/-! ## Manual motion -/

theorem adopt (h : k.Contained context)
    {r : Except (ExecutorError R) (Primitive R × Executor R × Queue R)}
    (taken : ∀ p x q, r = .ok (p, x, q) → (⟨x, q⟩ : Course R).Contained context) :
    (k.adopt r).Contained context := by
  rcases r with e | ⟨p, x, q⟩
  · exact h
  · exact taken p x q rfl

/-- A manual move is checked like a line: its target, and the limits that its velocity gives. -/
theorem manual [OrderedScalar R] (h : k.Contained context) (usable : context.rates.Usable)
    {m : ManualMove R} {p : Primitive R} {x : Executor R} {q : Queue R}
    (moved : m.request k.executor k.queue = .ok (p, x, q)) :
    (⟨x, q⟩ : Course R).Contained context := by
  obtain ⟨pose, planned, rfl, pushed⟩ := ManualMove.request_eq_ok moved
  have contained : p.Contained context.envelope.bounds context.rates := by
    rw [← h.planning] at usable ⊢
    cases planned with
    | head | latch => trivial
    | jog target velocity accepted travelled =>
      have within : (k.executor.context.rates.limits velocity).Within k.executor.context.rates := by
        refine Rates.limits_within usable fun v hv _ => ?_
        rw [Option.mem_def.mp hv] at accepted
        exact Rates.positive_of_usable accepted
      exact ⟨Pose.travel_holds travelled, within⟩
    | visit pin session resolved travelled =>
      exact ⟨Pose.travel_holds travelled, Rates.limits_within usable nofun⟩
  refine (h.pushAll pushed fun b hb => ?_).of_executor rfl fun s hs => ⟨s, hs, rfl⟩
  rwa [List.mem_singleton.mp hb]

/-! ## Runs -/

theorem perform [OrderedScalar R] (h : k.Contained context) (usable : context.rates.Usable)
    (op : Operation R) : (k.perform op).Contained context := by
  have same (s : Session R) (hs : s ∈ k.executor.session) :
      ∃ s₀ ∈ k.executor.session, s.lines = s₀.lines := ⟨s, hs, rfl⟩
  cases op with
  | move m => exact h.after usable m
  | load files path start => exact h.load files path start
  | install files text start =>
    simp only [Course.perform]
    split
    · next recipe read => exact h.install (Recipe.ofText_hasFeeds read) files none start
    · exact h
  | unload =>
    simp only [Course.perform, Executor.unload, Executor.unlessRunning]
    split
    · exact h
    · exact h.of_executor rfl nofun
  | fault unfinished => exact h.fault unfinished
  | clear => exact h.clear
  | drain queueEmpty =>
    simp only [Course.perform, Executor.drain]
    split
    · exact h.of_executor rfl same
    · exact h
  | setLine line =>
    simp only [Course.perform, Executor.setLine, Executor.unlessRunning]
    split
    · exact h
    · split
      · exact h
      · next s session =>
        split
        · exact h
        · refine h.of_executor rfl ?_
          rintro s' ⟨⟩
          exact ⟨s, session, rfl⟩
  | syncPosition position =>
    simp only [Course.perform, Executor.syncPosition]
    split
    · exact h
    · exact h.of_executor rfl same
  | jog target velocity =>
    exact h.adopt fun p x q moved => h.manual usable (m := .jog target velocity) moved
  | moveHead side => exact h.adopt fun p x q moved => h.manual usable (m := .head side) moved
  | moveLatch side => exact h.adopt fun p x q moved => h.manual usable (m := .latch side) moved
  | seekPin pin => exact h.adopt fun p x q moved => h.manual usable (m := .visit pin) moved

theorem performAll [OrderedScalar R] (h : k.Contained context) (usable : context.rates.Usable)
    (ops : List (Operation R)) : (k.performAll ops).Contained context := by
  induction ops generalizing k with
  | nil => exact h
  | cons op ops ih => exact ih (h.perform usable op)

/-! ## Refusals -/

/-- No line is refused for its limits. -/
theorem step_refusal [OrderedScalar R] (h : k.Contained context) (usable : context.rates.Usable)
    {e : PlanError R} (refused : (k.executor.step k.queue).1 = .error (.plan e)) :
    e.isInvalidLimits = false := by
  cases e with
  | noRecipe | calibration | outOfBounds | seek | notInTransferArea => rfl
  | invalidLimits v =>
    obtain ⟨s, line, plans, refused⟩ := (Executor.step_eq_plan_error (e := .invalidLimits v) nofun).mp refused
    rw [h.planning] at refused
    have accepted := h.feeds s plans.session line (List.mem_of_getElem? plans.line)
    have within := Rates.limits_within usable (Rates.positive_of_accepted accepted)
    exact planLine_refusal within.isValid refused

end Contained

end Course

/-! ## Configured executors -/

/-- All parts of a valid configuration are accepted. -/
theorem Configuration.validate_eq_ok {c : Configuration R} (valid : c.validate = .ok ()) :
    c.rates.validate = .ok () ∧
      ∃ envelope layers, c.envelope = .ok envelope ∧ c.layerGeometries = .ok layers := by
  obtain ⟨⟨⟩, -, rest⟩ := bind_eq_ok valid
  obtain ⟨⟨⟩, rates, rest⟩ := bind_eq_ok rest
  obtain ⟨envelope, made, rest⟩ := bind_eq_ok rest
  obtain ⟨layers, laidOut, -⟩ := bind_eq_ok rest
  exact ⟨mapError_eq_ok rates, envelope, layers, mapError_eq_ok made, mapError_eq_ok laidOut⟩

/-- The executor of a valid configuration plans with its bounds, its depths and its rates. -/
theorem Configuration.executorOf_context {c : Configuration R} (valid : c.validate = .ok ())
    (d : DataDirectory) :
    ∃ layers, Machine.executorOf c d =
      .ok (.make ⟨⟨c.bounds, c.transfer, c.head⟩, c.rates⟩ layers
        (.ofPaths (c.calibrationPaths d))) := by
  obtain ⟨-, envelope, layers, made, laidOut⟩ := validate_eq_ok valid
  refine ⟨layers, ?_⟩
  unfold Machine.executorOf
  rw [made, laidOut, Envelope.make_eq_ok made]
  rfl

/-- The executor of a valid configuration plans with its bounds and with usable rates. -/
theorem Configuration.executorOf_eq_ok {c : Configuration R} (valid : c.validate = .ok ())
    (d : DataDirectory) :
    ∃ x : Executor R, Machine.executorOf c d = .ok x ∧ x.session = none ∧
      x.context.envelope.bounds = c.bounds ∧ x.context.rates = c.rates ∧ c.rates.Usable := by
  obtain ⟨layers, made⟩ := executorOf_context valid d
  exact ⟨_, made, rfl, rfl, rfl, Rates.usable_of_validate (validate_eq_ok valid).1⟩

/-- With a valid configuration, whatever is asked of the executor, with whatever calibration: the
targets of all motion that was queued are in bounds and its limits are safe, and no step is refused
for limits. -/
theorem Course.operations_contained [OrderedScalar R] {c : Configuration R}
    (valid : c.validate = .ok ()) (d : DataDirectory) :
    ∃ x, Machine.executorOf c d = .ok x ∧
      ∀ (library : CalibrationLibrary R) (capacity : Nat) (ops : List (Operation R)),
        let start : Course R := ⟨{ x with library := library }, .empty capacity⟩
        let k := start.performAll ops
        (∀ e ∈ k.queue.entries, e.primitive.Contained c.bounds c.rates) ∧
          ∀ v, (k.executor.step k.queue).1 ≠ .error (.plan (.invalidLimits v)) := by
  obtain ⟨x, made, none, bounds, rates, usable⟩ := Configuration.executorOf_eq_ok valid d
  refine ⟨x, made, fun library capacity ops => ?_⟩
  intro start k
  have feeds : ∀ s ∈ x.session, ∀ l ∈ s.lines, l.HasFeed := by
    rw [none]
    exact nofun
  have begins : start.Contained x.context := ⟨rfl, feeds, nofun⟩
  rw [← rates] at usable
  have contained := begins.performAll usable ops
  refine ⟨?_, fun v refused => ?_⟩
  · rw [← bounds, ← rates]
    exact contained.queued
  · cases contained.step_refusal usable refused

theorem Configuration.standard_valid :
    (Configuration.standard : Configuration Float).validate = .ok () := by
  have accepted : (Configuration.standard : Configuration Float).validate.isOk = true := by
    decide +kernel
  rcases validated : (Configuration.standard : Configuration Float).validate with e | ⟨⟨⟩⟩
  · rw [validated] at accepted
    cases accepted
  · rfl

/-- With the defaults, over the numbers of the machine: a position that is no number is taken over,
and a jog is tried at a velocity that is none. -/
theorem Course.standard_contained :
    ∃ x : Executor Float, Machine.executorOf .standard ⟨"data"⟩ = .ok x ∧
      let nothing : Float := 0 / 0
      let start : Course Float := ⟨{ x with library := ⟨[], []⟩ }, .empty 8⟩
      let k := start.performAll [.syncPosition ⟨nothing, nothing, nothing⟩,
        .jog ⟨100, 200, 300⟩ (some nothing), .jog ⟨100, 200, 300⟩ none]
      (∀ e ∈ k.queue.entries, e.primitive.Contained Bounds.standard Rates.standard) ∧
        ∀ v, (k.executor.step k.queue).1 ≠ .error (.plan (.invalidLimits v)) := by
  obtain ⟨x, made, contained⟩ :=
    operations_contained Configuration.standard_valid ⟨"data"⟩
  exact ⟨x, made, contained _ _ _⟩

end Winding
