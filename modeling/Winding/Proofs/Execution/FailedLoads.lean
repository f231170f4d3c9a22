import Winding.Proofs.Execution.Operations

/-!
# Loads that fail

A load that fails leaves the executor as it was, but for its library: a table that was read before
the recipe turned out not to fit is kept for its layer (`Executor.LoadFails.kept`). Two executors
that differ in this alone answer every later load alike, and come to the same state, as long as the
file of that layer reads as the table that was kept (`Executor.failed_load_traceless`). When the
file is put right in between, the kept table is found in its place, and the load is refused again
(`Bench.corrected_load_refused`).
-/

namespace Winding

variable {R : Type}

/-! ## Libraries that differ in one table -/

namespace CalibrationLibrary

variable {lib lib' : CalibrationLibrary R} {layer : String} {table : PinTable R}

/-- The library with a table that was read for a layer, if one was. -/
def keeping (lib : CalibrationLibrary R) : Option (String × PinTable R) → CalibrationLibrary R
  | none => lib
  | some (layer, table) => lib.keep layer table

theorem lookup_keep (lib : CalibrationLibrary R) (layer : String) (table : PinTable R) :
    (lib.keep layer table).tables.lookup layer = some table := by
  rw [keep, List.lookup_cons, beq_self_eq_true]

theorem lookup_filter_ne {tables : List (String × PinTable R)} {layer name : String}
    (other : name ≠ layer) :
    (tables.filter fun t => t.1 ≠ layer).lookup name = tables.lookup name := by
  induction tables with
  | nil => rfl
  | cons t tables ih =>
    obtain ⟨key, value⟩ := t
    by_cases same : key = layer
    · subst same
      have miss : (name == key) = false := beq_false_of_ne other
      rw [List.filter_cons_of_neg (by simp), List.lookup_cons, miss]
      exact ih
    · rw [List.filter_cons_of_pos (by simpa using same), List.lookup_cons, List.lookup_cons, ih]

theorem lookup_keep_ne (lib : CalibrationLibrary R) (table : PinTable R) {layer name : String}
    (other : name ≠ layer) :
    (lib.keep layer table).tables.lookup name = lib.tables.lookup name := by
  have miss : (name == layer) = false := beq_false_of_ne other
  rw [keep, List.lookup_cons, miss]
  exact lookup_filter_ne other

/-- What a library does when it is asked for a table: it has none and stays as it is, it keeps one
already, or it reads one and keeps it. -/
theorem get_cases [Scalar R] (lib : CalibrationLibrary R) (files : FileStore) (layer : String) :
    (∃ e, lib.get files layer = (.error e, lib)) ∨
      (∃ table, lib.tables.lookup layer = some table ∧ lib.get files layer = (.ok table, lib)) ∨
      ∃ table, lib.tables.lookup layer = none ∧
        lib.get files layer = (.ok table, lib.keep layer table) := by
  unfold get
  split
  · next table known => exact .inr (.inl ⟨table, known, rfl⟩)
  · next unknown =>
    simp only
    split
    · exact .inl ⟨_, rfl⟩
    · split
      · exact .inl ⟨_, rfl⟩
      · next table _ =>
        split
        · exact .inl ⟨_, rfl⟩
        · exact .inr (.inr ⟨table, unknown, rfl⟩)

/-- The second library keeps a table for a layer for which the first one keeps it or none, and all
else is the same. -/
structure Recalls (lib lib' : CalibrationLibrary R) (layer : String) (table : PinTable R) :
    Prop where
  paths : lib'.paths = lib.paths
  others : ∀ name, name ≠ layer → lib'.tables.lookup name = lib.tables.lookup name
  kept : lib'.tables.lookup layer = some table
  known : lib.tables.lookup layer = none ∨ lib.tables.lookup layer = some table

namespace Recalls

theorem keep (unknown : lib.tables.lookup layer = none) :
    lib.Recalls (lib.keep layer table) layer table where
  paths := rfl
  others _ other := lib.lookup_keep_ne table other
  kept := lib.lookup_keep layer table
  known := .inl unknown

/-- Both keep one more table. -/
theorem keep_other (h : lib.Recalls lib' layer table) {name : String} (other : name ≠ layer)
    (t : PinTable R) : (lib.keep name t).Recalls (lib'.keep name t) layer table where
  paths := h.paths
  others n hn := by
    by_cases same : n = name
    · rw [same, lookup_keep, lookup_keep]
    · rw [lookup_keep_ne _ _ same, lookup_keep_ne _ _ same, h.others n hn]
  kept := by rw [lookup_keep_ne _ _ other.symm, h.kept]
  known := by
    rw [lookup_keep_ne _ _ other.symm]
    exact h.known

/-- The first one has read the table too. -/
theorem keep_same (h : lib.Recalls lib' layer table) :
    (lib.keep layer table).Recalls lib' layer table where
  paths := h.paths
  others n hn := by rw [h.others n hn, lookup_keep_ne _ _ hn]
  kept := h.kept
  known := .inr (lib.lookup_keep layer table)

variable [Scalar R]

/-- Both give the same table and still differ in nothing else, as long as the first one finds the
table that the second one keeps. -/
theorem get (h : lib.Recalls lib' layer table) (files : FileStore) (name : String)
    (reads : name = layer → (lib.get files layer).1 = .ok table) :
    (lib'.get files name).1 = (lib.get files name).1 ∧
      (lib.get files name).2.Recalls (lib'.get files name).2 layer table := by
  by_cases same : name = layer
  · subst same
    have found : lib'.get files name = (.ok table, lib') := by rw [CalibrationLibrary.get, h.kept]
    rw [found, reads rfl]
    refine ⟨rfl, ?_⟩
    rcases lib.get_cases files name with ⟨e, missing⟩ | ⟨t, -, known⟩ | ⟨t, -, read⟩
    · rw [missing] at reads
      cases reads rfl
    · rw [known]
      exact h
    · have e := reads rfl
      rw [read] at e ⊢
      cases e
      exact h.keep_same
  · have lookup := h.others name same
    have path : lib'.pathOf name = lib.pathOf name := by rw [pathOf, pathOf, h.paths]
    unfold CalibrationLibrary.get
    rw [lookup, path]
    split
    · exact ⟨rfl, h⟩
    · simp only
      split
      · exact ⟨rfl, h⟩
      · split
        · exact ⟨rfl, h⟩
        · split
          · exact ⟨rfl, h⟩
          · exact ⟨rfl, h.keep_other same _⟩

end Recalls

end CalibrationLibrary

variable [Scalar R]

/-! ## What a failed load leaves -/

namespace Executor

variable {x x₁ : Executor R} {files : FileStore} {e : ExecutorError R}

/-- The executor with another library. -/
def withLibrary (x : Executor R) (library : CalibrationLibrary R) : Executor R :=
  { x with library := library }

/-- A recipe file or a recipe is loaded, and the load fails. -/
inductive LoadFails (x : Executor R) (files : FileStore) (e : ExecutorError R) :
    Executor R → Prop
  | load {path : String} {start : Nat} {x₁ : Executor R}
      (failed : x.load files path start = (.error e, x₁)) : LoadFails x files e x₁
  | install {path : Option String} {recipe : Recipe R} {start : Nat} {x₁ : Executor R}
      (failed : x.install files path recipe start = (.error e, x₁)) : LoadFails x files e x₁

/-- A table that a failed load left for a layer: none was kept before, it was read from the file of
the layer, and it does not fit the layer or the recipe, or the recipe does not have the line. -/
structure Leaves (x : Executor R) (files : FileStore) (e : ExecutorError R) (layer : String)
    (table : PinTable R) : Prop where
  unknown : x.library.tables.lookup layer = none
  read : x.library.get files layer = (.ok table, x.library.keep layer table)
  unqualified : ∃ l ∈ x.layers, ∃ (recipe : Recipe R) (start : Nat), recipe.layer = layer ∧
    qualify l table recipe start = .error e

/-- A failed load changes the library at most, by one table. -/
theorem LoadFails.kept (h : x.LoadFails files e x₁) :
    ∃ kept, x₁ = x.withLibrary (x.library.keeping kept) ∧
      ∀ layer table, kept = some (layer, table) → x.Leaves files e layer table := by
  have install {path : Option String} {recipe : Recipe R} {start : Nat}
      (failed : x.install files path recipe start = (.error e, x₁)) :
      ∃ kept, x₁ = x.withLibrary (x.library.keeping kept) ∧
        ∀ layer table, kept = some (layer, table) → x.Leaves files e layer table := by
    unfold Executor.install at failed
    split at failed
    · obtain ⟨-, rfl⟩ := Prod.mk.inj failed
      exact ⟨none, rfl, nofun⟩
    · split at failed
      · obtain ⟨-, rfl⟩ := Prod.mk.inj failed
        exact ⟨none, rfl, nofun⟩
      · next l found =>
        rcases x.library.get_cases files recipe.layer with
          ⟨_, got⟩ | ⟨t, -, got⟩ | ⟨t, unknown, got⟩
        · simp only [got] at failed
          obtain ⟨-, rfl⟩ := Prod.mk.inj failed
          exact ⟨none, rfl, nofun⟩
        · simp only [got] at failed
          split at failed
          · obtain ⟨-, rfl⟩ := Prod.mk.inj failed
            exact ⟨none, rfl, nofun⟩
          · cases failed
        · simp only [got] at failed
          split at failed
          · next unqualified =>
            obtain ⟨same, rfl⟩ := Prod.mk.inj failed
            cases same
            refine ⟨some (recipe.layer, t), rfl, ?_⟩
            rintro _ _ ⟨⟩
            exact ⟨unknown, got, l, List.mem_of_find?_eq_some found, recipe, start, rfl,
              unqualified⟩
          · cases failed
  cases h with
  | install failed => exact install failed
  | load failed =>
    unfold Executor.load at failed
    split at failed
    · obtain ⟨-, rfl⟩ := Prod.mk.inj failed
      exact ⟨none, rfl, nofun⟩
    · split at failed
      · obtain ⟨-, rfl⟩ := Prod.mk.inj failed
        exact ⟨none, rfl, nofun⟩
      · exact install failed

/-! ## Only loads look into the library -/

section Library

variable (x : Executor R) (library : CalibrationLibrary R) (q : Queue R)

theorem emit_withLibrary (s : Session R) (plan : LinePlan R) :
    (x.withLibrary library).emit q s plan =
      ((x.emit q s plan).1, (x.emit q s plan).2.1.withLibrary library, (x.emit q s plan).2.2) := by
  unfold emit
  split
  · rfl
  · split <;> rfl

theorem stepLine_withLibrary (s : Session R) :
    (x.withLibrary library).stepLine q s =
      ((x.stepLine q s).1, (x.stepLine q s).2.1.withLibrary library, (x.stepLine q s).2.2) := by
  unfold stepLine
  rcases s.lines[s.cursor]? with _ | line
  · rfl
  · obtain ⟨context, layers, old, session, pose, state, wire, ms, emitted, inFlight⟩ := x
    have queued := (⟨context, layers, old, session, pose, state, wire, ms, emitted, inFlight⟩ :
      Executor R).emit_withLibrary library q s
    simp only [withLibrary] at queued ⊢
    split
    · rfl
    · rcases planLine context (some s.table) pose line with e | plan
      · rfl
      · exact queued plan

theorem step_withLibrary :
    (x.withLibrary library).step q =
      ((x.step q).1, (x.step q).2.1.withLibrary library, (x.step q).2.2) := by
  have line := x.stepLine_withLibrary library q
  obtain ⟨context, layers, old, session, pose, state, wire, ms, emitted, inFlight⟩ := x
  cases state with
  | done | stopping | faulted | idle => rfl
  | ready | emitting | blocked =>
    rcases session with _ | s
    · rfl
    · exact line s

theorem foldl_takeBack_withLibrary (ls : List (InFlight R)) :
    ls.foldl takeBack (x.withLibrary library) = (ls.foldl takeBack x).withLibrary library := by
  induction ls generalizing x with
  | nil => rfl
  | cons l ls ih => exact ih (x.takeBack l)

theorem rewind_withLibrary (i : Nat) :
    (x.withLibrary library).rewind i = (x.rewind i).withLibrary library := by
  have taken := x.foldl_takeBack_withLibrary library
    (x.inFlight.reverse.takeWhile fun l => i ≤ l.index)
  unfold rewind
  rw [show (x.withLibrary library).inFlight = x.inFlight from rfl, taken]
  rfl

theorem fault_withLibrary (unfinished : Option Nat) :
    (x.withLibrary library).fault unfinished = (x.fault unfinished).withLibrary library := by
  unfold fault
  rw [show (x.withLibrary library).rewindLine? unfinished = x.rewindLine? unfinished from rfl]
  rcases x.rewindLine? unfinished with _ | i
  · rfl
  · simp only [rewind_withLibrary]
    rfl

omit [Scalar R] in
theorem drain_withLibrary (queueEmpty : Bool) :
    (x.withLibrary library).drain queueEmpty =
      ((x.drain queueEmpty).1, (x.drain queueEmpty).2.withLibrary library) := by
  unfold drain
  simp only [show (x.withLibrary library).state = x.state from rfl]
  split <;> rfl

omit [Scalar R] in
theorem requestStop_withLibrary :
    (x.withLibrary library).requestStop = x.requestStop.withLibrary library := by
  obtain ⟨context, layers, old, session, pose, state, wire, ms, emitted, inFlight⟩ := x
  cases state <;> rfl

omit [Scalar R] in
theorem clearFault_withLibrary :
    (x.withLibrary library).clearFault = x.clearFault.map (·.withLibrary library) := by
  unfold clearFault
  simp only [show (x.withLibrary library).state = x.state from rfl]
  split <;> rfl

omit [Scalar R] in
theorem arm_withLibrary :
    (x.withLibrary library).arm = x.arm.map (·.withLibrary library) := by
  have cleared := x.clearFault_withLibrary library
  obtain ⟨context, layers, old, session, pose, state, wire, ms, emitted, inFlight⟩ := x
  cases state with
  | idle => rcases session with _ | s <;> rfl
  | faulted => exact cleared
  | _ => rfl

omit [Scalar R] in
theorem unlessRunning_withLibrary {α : Type} {f : α → α} {r r' : Except (ExecutorError R) α}
    (same : r' = r.map f) :
    (x.withLibrary library).unlessRunning r' = (x.unlessRunning r).map f := by
  unfold unlessRunning
  simp only [show (x.withLibrary library).state = x.state from rfl]
  split
  · rfl
  · exact same

omit [Scalar R] in
theorem unload_withLibrary :
    (x.withLibrary library).unload = x.unload.map (·.withLibrary library) :=
  x.unlessRunning_withLibrary library rfl

omit [Scalar R] in
theorem setLine_withLibrary (line : Nat) :
    (x.withLibrary library).setLine line = (x.setLine line).map (·.withLibrary library) := by
  refine x.unlessRunning_withLibrary library ?_
  rw [show (x.withLibrary library).session = x.session from rfl]
  rcases x.session with _ | s
  · rfl
  · simp only
    split <;> rfl

omit [Scalar R] in
theorem syncPosition_withLibrary (position : Location R) :
    (x.withLibrary library).syncPosition position =
      (x.syncPosition position).withLibrary library := by
  unfold syncPosition
  simp only [show (x.withLibrary library).state = x.state from rfl]
  split <;> rfl

/-- A manual move with another library. -/
def manualWith (library : CalibrationLibrary R) (r : Primitive R × Executor R × Queue R) :
    Primitive R × Executor R × Queue R :=
  (r.1, r.2.1.withLibrary library, r.2.2)

omit [Scalar R] in
theorem queueManual_withLibrary (pose : Pose R) (p : Primitive R) :
    (x.withLibrary library).queueManual q pose p =
      (x.queueManual q pose p).map (manualWith library) := by
  unfold queueManual
  rcases q.push none p <;> rfl

theorem request_withLibrary (m : ManualMove R) :
    m.request (x.withLibrary library) q = (m.request x q).map (manualWith library) := by
  have queued := x.queueManual_withLibrary library q
  have travel (target : Location R) :
      (x.withLibrary library).manualTravel target = x.manualTravel target := rfl
  cases m with
  | jog target velocity =>
    refine x.unlessRunning_withLibrary library ?_
    rw [show (x.withLibrary library).context = x.context from rfl, travel]
    split
    · rfl
    · rcases x.manualTravel target with e | pose
      · rfl
      · exact queued _ _
  | head side =>
    refine x.unlessRunning_withLibrary library ?_
    rw [show (x.withLibrary library).context = x.context from rfl,
      show (x.withLibrary library).pose = x.pose from rfl]
    rcases x.pose.headChange x.context.envelope side with e | ⟨z, wire⟩
    · rfl
    · exact queued _ _
  | latch side => exact x.unlessRunning_withLibrary library (queued _ _)
  | visit pin =>
    refine x.unlessRunning_withLibrary library ?_
    rw [show (x.withLibrary library).session = x.session from rfl]
    rcases x.session with _ | s
    · rfl
    · show ((s.table.resolve pin).mapError _ >>= fun target =>
        (x.withLibrary library).manualTravel target >>= _) = _
      simp only [travel]
      rcases s.table.resolve pin with e | target
      · rfl
      · show (x.manualTravel target >>= _) = Except.map _ (x.manualTravel target >>= _)
        rcases x.manualTravel target with e | pose
        · rfl
        · exact queued _ _

end Library

/-! ## Later loads -/

/-- A load with another library answers the same, and keeps the difference of the libraries as it
is. -/
theorem install_recalls {library : CalibrationLibrary R} {layer : String} {table : PinTable R}
    (h : x.library.Recalls library layer table) (path : Option String) {recipe : Recipe R}
    (start : Nat) (reads : recipe.layer = layer → (x.library.get files layer).1 = .ok table) :
    ∃ library', (x.install files path recipe start).2.library.Recalls library' layer table ∧
      (x.withLibrary library).install files path recipe start =
        ((x.install files path recipe start).1,
          (x.install files path recipe start).2.withLibrary library') := by
  obtain ⟨answer, recalls⟩ := h.get files recipe.layer reads
  obtain ⟨context, layers, old, session, pose, state, wire, ms, emitted, inFlight⟩ := x
  simp only [install, withLibrary] at answer recalls ⊢
  by_cases running : state.isRunning = true
  · simp only [running, if_true]
    exact ⟨library, h, rfl⟩
  · simp only [running, Bool.false_eq_true, if_false]
    generalize List.find? _ layers = found
    rcases found with _ | l
    · exact ⟨library, h, rfl⟩
    · generalize library.get files recipe.layer = got' at answer recalls ⊢
      generalize old.get files recipe.layer = got at answer recalls ⊢
      obtain ⟨found', library'⟩ := got'
      obtain ⟨found, old'⟩ := got
      obtain rfl : found' = found := answer
      refine ⟨library', ?_⟩
      rcases found' with _ | t
      · exact ⟨recalls, rfl⟩
      · simp only
        rcases qualify l t recipe start with _ | ⟨⟩
        · exact ⟨recalls, rfl⟩
        · exact ⟨recalls, rfl⟩

/-- A load of a file that is read is one of the recipe in it. -/
theorem load_eq_install {path : String} {recipe : Recipe R}
    (read : Recipe.load files path = .ok recipe) (start : Nat) :
    x.load files path start = x.install files (some path) recipe start := by
  rw [load, read]
  unfold install
  split <;> rfl

end Executor

/-- What is loaded, with the files that the calibration is read from. -/
structure LoadRequest (R : Type) where
  files : FileStore
  path : Option String
  recipe : Recipe R
  start : Nat

/-- What an operation loads, if it loads a recipe that can be read. -/
def Operation.request? : Operation R → Option (LoadRequest R)
  | .load files path start =>
    (Recipe.load files path).toOption.map fun recipe => ⟨files, some path, recipe, start⟩
  | .install files text start =>
    (Recipe.ofText text).toOption.map fun recipe => ⟨files, none, recipe, start⟩
  | _ => none

namespace Course

variable {k : Course R} {op : Operation R} {library : CalibrationLibrary R} {layer : String}
  {table : PinTable R}

/-- The course with another library. -/
def withLibrary (k : Course R) (library : CalibrationLibrary R) : Course R :=
  ⟨k.executor.withLibrary library, k.queue⟩

/-- The answer to a load. -/
def answer? (k : Course R) : Operation R → Option (Except (ExecutorError R) Unit)
  | .load files path start => some (k.executor.load files path start).1
  | .install files text start => (Recipe.ofText text).toOption.map fun recipe =>
    (k.executor.install files none recipe start).1
  | _ => none

/-- The answers to all loads among operations. -/
def answers (k : Course R) : List (Operation R) → List (Except (ExecutorError R) Unit)
  | [] => []
  | op :: ops => (k.answer? op).toList ++ (k.perform op).answers ops

/-- If an operation loads a recipe of a layer, its library gives this table for the layer. -/
def Rereads (k : Course R) (layer : String) (table : PinTable R) (op : Operation R) : Prop :=
  ∀ r ∈ op.request?, r.recipe.layer = layer → (k.executor.library.get r.files layer).1 = .ok table

/-- Every load of a recipe of a layer is given this table. -/
def RereadsAll (k : Course R) (layer : String) (table : PinTable R) : List (Operation R) → Prop
  | [] => True
  | op :: ops => k.Rereads layer table op ∧ (k.perform op).RereadsAll layer table ops

theorem of_request {r : LoadRequest R} (h : op.request? = some r) :
    k.answer? op = some (k.executor.install r.files r.path r.recipe r.start).1 ∧
      k.perform op =
        ⟨(k.executor.install r.files r.path r.recipe r.start).2, k.queue⟩ := by
  cases op with
  | load files path start =>
    obtain ⟨recipe, read, rfl⟩ := Option.map_eq_some_iff.mp h
    have same := Executor.load_eq_install (x := k.executor) (eq_ok_of_toOption read) start
    rw [answer?, perform, same]
    exact ⟨rfl, rfl⟩
  | install files text start =>
    obtain ⟨recipe, read, rfl⟩ := Option.map_eq_some_iff.mp h
    rw [answer?, perform, eq_ok_of_toOption read]
    exact ⟨rfl, rfl⟩
  | _ => cases h

omit [Scalar R] in
/-- A manual move that is made with another library is adopted with it. -/
theorem adopt_withLibrary
    {r r' : Except (ExecutorError R) (Primitive R × Executor R × Queue R)}
    (same : r' = r.map (Executor.manualWith library)) :
    (k.withLibrary library).adopt r' = (k.adopt r).withLibrary library := by
  subst same
  rcases r <;> rfl

omit [Scalar R] in
/-- A change that can be refused makes the same of the executor with another library. -/
theorem toOption_getD_withLibrary {x : Executor R} {r r' : Except (ExecutorError R) (Executor R)}
    (same : r' = r.map (·.withLibrary library)) :
    r'.toOption.getD (x.withLibrary library) = (r.toOption.getD x).withLibrary library := by
  subst same
  rcases r <;> rfl

theorem after_withLibrary (k : Course R) (library : CalibrationLibrary R) (m : Move) :
    (k.withLibrary library).after m = (k.after m).withLibrary library := by
  cases m with
  | step =>
    exact congrArg (fun r => Course.mk r.2.1 r.2.2) (k.executor.step_withLibrary library k.queue)
  | complete seq => rfl
  | settle => rfl
  | fault =>
    exact congrArg (Course.mk · k.queue.clear.2) (k.executor.fault_withLibrary library _)
  | requestStop =>
    exact congrArg (Course.mk · k.queue) (k.executor.requestStop_withLibrary library)
  | drain =>
    exact congrArg (Course.mk ·.2 k.queue) (k.executor.drain_withLibrary library k.queue.isEmpty)
  | arm =>
    exact congrArg (Course.mk · k.queue)
      (toOption_getD_withLibrary (k.executor.arm_withLibrary library))
  | clearFault =>
    exact congrArg (Course.mk · k.queue)
      (toOption_getD_withLibrary (k.executor.clearFault_withLibrary library))
  | spend ms => rfl
  | setReady ready => rfl

/-- An operation that loads nothing takes no notice of the library. -/
theorem perform_withLibrary (nothing : op.request? = none) (k : Course R)
    (library : CalibrationLibrary R) :
    (k.withLibrary library).answer? op = k.answer? op ∧
      (k.withLibrary library).perform op = (k.perform op).withLibrary library := by
  cases op with
  | load files path start =>
    have unread : ∃ e, Recipe.load (R := R) files path = .error e := by
      rcases read : Recipe.load (R := R) files path with e | recipe
      · exact ⟨e, rfl⟩
      · rw [Operation.request?, read] at nothing
        cases nothing
    obtain ⟨e, unread⟩ := unread
    rw [answer?, answer?, perform, perform, Executor.load, Executor.load, unread]
    rw [show (k.withLibrary library).executor.state = k.executor.state from rfl]
    split
    · exact ⟨rfl, rfl⟩
    · exact ⟨rfl, rfl⟩
  | install files text start =>
    rcases read : Recipe.ofText (R := R) text with e | recipe
    · rw [answer?, answer?, perform, perform, read]
      exact ⟨rfl, rfl⟩
    · rw [Operation.request?, read] at nothing
      cases nothing
  | move m => exact ⟨rfl, k.after_withLibrary library m⟩
  | unload =>
    exact ⟨rfl, congrArg (Course.mk · k.queue)
      (toOption_getD_withLibrary (k.executor.unload_withLibrary library))⟩
  | fault unfinished =>
    exact ⟨rfl, congrArg (Course.mk · k.queue) (k.executor.fault_withLibrary library unfinished)⟩
  | clear => exact ⟨rfl, rfl⟩
  | drain queueEmpty =>
    exact ⟨rfl, congrArg (Course.mk ·.2 k.queue) (k.executor.drain_withLibrary library queueEmpty)⟩
  | setLine line =>
    exact ⟨rfl, congrArg (Course.mk · k.queue)
      (toOption_getD_withLibrary (k.executor.setLine_withLibrary library line))⟩
  | syncPosition position =>
    exact ⟨rfl, congrArg (Course.mk · k.queue)
      (k.executor.syncPosition_withLibrary library position)⟩
  | jog target velocity =>
    exact ⟨rfl, adopt_withLibrary
      (k.executor.request_withLibrary library k.queue (.jog target velocity))⟩
  | moveHead side =>
    exact ⟨rfl, adopt_withLibrary (k.executor.request_withLibrary library k.queue (.head side))⟩
  | moveLatch side =>
    exact ⟨rfl, adopt_withLibrary (k.executor.request_withLibrary library k.queue (.latch side))⟩
  | seekPin pin =>
    exact ⟨rfl, adopt_withLibrary (k.executor.request_withLibrary library k.queue (.visit pin))⟩

/-- An operation that loads nothing leaves the library. -/
theorem perform_library (nothing : op.request? = none) :
    (k.perform op).executor.library = k.executor.library :=
  congrArg (·.executor.library) (perform_withLibrary nothing k k.executor.library).2

/-- An operation answers the same with a library that recalls one table more, if it is given that
table, and the libraries still differ in nothing else. -/
theorem perform_recalls (h : k.executor.library.Recalls library layer table)
    (reads : k.Rereads layer table op) :
    ∃ library', (k.perform op).executor.library.Recalls library' layer table ∧
      (k.withLibrary library).answer? op = k.answer? op ∧
        (k.withLibrary library).perform op = (k.perform op).withLibrary library' := by
  rcases request : op.request? with _ | r
  · refine ⟨library, ?_, perform_withLibrary request k library⟩
    rw [perform_library request]
    exact h
  · obtain ⟨answer, performed⟩ := of_request (k := k) request
    obtain ⟨answer', performed'⟩ := of_request (k := k.withLibrary library) request
    obtain ⟨library', recalls, same⟩ := Executor.install_recalls h r.path r.start (reads r request)
    rw [show (k.withLibrary library).executor = k.executor.withLibrary library from rfl, same]
      at answer' performed'
    refine ⟨library', ?_, answer'.trans answer.symm, ?_⟩
    · rw [performed]
      exact recalls
    · rw [performed', performed]
      rfl

/-- All loads answer the same with a library that recalls one table more, as long as they are given
that table. -/
theorem answers_recalls {ops : List (Operation R)}
    (h : k.executor.library.Recalls library layer table)
    (reads : k.RereadsAll layer table ops) :
    (k.withLibrary library).answers ops = k.answers ops ∧
      ∃ library', (k.withLibrary library).performAll ops =
        (k.performAll ops).withLibrary library' := by
  induction ops generalizing k library with
  | nil => exact ⟨rfl, library, rfl⟩
  | cons op ops ih =>
    obtain ⟨library', recalls, answer, performed⟩ := perform_recalls h reads.1
    obtain ⟨later, last⟩ := ih recalls reads.2
    rw [answers, answers, answer, performed, later, performAll, performAll, List.foldl_cons,
      List.foldl_cons, performed]
    exact ⟨rfl, last⟩

/-- A load from the files from which a table was read is given this table. -/
theorem Rereads.of_read {files : FileStore} (read : k.executor.library.get files layer =
    (.ok table, library)) (path : String) (start : Nat) :
    k.Rereads layer table (.load files path start) := by
  intro r hr _
  obtain ⟨recipe, -, rfl⟩ := Option.map_eq_some_iff.mp hr
  exact congrArg Prod.fst read

end Course

/-- A load that fails changes nothing but the library, to which it can add the table of its layer.
Whatever is asked of the executor afterwards, with whatever files: all loads are answered as if the
failed load had never been made, and the same comes of it, as long as every load of a recipe of that
layer would be given the same table without it. -/
theorem Executor.failed_load_traceless {x x₁ : Executor R} {files : FileStore} {e : ExecutorError R}
    (failed : x.LoadFails files e x₁) :
    ∃ kept, x₁ = x.withLibrary (x.library.keeping kept) ∧
      (∀ layer table, kept = some (layer, table) → x.Leaves files e layer table) ∧
      ∀ (q : Queue R) (ops : List (Operation R)),
        (∀ layer table, kept = some (layer, table) →
          (⟨x, q⟩ : Course R).RereadsAll layer table ops) →
        (⟨x₁, q⟩ : Course R).answers ops = (⟨x, q⟩ : Course R).answers ops ∧
          ∃ library, (⟨x₁, q⟩ : Course R).performAll ops =
            ((⟨x, q⟩ : Course R).performAll ops).withLibrary library := by
  obtain ⟨kept, rfl, leaves⟩ := failed.kept
  refine ⟨kept, rfl, leaves, fun q ops reads => ?_⟩
  rcases kept with _ | ⟨layer, table⟩
  · exact ⟨rfl, _, rfl⟩
  · have unknown := (leaves layer table rfl).unknown
    exact Course.answers_recalls (k := ⟨x, q⟩) (.keep unknown) (reads layer table rfl)

/-! ## A calibration that is put right -/

namespace Bench

/-- An executor with one layer, whose calibration was not read yet. -/
def uncalibrated : Executor Float :=
  .make ⟨⟨.standard, .standard, .standard⟩, .standard⟩
    [⟨"X", 2, 1, 0, none, 1, 0, 1, ⟨.bottomLeft, .clockwise⟩⟩]
    (.ofPaths [("X", "/data/X.xml")])

/-- The text of a recipe of the layer. -/
def pauseText : String :=
  "(LAYER X)\nM0\n(SHA256 2a11a8528ab12997b36d3e9308e302b56bc508972849d80a1e981708041193cb)\n"

/-- A recipe of the layer, and its calibration with these pins. -/
def stocked (pins : String) : FileStore :=
  ((FileStore.empty ["data"]).putFile ["data", "recipe"] pauseText.toUTF8).putFile
    ["data", "X.xml"]
      ("<LayerCalibration layer=\"X\" zFront=\"0\" zBack=\"0\">" ++ pins ++
        "</LayerCalibration>").toUTF8

/-- The recipe is loaded at its first line. -/
def reload : List (Operation Float) := [.load (stocked "") "/data/recipe" 0]

/-- A pin that the layer does not have. -/
def strayPin : String := "<pin id=\"F9\" x=\"0\" y=\"0\"/>"

/-- A recipe without lines is refused at a line that it does not have, which leaves no trace in the
next load. -/
theorem later_load_answers : ∃ (e : ExecutorError Float) (x₁ : Executor Float),
    uncalibrated.LoadFails (stocked "") e x₁ ∧
      (⟨x₁, .empty 4⟩ : Course Float).answers reload =
        (⟨uncalibrated, .empty 4⟩ : Course Float).answers reload := by
  have refused : (uncalibrated.install (stocked "") none ⟨"X", [], ""⟩ 1).1.isOk = false := by
    decide +kernel
  rcases installed : uncalibrated.install (stocked "") none ⟨"X", [], ""⟩ 1 with ⟨e | _, x₁⟩
  · have failed : uncalibrated.LoadFails (stocked "") e x₁ := .install installed
    obtain ⟨kept, -, leaves, later⟩ := Executor.failed_load_traceless failed
    have reread (layer : String) (table : PinTable Float) (left : kept = some (layer, table)) :
        (⟨uncalibrated, .empty 4⟩ : Course Float).RereadsAll layer table reload :=
      ⟨.of_read (leaves layer table left).read _ _, trivial⟩
    exact ⟨e, x₁, failed, (later (.empty 4) reload reread).1⟩
  · rw [installed] at refused
    cases refused

/-- A stray pin is found in the calibration, and taken out of its file. The recipe would be loaded
now, but it is refused again after the load that failed. -/
theorem corrected_load_refused :
    (uncalibrated.load (stocked strayPin) "/data/recipe" 0).1.isOk = false ∧
      (uncalibrated.load (stocked "") "/data/recipe" 0).1.isOk = true ∧
        ((uncalibrated.load (stocked strayPin) "/data/recipe" 0).2.load (stocked "") "/data/recipe"
          0).1.isOk = false := by
  decide +kernel

end Bench

end Winding
