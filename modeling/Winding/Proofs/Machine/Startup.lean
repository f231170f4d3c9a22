import Winding.Machine.Startup
import Winding.Proofs.Files.Writing

/-!
# What a machine starts from

A machine is made of the executor of its configuration, the record of its frame and the journal
(`Machine.make_eq_ok`). The recipe file and the calibration decide the session that is loaded from
them (`Session.LoadedFrom`): wherever they are read alike, the same session is loaded again, at
whatever line (`Session.LoadedFrom.load`).
-/

namespace Winding

variable {R : Type} [Scalar R]

/-! ## Making -/

theorem Machine.executorOf_eq_ok {c : Configuration R} {d : DataDirectory} {x : Executor R}
    (h : executorOf c d = .ok x) :
    ∃ context layers, x = .make context layers (.ofPaths (c.calibrationPaths d)) := by
  obtain ⟨envelope, -, h⟩ := bind_eq_ok h
  obtain ⟨layers, -, h⟩ := bind_eq_ok h
  cases h
  exact ⟨_, layers, rfl⟩

theorem Machine.make_eq_ok {c : Configuration R} {files files' : FileStore} {d : DataDirectory}
    {exchange : Exchange R} {now : Timestamp} {m : Machine R}
    (h : Machine.make c files d exchange now = (.ok m, files')) :
    ∃ x records journal, executorOf c d = .ok x ∧
      RecordStore.load files d c.machine.apaName c.machine.persistInterval = .ok records ∧
      Journal.openAt files d.logPath = (files', .ok journal) ∧
      m = atRest c files' d x exchange records journal now := by
  unfold make at h
  split at h
  · cases h
  · next x made =>
    split at h
    · cases h
    · next records read =>
      split at h
      · cases h
      · next files₁ journal opened =>
        cases h
        exact ⟨x, records, journal, made, read, opened, rfl⟩

/-- The record of a frame is fresh, or the one that its file holds. -/
theorem RecordStore.load_eq_ok {files : FileStore} {d : DataDirectory} {name : String}
    {interval : Nat} {records : RecordStore R}
    (h : RecordStore.load files d name interval = .ok records) :
    ∃ r, records = ofRecord (d.recordPath name) interval r ∧
      (files.contains (d.recordPath name) = false ∧ r = .fresh name ∨
        ∃ text, files.readText (d.recordPath name) = .ok text ∧ ApaRecord.ofText text = .ok r) := by
  unfold load at h
  simp only at h
  split at h
  · next absent =>
    cases h
    exact ⟨_, rfl, .inl ⟨by rwa [Bool.not_eq_true'] at absent, rfl⟩⟩
  · split at h
    · cases h
    · next text read =>
      split at h
      · cases h
      · next r written =>
        cases h
        exact ⟨r, rfl, .inr ⟨text, read, written⟩⟩

/-! ## Loading -/

theorem PinTable.load_eq_ok {files : FileStore} {path : String} {table : PinTable R}
    (h : PinTable.load files path = .ok table) :
    ∃ text, files.readText path = .ok text ∧ PinTable.ofText text = .ok table := by
  unfold load at h
  split at h
  · cases h
  · next text read => exact ⟨text, read, h⟩

theorem Recipe.load_eq_ok {files : FileStore} {path : String} {recipe : Recipe R}
    (h : Recipe.load files path = .ok recipe) :
    ∃ text, files.readText path = .ok text ∧ Recipe.ofText text = .ok recipe := by
  unfold load at h
  split at h
  · cases h
  · next text read => exact ⟨text, read, h⟩

namespace CalibrationLibrary

/-- A table that was found is found again where its file is read alike. -/
theorem get_of_readText {lib lib' : CalibrationLibrary R} {files files' : FileStore}
    {layer : String} {table : PinTable R} (found : lib.get files layer = (.ok table, lib'))
    (alike : ∀ text, files.readText (lib.pathOf layer) = .ok text →
      files'.readText (lib.pathOf layer) = .ok text) :
    lib.get files' layer = (.ok table, lib') := by
  unfold get at found ⊢
  split at found
  · exact found
  · simp only at found
    split at found
    · cases found
    · split at found
      · cases found
      · next table' loaded =>
        obtain ⟨text, read, written⟩ := PinTable.load_eq_ok loaded
        have there := FileStore.contains_of_readText (alike text read)
        have loaded' : PinTable.load files' (lib.pathOf layer) = .ok table' := by
          rw [PinTable.load, alike text read]
          exact written
        simp only [there, loaded']
        exact found

end CalibrationLibrary

/-- The session winds the recipe of a file, with the table that the executor finds for its layer. -/
structure Session.LoadedFrom (s : Session R) (x : Executor R) (files : FileStore) (path : String)
    (recipe : Recipe R) (layer : Layer R) : Prop where
  read : Recipe.load files path = .ok recipe
  named : s.path = some path
  content : s.layer = recipe.layer ∧ s.hash = recipe.hash ∧ s.lines = recipe.lines
  found : x.layers.find? (·.name == recipe.layer) = some layer
  table : (x.library.get files recipe.layer).1 = .ok s.table
  valid : s.table.validate layer = .ok ()
  calibrated : recipe.pins.find? (!s.table.contains ·) = none

namespace Executor

variable {x : Executor R} {layer : Layer R} {table : PinTable R} {recipe : Recipe R} {start : Nat}

theorem qualify_eq_ok_iff : qualify layer table recipe start = .ok () ↔
    table.validate layer = .ok () ∧ recipe.pins.find? (!table.contains ·) = none ∧
      start ≤ recipe.lines.length := by
  unfold qualify
  rcases table.validate layer with e | ⟨⟨⟩⟩
  · exact ⟨nofun, nofun⟩
  · simp only
    rcases recipe.pins.find? (!table.contains ·) with _ | pin
    · simp only [true_and]
      split
      · next long => exact ⟨nofun, fun le => absurd long (Nat.not_lt.mpr le)⟩
      · next le => exact ⟨fun _ => Nat.not_lt.mp le, fun _ => rfl⟩
    · exact ⟨nofun, nofun⟩

end Executor

namespace Session

variable {s : Session R} {x : Executor R} {files : FileStore} {path : String}
  {recipe : Recipe R} {layer : Layer R}

/-- What was loaded from files is loaded again, at another line, where they are read alike. -/
theorem LoadedFrom.load (h : s.LoadedFrom x files path recipe layer) (x' : Executor R)
    (files' : FileStore) (start : Nat) (idle : x'.state.isRunning = false)
    (layers : x'.layers = x.layers)
    (library : x'.library = x.library) (le : start ≤ s.lines.length)
    (alike : ∀ p ∈ [path, x.library.pathOf s.layer], ∀ text, files.readText p = .ok text →
      files'.readText p = .ok text) :
    ∃ library', x'.load files' path start = (.ok (),
      { x' with library := library' }.begin { s with start := start, cursor := start }) := by
  obtain ⟨sameLayer, sameHash, sameLines⟩ := h.content
  have loaded : Recipe.load files' path = .ok recipe := by
    obtain ⟨text, read, written⟩ := Recipe.load_eq_ok h.read
    rw [Recipe.load, alike path List.mem_cons_self text read]
    exact written
  have found : x.library.get files' recipe.layer =
      (.ok s.table, (x.library.get files recipe.layer).2) := by
    refine CalibrationLibrary.get_of_readText (Prod.ext h.table rfl) ?_
    rw [← sameLayer]
    exact alike _ (List.mem_cons_of_mem _ List.mem_cons_self)
  have qualified : Executor.qualify layer s.table recipe start = .ok () :=
    Executor.qualify_eq_ok_iff.mpr ⟨h.valid, h.calibrated, sameLines ▸ le⟩
  refine ⟨(x.library.get files recipe.layer).2, ?_⟩
  rw [Executor.load, idle, if_neg Bool.false_ne_true, loaded]
  simp only [Executor.install, idle, if_neg Bool.false_ne_true, layers, h.found, library, found,
    qualified]
  obtain ⟨path', layer', hash', lines', start', cursor', table'⟩ := s
  cases h.named
  cases sameLayer
  cases sameHash
  cases sameLines
  rfl

end Session

end Winding
