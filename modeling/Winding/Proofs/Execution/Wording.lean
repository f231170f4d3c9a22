import Winding.Execution.Executor
import Winding.Proofs.Gcode.Faults

/-!
# In what words loading fails

A recipe is loaded from two files, and what is wrong with either is told in words that repeat names,
numbers and paths. They are on one line, unless the calibration file has a text in it that is not,
and this text is what is told (`CalibrationError.QuotesDocument`, `Executor.Inline.load`).
-/

namespace Winding

/-! ## Files -/

namespace Files

theorem dropNothing_suffix (cs : List Char) : dropNothing cs <:+ cs := by
  induction cs using dropNothing.induct with
  | case1 rest none => rw [dropNothing, if_pos none, List.isEmpty_iff.mp none]
  | case2 rest some ih =>
    rw [dropNothing, if_neg some]
    exact ih.trans (List.suffix_cons _ _)
  | case3 rest none =>
    rw [dropNothing, if_pos none, List.isEmpty_iff.mp none]
    exact List.suffix_cons '.' ['/']
  | case4 rest some ih =>
    rw [dropNothing, if_neg some]
    exact ih.trans ((List.suffix_cons _ _).trans (List.suffix_cons _ _))
  | case5 rest other other' =>
    rw [dropNothing]
    · exact other
    · exact other'

theorem oneLine_parent? {path parent : String} (h : OneLine path)
    (found : parent? path = some parent) : OneLine parent := by
  have turned {c : Char} (inside : c ∈ dropNothing path.toList.reverse) : c ∈ path.toList :=
    List.mem_reverse.mp ((dropNothing_suffix _).subset inside)
  unfold parent? at found
  split at found
  · cases found
  · cases found
  · split at found
    · cases found
      exact (by decide : OneLine "")
    · cases found
      refine oneLine_ofList.mpr fun newline => h (turned ?_)
      exact (List.dropWhile_suffix _).subset
        ((dropNothing_suffix _).subset (List.mem_reverse.mp newline))

theorem oneLine_join {base path : String} (hb : OneLine base) (hp : OneLine path) :
    OneLine (join base path) := by
  unfold join
  split
  · exact hp
  · split
    · exact hb.append hp
    · exact .append (hb.append (by decide)) hp

end Files

theorem IoFault.oneLine_message (fault : IoFault) : OneLine fault.message := by
  cases fault <;> decide

namespace FileStore

variable {files files' : FileStore} {path : String} {e : FileError}

theorem oneLine_readText (h : OneLine path) (read : files.readText path = .error e) :
    OneLine e.message := by
  unfold readText at read
  split at read
  · next fault _ =>
    cases read
    exact .append (.append (.append (by decide) h) (by decide)) fault.oneLine_message
  · split at read
    · cases read
      exact .append (by decide) h
    · cases read

theorem oneLine_workplace (h : OneLine path) : OneLine (workplace path) := by
  unfold workplace
  split
  · next found =>
    split
    · decide
    · exact Files.oneLine_parent? h found
  · decide

theorem oneLine_write {content : ByteArray} (h : OneLine path)
    (wrote : files.write path content = (files', .error e)) : OneLine e.message := by
  unfold write at wrote
  split at wrote
  · next fault _ =>
    cases wrote
    exact .append (.append (.append (by decide) (oneLine_workplace h)) (by decide))
      fault.oneLine_message
  · split at wrote
    · cases wrote
    · next fault _ =>
      cases wrote
      exact .append (.append (.append (by decide) h) (by decide)) fault.oneLine_message

end FileStore

theorem Pin.oneLine_text (p : Pin) : OneLine p.text := by
  refine oneLine_ofList.mpr (List.not_mem_cons_of_ne_of_not_mem ?_ (newline_notMem_digitsOf _))
  cases p.face <;> decide

/-! ## Calibrations -/

/-- The error tells a text of the calibration file that is not on one line. -/
inductive CalibrationError.QuotesDocument : CalibrationError → Prop
  | pin {id : String} (newline : ¬OneLine id) : QuotesDocument (.invalidPin id)
  | layer {expected found : String} (newline : ¬OneLine found) :
    QuotesDocument (.layerMismatch expected found)
  /-- What is wrong with the document is told in the words of whoever reads documents. -/
  | document : QuotesDocument .malformed

/-- The error is told on one line, or tells a text of the calibration file that is not. -/
def CalibrationError.Told (e : CalibrationError) : Prop := OneLine e.message ∨ e.QuotesDocument

theorem CalibrationError.told_layerMismatch {expected found : String} (h : OneLine expected) :
    Told (.layerMismatch expected found) := by
  by_cases line : OneLine found
  · exact .inl (.append (.append (.append (.append (by decide) line) (by decide)) h) (by decide))
  · exact .inr (.layer line)

namespace PinTable

variable {R : Type} [Scalar R]

theorem told_collect {zFront zBack : R} {pins : List (Pin × Location R)}
    {points : List (Pin × R × R)} {e : CalibrationError}
    (h : collect zFront zBack pins points = .error e) : e.Told := by
  induction points generalizing pins with
  | nil => cases h
  | cons point points ih =>
    obtain ⟨pin, x, y⟩ := point
    simp only [collect] at h
    split at h
    · cases h
      exact .inl (.append (.append (by decide) pin.oneLine_text) (by decide))
    · split at h
      · cases h
        exact .inl (.append (.append (by decide) pin.oneLine_text) (by decide))
      · exact ih h

theorem told_shifted {dx dy : R} {points : List (String × R × R)} {e : CalibrationError}
    (h : shifted dx dy points = .error e) : e.Told := by
  obtain ⟨⟨id, x, y⟩, -, h⟩ := mapM_eq_error h
  simp only at h
  split at h
  · cases h
    by_cases line : OneLine id
    · exact .inl (.append (.append (by decide) line) (by decide))
    · exact .inr (.pin line)
  · cases h

theorem told_ofText {text : String} {e : CalibrationError} (h : ofText (R := R) text = .error e) :
    e.Told := by
  unfold ofText at h
  split at h
  · cases h
    exact .inr .document
  · unfold ofDocument at h
    split at h
    · cases h
      exact .inr .document
    · rcases bind_eq_error h with h | ⟨points, -, h⟩
      · exact told_shifted h
      · rcases bind_eq_error h with h | ⟨pins, -, h⟩
        · exact told_collect h
        · cases h

theorem told_load {files : FileStore} {path : String} {e : CalibrationError} (line : OneLine path)
    (h : load (R := R) files path = .error e) : e.Told := by
  unfold load at h
  split at h
  · next read =>
    cases h
    exact .inl (.append (by decide) (FileStore.oneLine_readText line read))
  · exact told_ofText h

theorem told_checkPins {layer : Layer R} (name : OneLine layer.name) {seen : List (Seen R)}
    {pins : List (Pin × Location R)} {e : CalibrationError}
    (h : checkPins layer seen pins = .error e) : e.Told := by
  have unordered (pin : Pin) : (CalibrationError.notMonotonic pin).Told :=
    .inl (.append (.append (by decide) pin.oneLine_text) (by decide))
  induction pins generalizing seen with
  | nil => cases h
  | cons first pins ih =>
    obtain ⟨pin, location⟩ := first
    unfold checkPins at h
    split at h
    · cases h
      exact .inl (.append (.append (.append (.append (.append (.append (by decide)
        pin.oneLine_text) (by decide)) name) (by decide)) (oneLine_nat _)) (by decide))
    · split at h
      · exact ih h
      · simp only at h
        split at h
        · exact ih h
        · split at h
          · split at h
            · cases h
              exact unordered pin
            · split at h
              · cases h
                exact unordered pin
              · exact ih h
          · exact ih h

theorem told_validate {t : PinTable R} {layer : Layer R} (name : OneLine layer.name)
    {e : CalibrationError} (h : t.validate layer = .error e) : e.Told := by
  unfold validate at h
  split at h
  · cases h
    exact CalibrationError.told_layerMismatch name
  · exact told_checkPins name h

end PinTable

namespace CalibrationLibrary

variable {R : Type} {lib : CalibrationLibrary R} {layer : String}

/-- Every file that is named is named on one line. -/
def Inline (lib : CalibrationLibrary R) : Prop := ∀ p ∈ lib.paths, OneLine p.2

theorem Inline.pathOf (h : lib.Inline) (name : OneLine layer) : OneLine (lib.pathOf layer) := by
  unfold CalibrationLibrary.pathOf
  rcases found : lib.paths.lookup layer with _ | path
  · exact name.append (by decide)
  · obtain ⟨before, after, split, -⟩ := List.lookup_eq_some_iff.mp found
    exact h (layer, path) (by rw [split]; simp)

variable [Scalar R]

theorem get_paths (lib : CalibrationLibrary R) (files : FileStore) (layer : String) :
    (lib.get files layer).2.paths = lib.paths := by
  unfold get
  split
  · rfl
  · simp only
    split
    · rfl
    · split
      · rfl
      · split <;> rfl

theorem Inline.told_get (h : lib.Inline) (name : OneLine layer) {files : FileStore}
    {e : CalibrationError} (failed : (lib.get files layer).1 = .error e) : e.Told := by
  unfold get at failed
  split at failed
  · cases failed
  · simp only at failed
    split at failed
    · cases failed
      exact .inl (.append (.append (.append (.append (by decide) name) (by decide))
        (h.pathOf name)) (by decide))
    · split at failed
      · next load =>
        cases failed
        exact PinTable.told_load (h.pathOf name) load
      · split at failed
        · cases failed
          exact CalibrationError.told_layerMismatch name
        · cases failed

end CalibrationLibrary

/-! ## Recipes -/

variable {R : Type} [Scalar R]

namespace Recipe

variable {files : FileStore} {path : String}

theorem oneLine_load [LineScalar R] {e : RecipeError R} (line : OneLine path)
    (unread : load files path = .error e) : OneLine e.message := by
  unfold load at unread
  split at unread
  · next failed =>
    cases unread
    exact .append (by decide) (FileStore.oneLine_readText line failed)
  · exact oneLine_ofText unread

theorem oneLine_layer_of_load {r : Recipe R} (read : load files path = .ok r) :
    OneLine r.layer := by
  unfold load at read
  split at read
  · cases read
  · exact oneLine_layer read

end Recipe

/-- The error is told on one line, or tells a text of a calibration file that is not. -/
def ExecutorError.Told (e : ExecutorError R) : Prop :=
  OneLine e.message ∨ ∃ c, e = .plan (.calibration c) ∧ c.QuotesDocument

theorem CalibrationError.Told.plan {e : CalibrationError} (h : e.Told) :
    (ExecutorError.plan (.calibration e) : ExecutorError R).Told :=
  h.imp (.append (by decide)) fun quotes => ⟨e, rfl, quotes⟩

theorem ExecutorState.oneLine_text (s : ExecutorState) : OneLine s.text := by
  cases s <;> decide

theorem ExecutorError.oneLine_busy (s : ExecutorState) :
    OneLine (ExecutorError.busy s : ExecutorError R).message :=
  .append (.append (by decide) s.oneLine_text) (by decide)

namespace Executor

/-- What the executor can be told to name is named on one line: the calibration files, and the layer
of the session. -/
structure Inline (x : Executor R) : Prop where
  library : x.library.Inline
  layer : ∀ s, x.session = some s → OneLine s.layer

variable {x : Executor R}

theorem told_qualify {layer : Layer R} {table : PinTable R} {recipe : Recipe R} {start : Nat}
    {e : ExecutorError R} (name : OneLine layer.name)
    (h : qualify layer table recipe start = .error e) : e.Told := by
  unfold qualify at h
  split at h
  · next invalid =>
    cases h
    exact (PinTable.told_validate name invalid).plan
  · split at h
    · next pin _ =>
      cases h
      exact .inl (.append (by decide) (.append (by decide) pin.oneLine_text))
    · split at h
      · cases h
        exact .inl (.append (.append (.append (.append (by decide) (oneLine_nat _)) (by decide))
          (oneLine_nat _)) (by decide))
      · cases h

theorem Inline.install (h : x.Inline) {recipe : Recipe R} (name : OneLine recipe.layer)
    (files : FileStore) (path : Option String) (start : Nat) :
    (x.install files path recipe start).2.Inline ∧
      ∀ e, (x.install files path recipe start).1 = .error e → e.Told := by
  unfold Executor.install
  split
  · refine ⟨h, ?_⟩
    rintro _ ⟨⟩
    exact .inl (ExecutorError.oneLine_busy _)
  · split
    · refine ⟨h, ?_⟩
      rintro _ ⟨⟩
      exact .inl (.append (.append (by decide) name) (by decide))
    · next layer found =>
      have same : layer.name = recipe.layer := by
        have alike := List.find?_some found
        exact beq_iff_eq.mp alike
      have paths := x.library.get_paths files recipe.layer
      have told (e : CalibrationError) :
          (x.library.get files recipe.layer).1 = .error e → e.Told := h.library.told_get name
      generalize x.library.get files recipe.layer = got at paths told ⊢
      obtain ⟨result, library⟩ := got
      have kept : Executor.Inline { x with library := library } := by
        refine ⟨fun p hp => h.library p ?_, h.layer⟩
        rwa [← paths]
      simp only
      split
      · refine ⟨kept, ?_⟩
        rintro _ ⟨⟩
        exact (told _ rfl).plan
      · split
        · next unqualified =>
          refine ⟨kept, ?_⟩
          rintro _ ⟨⟩
          exact told_qualify (same ▸ name) unqualified
        · refine ⟨⟨kept.library, ?_⟩, nofun⟩
          rintro _ ⟨⟩
          exact name

/-- Whatever the recipe file and the calibration file hold: what is wrong with them is told on one
line, if the path is on one, unless a text of the calibration file is told that is not. -/
theorem Inline.load [LineScalar R] (h : x.Inline) (files : FileStore) (path : String)
    (start : Nat) :
    (x.load files path start).2.Inline ∧
      (OneLine path → ∀ e, (x.load files path start).1 = .error e → e.Told) := by
  unfold Executor.load
  split
  · refine ⟨h, fun line => ?_⟩
    rintro _ ⟨⟩
    exact .inl (ExecutorError.oneLine_busy _)
  · split
    · next e unread =>
      refine ⟨h, fun line => ?_⟩
      rintro _ ⟨⟩
      exact .inl (.append (by decide) (Recipe.oneLine_load line unread))
    · next recipe read =>
      obtain ⟨installed, told⟩ := h.install (Recipe.oneLine_layer_of_load read) files path start
      exact ⟨installed, fun _ => told⟩

theorem oneLine_arm {e : ExecutorError R} (h : x.arm = .error e) : OneLine e.message := by
  have transition (s : ExecutorState) (t : Transition) :
      OneLine (ExecutorError.invalidTransition s t : ExecutorError R).message := by
    refine .append (.append (.append (by decide) ?_) (by decide)) s.oneLine_text
    cases t <;> decide
  unfold arm at h
  split at h
  · cases h
  · cases h
  · cases h
  · split at h
    · cases h
    · cases h
      exact (by decide : OneLine "No recipe loaded")
  · next state =>
    rw [clearFault, if_pos state] at h
    cases h
  · cases h
    exact ExecutorError.oneLine_busy _
  · cases h
    exact transition _ _

end Executor

end Winding
