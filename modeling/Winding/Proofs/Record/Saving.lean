import Winding.Proofs.Files.Writing
import Winding.Proofs.Record.Changes
import Winding.Proofs.Time.Reading
import Winding.Record.Store

/-!
# The line in the file of a record

The line of a recipe in progress is saved once it is some lines away from the line that was saved
last, which a store remembers. Through changes, saves and lines in any order, the remembered line is
that of the record in the file (`RecordStore.Reached.kept`), so the line in the file stays less than
the interval away from the line of the recipe (`RecordStore.updateLine_keeps_up`).
-/

namespace Winding

/-! ## Records that were read -/

theorem natBelow?_lt {limit n : Nat} {cs : List Char} (h : natBelow? limit cs = some n) :
    n < limit := by
  have below := (Option.filter_eq_some_iff.mp h).2
  exact of_decide_eq_true below

/-- Every element that was read from a list was read from one of its elements. -/
theorem exists_of_mapM_eq_some {α β : Type} {read : α → Option β} {l : List α} {k : List β}
    (h : l.mapM read = some k) : ∀ b ∈ k, ∃ a ∈ l, read a = some b := by
  induction l generalizing k with
  | nil =>
    obtain rfl := Option.some.inj h
    exact List.forall_mem_nil _
  | cons a l ih =>
    rw [List.mapM_cons] at h
    obtain ⟨b, first, h⟩ := Option.bind_eq_some_iff.mp h
    obtain ⟨bs, more, h⟩ := Option.bind_eq_some_iff.mp h
    obtain rfl := Option.some.inj h
    refine List.forall_mem_cons.mpr ⟨⟨a, List.mem_cons_self, first⟩, fun b' hb => ?_⟩
    obtain ⟨a', mem, read⟩ := ih more b' hb
    exact ⟨a', List.mem_cons_of_mem a mem, read⟩

namespace ApaRecord

variable {R : Type} [Scalar R]

/-- A line that is read is kept in 64 bits. -/
theorem optional_line?_lt {tag : Markup.Tag} {key : String} {line : Option Nat}
    (h : tag.optional key line? = some line) : ∀ l ∈ line, l < lineLimit := by
  intro l hl
  unfold Markup.Tag.optional at h
  split at h
  · obtain rfl := Option.some.inj h
    cases hl
  · obtain ⟨l', read, rfl⟩ := Option.map_eq_some_iff.mp h
    obtain rfl := Option.some.inj hl
    exact natBelow?_lt read

theorem fault?_legible {tag : Markup.Tag} {e : FaultEntry} (h : fault? tag = some e) :
    e.time.IsShown ∧ ∀ l ∈ e.line, l < lineLimit := by
  unfold fault? at h
  split at h
  · obtain ⟨time, timed, h⟩ := Option.bind_eq_some_iff.mp h
    obtain ⟨kind, -, h⟩ := Option.bind_eq_some_iff.mp h
    obtain ⟨line, counted, h⟩ := Option.bind_eq_some_iff.mp h
    obtain rfl := Option.some.inj h
    obtain ⟨text, -, read⟩ := Option.bind_eq_some_iff.mp timed
    exact ⟨Timestamp.isShown_of_ofText? read, optional_line?_lt counted⟩
  · cases h

omit [Scalar R] in
/-- Lengths that are set one after the other are in order, and each is one of them. -/
theorem foldl_assign_legible (given front : List (String × R))
    (ordered : InOrder front) :
    let wound := given.foldl (fun ws (layer, length) => assign layer length ws) front
    InOrder wound ∧ ∀ w ∈ wound, w ∈ front ∨ w ∈ given := by
  induction given generalizing front with
  | nil => exact ⟨ordered, fun w hw => .inl hw⟩
  | cons v given ih =>
    obtain ⟨layer, length⟩ := v
    obtain ⟨ordered, mem⟩ := ih (assign layer length front) ordered.assign
    refine ⟨ordered, fun w hw => ?_⟩
    rcases mem w hw with new | later
    · rcases mem_assign new with rfl | old
      · exact .inr List.mem_cons_self
      · exact .inl old
    · exact .inr (List.mem_cons_of_mem _ later)

/-- A record that was read can be written and read back. -/
theorem legible_of_ofText {text : String} {r : ApaRecord R} (h : ofText text = .ok r) :
    r.Legible := by
  unfold ofText at h
  split at h
  · cases h
  · next given read =>
    split at h
    · cases h
    · next lengths =>
      obtain rfl := Except.ok.inj h
      obtain ⟨d, -, read⟩ := Option.bind_eq_some_iff.mp read
      unfold ofDocument? at read
      split at read
      · obtain ⟨name, -, read⟩ := Option.bind_eq_some_iff.mp read
        obtain ⟨stage, -, read⟩ := Option.bind_eq_some_iff.mp read
        obtain ⟨wound, -, read⟩ := Option.bind_eq_some_iff.mp read
        obtain ⟨line, counted, read⟩ := Option.bind_eq_some_iff.mp read
        obtain ⟨faults, history, read⟩ := Option.bind_eq_some_iff.mp read
        obtain rfl := Option.some.inj read
        obtain ⟨ordered, mem⟩ := foldl_assign_legible wound [] List.Pairwise.nil
        have each (e : FaultEntry) (he : e ∈ faults) :
            e.time.IsShown ∧ ∀ l ∈ e.line, l < lineLimit := by
          obtain ⟨tag, -, read⟩ := exists_of_mapM_eq_some history e he
          exact fault?_legible read
        refine ⟨ordered, fun w hw => ?_, optional_line?_lt counted, fun e he => (each e he).1,
          fun e he => (each e he).2⟩
        have there : w ∈ wound := (mem w hw).resolve_left List.not_mem_nil
        simpa using List.find?_eq_none.mp lengths w there
      · cases read

/-- A change keeps a record legible. -/
theorem Legible.change [LegibleScalar R] {r : ApaRecord R} (h : r.Legible) (c : Change R) :
    (r.change c).Legible := by
  cases c with
  | raise layer length => exact h.raise layer length
  | withRecipe recipe line => exact h.withRecipe recipe line.toNat_lt_size
  | withoutRecipe => exact h.withoutRecipe
  | advance => exact h.advance
  | withFault time kind message line => exact h.withFault time.property kind message faultLine_lt

/-- The file at a path is the text of a record with this line. -/
def LineIn (R : Type) [Scalar R] (files : FileStore) (path : String) (line : Option Nat) : Prop :=
  ∃ text, files.readText path = .ok text ∧ ∃ r : ApaRecord R, ofText text = .ok r ∧ r.line = line

end ApaRecord

namespace RecordStore

variable {R : Type} [Scalar R] {s s' : RecordStore R} {files files' : FileStore}

/-! ## What a store can do -/

/-- A save that succeeds writes the record, and remembers its line. -/
theorem save_eq_ok (h : s.save files = (.ok (), s', files')) :
    files.write s.path s.record.text.toUTF8 = (files', .ok ()) ∧
      s' = { s with savedLine := s.record.line } := by
  unfold save at h
  rcases written : files.write s.path s.record.text.toUTF8 with ⟨files₁, e | ⟨⟨⟩⟩⟩
  · rw [written] at h
    cases h
  · rw [written] at h
    cases h
    exact ⟨rfl, rfl⟩

/-- The store with the line of the recipe in its record. -/
def atLine (s : RecordStore R) (line : Nat) : RecordStore R :=
  s.modify fun r => { r with line := some line }

/-- What following a line comes to, when it succeeds. -/
inductive Followed (s : RecordStore R) (files : FileStore) (line : Nat) :
    Bool → RecordStore R → FileStore → Prop
  /-- No recipe is in progress. -/
  | idle (none : s.record.recipe = none) : Followed s files line false s files
  /-- The line is far enough from the saved one, and the record is saved. -/
  | saved {s' : RecordStore R} {files' : FileStore} (some : s.record.recipe.isSome)
      (saved : (s.atLine line).save files = (.ok (), s', files')) :
      Followed s files line true s' files'
  /-- The line is near the saved one, and is followed in memory alone. -/
  | near (some : s.record.recipe.isSome) (near : s.isDue line = false) :
      Followed s files line false (s.atLine line) files

theorem updateLine_followed {line : Nat} {wrote : Bool}
    (h : s.updateLine files line = (.ok wrote, s', files')) :
    s.Followed files line wrote s' files' := by
  rw [updateLine_eq, ← atLine] at h
  split at h
  · next none =>
    cases h
    exact .idle (Option.isNone_iff_eq_none.mp none)
  · next recipe =>
    have some : s.record.recipe.isSome := by
      rw [Option.isNone_iff_eq_none] at recipe
      exact Option.isSome_iff_ne_none.mpr recipe
    simp only at h
    split at h
    · rcases saved : (s.atLine line).save files with ⟨e | ⟨⟨⟩⟩, s₁, files₁⟩
      · rw [saved] at h
        cases h
      · rw [saved] at h
        cases h
        exact .saved some saved
    · next far =>
      cases h
      exact .near some (Bool.eq_false_iff.mpr far)

/-! ## Keeping track of the file -/

/-- The record can be read back from its text, and the line that is remembered is that of the record
in the file. -/
structure Kept (s : RecordStore R) (files : FileStore) : Prop where
  legible : s.record.Legible
  saved : ∀ line, s.savedLine = some line → ApaRecord.LineIn R files s.path (some line)

theorem kept_of_load {d : DataDirectory} {name : String} {interval : Nat}
    (h : load files d name interval = .ok s) :
    s.Kept files ∧ s.path = d.recordPath name ∧ s.interval = max interval 1 := by
  unfold load at h
  simp only at h
  split at h
  · obtain rfl := Except.ok.inj h
    exact ⟨⟨.fresh name, nofun⟩, rfl, rfl⟩
  · split at h
    · cases h
    · next text read =>
      split at h
      · cases h
      · next r decoded =>
        obtain rfl := Except.ok.inj h
        refine ⟨⟨ApaRecord.legible_of_ofText decoded, fun line saved => ?_⟩, rfl, rfl⟩
        exact ⟨text, read, r, decoded, saved⟩

variable [LegibleScalar R]

namespace Kept

/-- What was saved is in the file. -/
theorem lineIn_of_save (h : s.Kept files) (saved : s.save files = (.ok (), s', files')) :
    ApaRecord.LineIn R files' s.path s.record.line := by
  obtain ⟨written, -⟩ := save_eq_ok saved
  have found := (FileStore.write_eq_ok written).1
  have content := FileStore.read_eq_ok_iff.mpr ⟨_, found⟩
  have text := FileStore.readText_eq_ok_iff.mpr ⟨_, content, fromUTF8?_toUTF8 s.record.text⟩
  exact ⟨_, text, s.record, h.legible.ofText_text, rfl⟩

theorem change (h : s.Kept files) (c : ApaRecord.Change R) :
    (s.modify (ApaRecord.change · c)).Kept files :=
  ⟨h.legible.change c, h.saved⟩

theorem save (h : s.Kept files) (saved : s.save files = (.ok (), s', files')) : s'.Kept files' := by
  have lineIn := h.lineIn_of_save saved
  obtain ⟨-, rfl⟩ := save_eq_ok saved
  exact ⟨h.legible, fun line same => same ▸ lineIn⟩

omit [LegibleScalar R] in
theorem atLine (h : s.Kept files) {line : Nat} (le : line < ApaRecord.lineLimit) :
    (s.atLine line).Kept files :=
  ⟨h.legible.atLine le, h.saved⟩

theorem followed (h : s.Kept files) {line : Nat} (le : line < ApaRecord.lineLimit) {wrote : Bool}
    (followed : s.Followed files line wrote s' files') : s'.Kept files' := by
  cases followed with
  | idle none => exact h
  | saved some saved => exact (h.atLine le).save saved
  | near some near => exact h.atLine le

end Kept

omit [LegibleScalar R] in
/-- A save leaves the path and the interval. -/
theorem save_fixed (h : s.save files = (.ok (), s', files')) :
    s'.path = s.path ∧ s'.interval = s.interval := by
  obtain ⟨-, rfl⟩ := save_eq_ok h
  exact ⟨rfl, rfl⟩

omit [LegibleScalar R] in
theorem Followed.fixed {line : Nat} {wrote : Bool} (h : s.Followed files line wrote s' files') :
    s'.path = s.path ∧ s'.interval = s.interval := by
  cases h with
  | idle none => exact ⟨rfl, rfl⟩
  | saved some saved =>
    have fixed := save_fixed saved
    exact fixed
  | near some near => exact ⟨rfl, rfl⟩

/-! ## Stores that can be reached -/

omit [LegibleScalar R] in
/-- What becomes of a store that is opened on some files, and of the files, when every write
succeeds. Lines are counted in 64 bits. -/
inductive Reached (before : FileStore) (d : DataDirectory) (name : String) (interval : Nat) :
    RecordStore R → FileStore → Prop
  | load {s : RecordStore R} (loaded : RecordStore.load before d name interval = .ok s) :
      Reached before d name interval s before
  | change {s : RecordStore R} {files : FileStore} (reached : Reached before d name interval s files)
      (c : ApaRecord.Change R) :
      Reached before d name interval (s.modify (ApaRecord.change · c)) files
  | save {s s' : RecordStore R} {files files' : FileStore}
      (reached : Reached before d name interval s files)
      (saved : s.save files = (.ok (), s', files')) : Reached before d name interval s' files'
  | updateLine {s s' : RecordStore R} {files files' : FileStore} {wrote : Bool}
      (reached : Reached before d name interval s files) (line : UInt64)
      (updated : s.updateLine files line.toNat = (.ok wrote, s', files')) :
      Reached before d name interval s' files'

variable {before : FileStore} {d : DataDirectory} {name : String} {interval : Nat}

/-- The line that a store remembers is that of the record in its file, whatever it went through. -/
theorem Reached.kept (h : Reached before d name interval s files) :
    s.Kept files ∧ s.path = d.recordPath name ∧ s.interval = max interval 1 := by
  induction h with
  | load loaded => exact kept_of_load loaded
  | change _ c ih => exact ⟨ih.1.change c, ih.2⟩
  | save _ saved ih =>
    obtain ⟨path, fixed⟩ := save_fixed saved
    exact ⟨ih.1.save saved, path.trans ih.2.1, fixed.trans ih.2.2⟩
  | updateLine _ line updated ih =>
    have followed := updateLine_followed updated
    obtain ⟨path, fixed⟩ := followed.fixed
    exact ⟨ih.1.followed line.toNat_lt_size followed, path.trans ih.2.1, fixed.trans ih.2.2⟩

/-! ## The saved line keeps up -/

omit [Scalar R] [LegibleScalar R] in
/-- A line that is not due is near the one that was saved. -/
theorem near_of_isDue {line : Nat} (h : s.isDue line = false) :
    ∃ saved, s.savedLine = some saved ∧ saved < line + s.interval ∧ line < saved + s.interval := by
  unfold isDue at h
  split at h
  · cases h
  · next saved remembered =>
    have far := of_decide_eq_false h
    exact ⟨saved, remembered, by omega, by omega⟩

/-- A line of a recipe that a store follows, and what was done about it. -/
structure KeepsUp (files : FileStore) (path : String) (interval line : Nat) (wrote : Bool)
    (s' : RecordStore R) (files' : FileStore) : Prop where
  current : s'.record.line = some line
  /-- The line in the file is less than the interval away. -/
  saved : ∃ saved, ApaRecord.LineIn R files' path (some saved) ∧ saved < line + interval ∧
    line < saved + interval
  told : wrote = true ↔ files' ≠ files
  /-- What was written is the record. -/
  written : wrote = true → files.write path s'.record.text.toUTF8 = (files', .ok ())

/-- Whatever a store went through that was opened on any files: when it follows a line of a recipe in
progress, then the line in the file is there and less than the interval away, and the store says
whether it wrote the file. Without a recipe in progress nothing changes. -/
theorem updateLine_keeps_up (reached : Reached before d name interval s files) (line : UInt64)
    {wrote : Bool} (updated : s.updateLine files line.toNat = (.ok wrote, s', files')) :
    (s.record.recipe.isSome →
      KeepsUp files (d.recordPath name) (max interval 1) line.toNat wrote s' files') ∧
    (s.record.recipe = none → wrote = false ∧ s' = s ∧ files' = files) := by
  obtain ⟨kept, path, fixed⟩ := reached.kept
  rw [← path, ← fixed]
  cases updateLine_followed updated with
  | idle none =>
    refine ⟨fun some => ?_, fun _ => ⟨rfl, rfl, rfl⟩⟩
    rw [none] at some
    cases some
  | saved some saved =>
    refine ⟨fun _ => ?_, fun none => by rw [none] at some; cases some⟩
    have moved : (s.atLine line.toNat).Kept files := kept.atLine line.toNat_lt_size
    have lineIn := moved.lineIn_of_save saved
    obtain ⟨written, rfl⟩ := save_eq_ok saved
    have positive : 0 < s.interval := by omega
    have other : files' ≠ files := by
      rintro rfl
      exact absurd (FileStore.write_eq_ok written).2 (Nat.ne_of_lt (Nat.lt_succ_self _))
    exact ⟨rfl, ⟨line.toNat, lineIn, by omega, by omega⟩, iff_of_true rfl other, fun _ => written⟩
  | near some near =>
    refine ⟨fun _ => ?_, fun none => by rw [none] at some; cases some⟩
    obtain ⟨saved, remembered, above, below⟩ := near_of_isDue near
    exact ⟨rfl, ⟨saved, kept.saved saved remembered, above, below⟩,
      iff_of_false Bool.false_ne_true (fun other => other rfl), nofun⟩

namespace Bench

def data : DataDirectory := ⟨"data"⟩

/-- A new frame with a recipe at its start. -/
def frame : RecordStore Float :=
  (ofRecord (data.recordPath "APA-3") 5 (.fresh "APA-3")).modify
    (ApaRecord.change · (.withRecipe "V.gc" 0))

def started : Except PersistenceError Unit × RecordStore Float × FileStore := frame.save (.empty [])

def third : Except PersistenceError Bool × RecordStore Float × FileStore :=
  started.2.1.updateLine started.2.2 3

def fifth : Except PersistenceError Bool × RecordStore Float × FileStore :=
  third.2.1.updateLine third.2.2 5

def ninth : Except PersistenceError Bool × RecordStore Float × FileStore :=
  fifth.2.1.updateLine fifth.2.2 9

/-- With an interval of five lines, the fifth line is written and the ninth is not. -/
theorem ninth_keeps_up :
    Reached (.empty []) data "APA-3" 5 fifth.2.1 fifth.2.2 ∧
      fifth.2.1.updateLine fifth.2.2 (9 : UInt64).toNat = (.ok false, ninth.2.1, ninth.2.2) ∧
      fifth.2.1.record.recipe.isSome ∧
      KeepsUp fifth.2.2 (data.recordPath "APA-3") 5 9 false ninth.2.1 ninth.2.2 := by
  have saved : started = (.ok (), started.2.1, started.2.2) :=
    Prod.ext (by decide +kernel) rfl
  have three : third = (.ok false, third.2.1, third.2.2) := Prod.ext (by decide +kernel) rfl
  have five : fifth = (.ok true, fifth.2.1, fifth.2.2) := Prod.ext (by decide +kernel) rfl
  have nine : ninth = (.ok false, ninth.2.1, ninth.2.2) := Prod.ext (by decide +kernel) rfl
  have recipe : fifth.2.1.record.recipe.isSome := by decide +kernel
  have fresh : Reached (.empty []) data "APA-3" 5 frame (.empty []) := .change (.load rfl) _
  have reached : Reached (.empty []) data "APA-3" 5 fifth.2.1 fifth.2.2 :=
    ((fresh.save saved).updateLine 3 three).updateLine 5 five
  exact ⟨reached, nine, recipe, (updateLine_keeps_up reached 9 nine).1 recipe⟩

end Bench

end RecordStore

end Winding
