import Winding.Files.Store
import Winding.Proofs.Basic

/-!
# What operations on files leave alone

A path leads to a place through directories alone, so that it leads there as long as these stay
(`FileStore.Keeps.locate`). An open file that grows changes only what is read from itself
(`FileStore.readText_append`).
-/

namespace Winding.FileStore

variable {s s' s'' : FileStore}

/-! ## Places -/

/-- The directories of the first store are directories of the second. -/
structure Keeps (s s' : FileStore) : Prop where
  current : s'.current = s.current
  directory : ∀ p, s.node? p = some .directory → s'.node? p = some .directory

namespace Keeps

theorem enter (h : s.Keeps s') {at_ p : Place} {names : List String}
    (entered : s.enter at_ names = .ok p) : s'.enter at_ names = .ok p := by
  induction names generalizing at_ with
  | nil => exact entered
  | cons name names ih =>
    unfold FileStore.enter at entered ⊢
    split at entered
    · next dot => rw [if_pos dot]; exact ih entered
    · next dot =>
      rw [if_neg dot]
      split at entered
      · next up => rw [if_pos up]; exact ih entered
      · next up =>
        rw [if_neg up]
        split at entered
        · cases entered
        · next short =>
          rw [if_neg short]
          split at entered
          · cases entered
          · cases entered
          · next directory =>
            rw [h.directory _ directory]
            exact ih entered

theorem locate (h : s.Keeps s') {path : String} {p : Place} (located : s.locate path = .ok p) :
    s'.locate path = .ok p := by
  simp only [FileStore.locate, h.current] at located ⊢
  split at located
  · cases located
  · next some =>
    rw [if_neg some]
    split at located
    · cases located
    · next clean =>
      rw [if_neg clean]
      split at located
      · cases located
      · next short =>
        rw [if_neg short]
        split at located
        · exact located
        · next last found =>
          obtain ⟨directory, entered, rest⟩ := bind_eq_ok located
          rw [h.enter entered]
          split at rest
          · next dots =>
            show (if _ then _ else _) = _
            rw [if_pos dots]
            exact h.enter rest
          · next dots =>
            show (if _ then _ else _) = _
            rw [if_neg dots]
            exact rest

end Keeps

/-! ## Finding and reading -/

theorem find_eq_ok_iff {path : String} {n : Node} :
    s.find path = .ok n ↔ ∃ p, s.locate path = .ok p ∧ s.node? p = some n ∧
      (n = .directory ∨ Files.asDirectory path = false) := by
  unfold find
  constructor
  · intro h
    obtain ⟨p, located, rest⟩ := bind_eq_ok h
    refine ⟨p, located, ?_⟩
    split at rest
    · cases rest
    · next node =>
      cases rest
      exact ⟨node, .inl rfl⟩
    · next content serial node =>
      split at rest
      · cases rest
      · next plain =>
        cases rest
        exact ⟨node, .inr (eq_false_of_ne_true plain)⟩
  · rintro ⟨p, located, node, plain⟩
    rw [located]
    simp only [bind, Except.bind, node]
    rcases n with _ | ⟨content, serial⟩
    · rfl
    · rcases plain with none | plain
      · cases none
      · rw [plain]
        rfl

theorem contains_iff {path : String} : s.contains path = true ↔ ∃ n, s.find path = .ok n := by
  unfold contains
  rcases s.find path with e | n
  · exact ⟨nofun, nofun⟩
  · exact ⟨fun _ => ⟨n, rfl⟩, fun _ => rfl⟩

theorem read_eq_ok_iff {path : String} {content : ByteArray} :
    s.read path = .ok content ↔ ∃ serial, s.find path = .ok (.file content serial) := by
  unfold read
  rcases s.find path with e | ⟨_ | ⟨old, serial⟩⟩
  · exact ⟨nofun, nofun⟩
  · exact ⟨nofun, nofun⟩
  · constructor
    · rintro ⟨⟩
      exact ⟨serial, rfl⟩
    · rintro ⟨_, ⟨⟩⟩
      rfl

theorem readText_eq_ok_iff {path text : String} :
    s.readText path = .ok text ↔
      ∃ content, s.read path = .ok content ∧ String.fromUTF8? content = some text := by
  unfold readText
  rcases s.read path with e | content
  · exact ⟨nofun, nofun⟩
  · simp only
    rcases decoded : String.fromUTF8? content with _ | text'
    · refine ⟨nofun, ?_⟩
      rintro ⟨_, ⟨⟩, found⟩
      cases decoded.symm.trans found
    · constructor
      · rintro ⟨⟩
        exact ⟨content, rfl, decoded⟩
      · rintro ⟨_, ⟨⟩, found⟩
        cases decoded.symm.trans found
        rfl

theorem contains_of_readText {path text : String} (read : s.readText path = .ok text) :
    s.contains path = true := by
  obtain ⟨content, read, -⟩ := readText_eq_ok_iff.mp read
  obtain ⟨serial, found⟩ := read_eq_ok_iff.mp read
  exact contains_iff.mpr ⟨_, found⟩

/-! ## Growing files -/

/-- A node after an open file has grown. -/
def grown (serial : Nat) (content : ByteArray) : Node → Node
  | .file old k => if k = serial then .file (old ++ content) k else .file old k
  | .directory => .directory

variable {serial : Nat} {content : ByteArray}

theorem append_nodes (s : FileStore) (serial : Nat) (content : ByteArray) :
    (s.append serial content).nodes = s.nodes.map fun a => (a.1, grown serial content a.2) := by
  refine List.map_congr_left fun a _ => ?_
  obtain ⟨q, _ | ⟨old, k⟩⟩ := a
  · rfl
  · simp only [grown]
    split
    · rfl
    · rfl

theorem node?_append (s : FileStore) (serial : Nat) (content : ByteArray) (p : Place) :
    (s.append serial content).node? p = (s.node? p).map (grown serial content) := by
  unfold node?
  rw [append_nodes]
  split
  · rfl
  · induction s.nodes with
    | nil => rfl
    | cons a nodes ih =>
      rw [List.map_cons, List.lookup_cons, List.lookup_cons]
      split
      · rfl
      · exact ih

theorem grown_directory_iff {n : Node} : grown serial content n = .directory ↔ n = .directory := by
  rcases n with _ | ⟨old, k⟩
  · exact ⟨fun _ => rfl, fun _ => rfl⟩
  · simp only [grown]
    split
    · exact ⟨nofun, nofun⟩
    · exact ⟨nofun, nofun⟩

theorem node?_append_directory {p : Place} :
    (s.append serial content).node? p = some .directory ↔ s.node? p = some .directory := by
  rw [node?_append]
  rcases s.node? p with _ | n
  · exact ⟨nofun, nofun⟩
  · rw [Option.map_some, Option.some_inj, Option.some_inj]
    exact grown_directory_iff

/-- A growing file changes no directory. -/
theorem append_keeps (s : FileStore) (serial : Nat) (content : ByteArray) :
    s.Keeps (s.append serial content) :=
  ⟨rfl, fun _ => node?_append_directory.mpr⟩

theorem keeps_of_append (s : FileStore) (serial : Nat) (content : ByteArray) :
    (s.append serial content).Keeps s :=
  ⟨rfl, fun _ => node?_append_directory.mp⟩

/-- Growing changes no directory in either direction, so that no path leads to another place. -/
theorem locate_append {path : String} {p : Place} :
    (s.append serial content).locate path = .ok p ↔ s.locate path = .ok p :=
  ⟨(s.keeps_of_append serial content).locate, (s.append_keeps serial content).locate⟩

/-- A file that is not the one that grows is read as before. -/
theorem readText_append {path text : String} (read : s.readText path = .ok text)
    (apart : ∀ old k, s.find path = .ok (.file old k) → k ≠ serial) :
    (s.append serial content).readText path = .ok text := by
  obtain ⟨old, read, decoded⟩ := readText_eq_ok_iff.mp read
  obtain ⟨k, found⟩ := read_eq_ok_iff.mp read
  obtain ⟨p, located, node, plain⟩ := find_eq_ok_iff.mp found
  have node' : (s.append serial content).node? p = some (.file old k) := by
    rw [node?_append, node, Option.map_some, grown, if_neg (apart old k found)]
  have found' : (s.append serial content).find path = .ok (.file old k) :=
    find_eq_ok_iff.mpr ⟨p, locate_append.mpr located, node', plain.imp nofun id⟩
  exact readText_eq_ok_iff.mpr ⟨old, read_eq_ok_iff.mpr ⟨k, found'⟩, decoded⟩

end Winding.FileStore
