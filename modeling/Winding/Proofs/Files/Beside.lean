import Winding.Files.DataDirectory
import Winding.Proofs.Files.Writing

/-!
# A file beside the journal

The journal stays open while other files are written. As long as a file is not the open one, entries
in the journal leave it as it is, and it stays another file when it is written anew
(`FileStore.Holds`). After the data directory was prepared, opening the journal makes no directory
(`DataDirectory.openAt_eq_ok`).
-/

namespace Winding

namespace FileStore

variable {s s' : FileStore} {path : String}

/-! ## Directories that are there -/

theorem isDirectory_iff : s.isDirectory path = true ↔ s.find path = .ok .directory := by
  unfold isDirectory
  split
  · next found => exact ⟨fun _ => found, fun _ => rfl⟩
  · next other => exact ⟨nofun, fun found => absurd found other⟩

theorem makeDirectories_of_isDirectory (h : s.isDirectory path = true) :
    s.makeDirectories path = (s, none) := by
  obtain ⟨p, located, node, -⟩ := find_eq_ok_iff.mp (isDirectory_iff.mp h)
  have taken : s.makeDirectory path = .error .alreadyExists := by
    rw [makeDirectory, located]
    simp only [bind, Except.bind, node]
  rw [makeDirectories, makeDirectoriesWithin, taken]
  simp only [h, if_true, ite_self]

theorem isDirectory_of_makeDirectory (h : s.makeDirectory path = .ok s') :
    s'.isDirectory path = true := by
  obtain ⟨p, located, h⟩ := bind_eq_ok h
  split at h
  · cases h
  · next free =>
    cases h
    have there : p ≠ [] := ne_nil_of_node?_ne_directory (by rw [free]; nofun)
    have keeps := (put_extends free .directory).keeps
    exact isDirectory_iff.mpr (find_eq_ok_iff.mpr
      ⟨p, keeps.locate located, node?_put there s _, .inl rfl⟩)

/-- A directory that was made is there. -/
theorem isDirectory_of_makeDirectories (named : path ≠ "")
    (h : s.makeDirectories path = (s', none)) : s'.isDirectory path = true := by
  have empty : path.isEmpty = false := by
    rw [Bool.eq_false_iff]
    exact fun empty => named (String.isEmpty_iff.mp empty)
  rw [makeDirectories, makeDirectoriesWithin, empty, if_neg Bool.false_ne_true] at h
  split at h
  · next made =>
    cases h
    exact isDirectory_of_makeDirectory made
  · split at h
    · cases h
    · split at h
      · cases h
      · split at h
        · next made =>
          cases h
          exact isDirectory_of_makeDirectory made
        · split at h
          · next there =>
            cases h
            exact there
          · cases h
  · split at h
    · next there =>
      cases h
      exact there
    · cases h

theorem Extends.isDirectory (h : s.Extends s') (there : s.isDirectory path = true) :
    s'.isDirectory path = true :=
  isDirectory_iff.mpr (h.find (isDirectory_iff.mp there))

/-! ## A file that is not open -/

/-- The file at a path, if there is one, is not the open file, and has a content with this property.
The open file has its serial number already. -/
structure Holds (s : FileStore) (path : String) (opened : Nat) (P : ByteArray → Prop) : Prop where
  given : opened < s.next
  file : ∀ content serial, s.find path = .ok (.file content serial) → serial ≠ opened ∧ P content

namespace Holds

variable {opened : Nat} {P Q : ByteArray → Prop}

theorem mono (h : s.Holds path opened P) (imp : ∀ content, P content → Q content) :
    s.Holds path opened Q :=
  ⟨h.given, fun content serial found =>
    ⟨(h.file content serial found).1, imp content (h.file content serial found).2⟩⟩

/-- Only the open file grows. -/
theorem append (h : s.Holds path opened P) (entry : ByteArray) :
    (s.append opened entry).Holds path opened P := by
  refine ⟨h.given, fun content serial found => ?_⟩
  obtain ⟨p, located, node, plain⟩ := find_eq_ok_iff.mp found
  rw [node?_append] at node
  obtain ⟨n, node, grew⟩ := Option.map_eq_some_iff.mp node
  rcases n with _ | ⟨old, k⟩
  · cases grew
  · have before : s.find path = .ok (.file old k) :=
      find_eq_ok_iff.mpr ⟨p, locate_append.mp located, node, .inr (plain.resolve_left nofun)⟩
    obtain ⟨other, property⟩ := h.file old k before
    rw [grown, if_neg other] at grew
    cases grew
    exact ⟨other, property⟩

/-- A file that is written anew is another file than the open one. -/
theorem write (h : s.Holds path opened P) {content : ByteArray}
    (written : s.write path content = (s', .ok ())) :
    s'.Holds path opened (· = content) := by
  obtain ⟨found, next⟩ := write_eq_ok written
  refine ⟨next ▸ Nat.lt_succ_of_lt h.given, fun content' serial found' => ?_⟩
  cases found.symm.trans found'
  exact ⟨Nat.ne_of_gt h.given, rfl⟩

/-- The file may be removed, and other files may change. -/
theorem spared (h : s.Holds path opened P) (next : s.next ≤ s'.next)
    (same : ∀ content serial, s'.find path = .ok (.file content serial) →
      s.find path = .ok (.file content serial)) : s'.Holds path opened P :=
  ⟨Nat.lt_of_lt_of_le h.given next, fun content serial found =>
    h.file content serial (same content serial found)⟩

end Holds

/-- A file that was put in a free place leads nowhere. -/
theorem keeps_of_putFile {p : Place} (free : s.node? p = none) (content : ByteArray) :
    (s.putFile p content).Keeps s := by
  refine ⟨rfl, fun q node => ?_⟩
  have there : p ≠ [] := ne_nil_of_node?_ne_directory (by rw [free]; nofun)
  have other : q ≠ p := by
    rintro rfl
    cases (node?_put there s (.file content s.next)).symm.trans node
  exact (node?_put_of_ne other s _).symm.trans node

/-- A file is not the one that is opened for appending at another place. -/
theorem openAppend_holds {log : String} {serial : Nat} {P : ByteArray → Prop}
    (numbered : s.Numbered)
    (apart : ∀ p q, s'.locate path = .ok p → s'.locate log = .ok q → p ≠ q)
    (held : ∀ content k, s.find path = .ok (.file content k) → P content)
    (h : s.openAppend log = .ok (s', serial)) : s'.Holds path serial P := by
  have extended := openAppend_extends h
  obtain ⟨q, log, ⟨old, node, rfl⟩ | ⟨free, rfl, rfl⟩⟩ := openAppend_eq_ok h
  -- A file that was there shares its number with no other place; a new one has a new number.
  · refine ⟨numbered.below q old serial node, fun content k found => ⟨?_, held content k found⟩⟩
    rintro rfl
    obtain ⟨p, located, node', -⟩ := find_eq_ok_iff.mp found
    exact apart p q located log (numbered.unique p q content old k node' node)
  · refine ⟨Nat.lt_succ_self s.next, fun content k found => ?_⟩
    obtain ⟨p, located, node, plain⟩ := find_eq_ok_iff.mp found
    have other := apart p q located (extended.keeps.locate log)
    have before : s.node? p = some (.file content k) :=
      (node?_put_of_ne other s (.file .empty s.next)).symm.trans node
    have found : s.find path = .ok (.file content k) :=
      find_eq_ok_iff.mpr ⟨p, (keeps_of_putFile free .empty).locate located, before, plain⟩
    exact ⟨Nat.ne_of_lt (numbered.below p content k before), held content k found⟩

end FileStore

/-! ## Opening the journal -/

namespace DataDirectory

variable {d : DataDirectory} {files files' : FileStore}

theorem makeAll_furnishes {paths : List String}
    (h : makeAll files paths = (files', .ok ())) : files.Furnishes files' := by
  induction paths generalizing files with
  | nil =>
    cases h
    exact .refl _
  | cons path paths ih =>
    have furnished := files.makeDirectories_furnishes path
    unfold makeAll at h
    split at h
    · cases h
    · next made =>
      rw [made] at furnished
      exact furnished.trans (ih h)

theorem isDirectory_of_makeAll {paths : List String} (h : makeAll files paths = (files', .ok ()))
    {path : String} (hp : path ∈ paths) (named : path ≠ "") : files'.isDirectory path = true := by
  induction paths generalizing files with
  | nil => cases hp
  | cons first paths ih =>
    unfold makeAll at h
    split at h
    · cases h
    · next made =>
      rcases List.mem_cons.mp hp with rfl | later
      · exact (makeAll_furnishes h).toExtends.isDirectory
          (FileStore.isDirectory_of_makeDirectories named made)
      · exact ih h later

theorem parent?_logPath (d : DataDirectory) :
    Files.parent? d.logPath = some (Files.join d.root "logs") := by
  -- A path is taken apart from its end, of which only the root is not known.
  obtain ⟨front, joined⟩ := Files.join_ends d.root "logs"
  have ends : (front ++ "logs").toList = front.toList ++ ['l', 'o', 'g', 's'] :=
    String.toList_append
  have path : d.logPath = front ++ "logs" ++ "/" ++ "system.log" := by
    have some : (front ++ "logs").isEmpty = false := by
      rw [Bool.eq_false_iff]
      intro empty
      rw [String.isEmpty_iff.mp empty] at ends
      simp at ends
    have last : (front ++ "logs").toList.getLast? ≠ Option.some '/' := by
      rw [ends, List.getLast?_append]
      show Option.some 's' ≠ Option.some '/'
      decide
    rw [logPath, joined, Files.join, some, if_neg (by decide), if_neg last]
  have chars : d.logPath.toList.reverse =
      "system.log".toList.reverse ++ '/' :: 's' :: 'g' :: 'o' :: 'l' :: front.toList.reverse := by
    rw [path, String.toList_append, String.toList_append, ends]
    simp
  have named : Files.dropNothing d.logPath.toList.reverse = d.logPath.toList.reverse := by
    rw [chars]
    rfl
  have dropped : Files.dropNothing ('/' :: 's' :: 'g' :: 'o' :: 'l' :: front.toList.reverse) =
      's' :: 'g' :: 'o' :: 'l' :: front.toList.reverse := rfl
  have same : String.ofList ('s' :: 'g' :: 'o' :: 'l' :: front.toList.reverse).reverse =
      front ++ "logs" := by
    rw [← String.toList_inj, ends, String.toList_ofList]
    simp
  rw [Files.parent?, named, chars, joined, ← same, ← dropped]
  rfl

/-- Once the data directory was prepared, opening the journal makes at most its file. -/
theorem openAt_eq_ok {journal : Journal} {files'' : FileStore}
    (prepared : d.prepare files = (files', .ok ()))
    (opened : Journal.openAt files' d.logPath = (files'', .ok journal)) :
    files'.openAppend d.logPath = .ok (files'', journal.serial) := by
  have named : Files.join d.root "logs" ≠ "" := by
    obtain ⟨front, joined⟩ := Files.join_ends d.root "logs"
    rw [joined, ne_eq, ← String.toList_inj, String.toList_append]
    simp
  have there := isDirectory_of_makeAll prepared
    (List.mem_map_of_mem (by decide : "logs" ∈ ["APA", "calibration", "logs", "recipes"])) named
  rw [Journal.openAt, parent?_logPath] at opened
  simp only [Option.getD_some, FileStore.makeDirectories_of_isDirectory there] at opened
  split at opened
  · cases opened
  · next appended =>
    cases opened
    exact appended

/-- The record of a frame is another file than the journal. -/
theorem openAt_holds {journal : Journal} {files'' : FileStore} {P : ByteArray → Prop}
    (name : String) (numbered : files.Numbered)
    (prepared : d.prepare files = (files', .ok ()))
    (held : ∀ content k, files'.find (d.recordPath name) = .ok (.file content k) → P content)
    (opened : Journal.openAt files' d.logPath = (files'', .ok journal)) :
    files''.Holds (d.recordPath name) journal.serial P := by
  refine FileStore.openAppend_holds ((makeAll_furnishes prepared).numbered numbered) ?_ held
    (openAt_eq_ok prepared opened)
  intro p q located located'
  obtain ⟨front, record⟩ := Files.join_ends (Files.join d.root "APA") (name ++ ".xml")
  obtain ⟨front', log⟩ := Files.join_ends (Files.join d.root "logs") "system.log"
  have ends : (d.recordPath name).toList =
      (front.toList ++ (name.toList ++ ['.', 'x', 'm'])) ++ ['l'] := by
    rw [recordPath, record, String.toList_append, String.toList_append]
    simp
  have ends' : d.logPath.toList =
      (front'.toList ++ ['s', 'y', 's', 't', 'e', 'm', '.', 'l', 'o']) ++ ['g'] := by
    rw [logPath, log, String.toList_append]
    simp
  exact FileStore.locate_ne ends ends' ⟨by decide, by decide⟩ ⟨by decide, by decide⟩ (by decide)
    located located'

end DataDirectory

end Winding
