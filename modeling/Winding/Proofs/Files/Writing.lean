import Winding.Proofs.Files.Store
import Winding.Record.Journal

/-!
# Writing files

Directories are made and files opened in such a way that everything that was there stays
(`FileStore.Extends`). A file that was written whole is found again with its content
(`FileStore.write_eq_ok`). Two files have the same serial number only if they are one
(`FileStore.Numbered`).
-/

namespace Winding

namespace FileStore

variable {s s' s'' : FileStore}

/-! ## What stays -/

/-- The second store has everything that the first has, at its place. -/
structure Extends (s s' : FileStore) : Prop where
  current : s'.current = s.current
  node : ∀ p n, s.node? p = some n → s'.node? p = some n

namespace Extends

theorem refl (s : FileStore) : s.Extends s := ⟨rfl, fun _ _ h => h⟩

theorem trans (h : s.Extends s') (h' : s'.Extends s'') : s.Extends s'' :=
  ⟨h'.current.trans h.current, fun p n node => h'.node p n (h.node p n node)⟩

theorem keeps (h : s.Extends s') : s.Keeps s' := ⟨h.current, fun p => h.node p _⟩

theorem find (h : s.Extends s') {path : String} {n : Node} (found : s.find path = .ok n) :
    s'.find path = .ok n := by
  obtain ⟨p, located, node, plain⟩ := find_eq_ok_iff.mp found
  exact find_eq_ok_iff.mpr ⟨p, h.keeps.locate located, h.node p n node, plain⟩

theorem readText (h : s.Extends s') {path text : String} (read : s.readText path = .ok text) :
    s'.readText path = .ok text := by
  obtain ⟨content, read, decoded⟩ := readText_eq_ok_iff.mp read
  obtain ⟨serial, found⟩ := read_eq_ok_iff.mp read
  exact readText_eq_ok_iff.mpr ⟨content, read_eq_ok_iff.mpr ⟨serial, h.find found⟩, decoded⟩

end Extends

/-! ## Putting a node at a place -/

variable {p q : Place} {n : Node}

theorem node?_put (h : p ≠ []) (s : FileStore) (n : Node) : (s.put p n).node? p = some n := by
  rw [node?, if_neg (by rwa [List.isEmpty_iff])]
  exact lookup_assign p n s.nodes

theorem node?_put_of_ne (h : q ≠ p) (s : FileStore) (n : Node) :
    (s.put p n).node? q = s.node? q := by
  unfold node?
  split
  · rfl
  · exact lookup_assign_of_ne h n s.nodes

theorem ne_nil_of_node?_ne_directory (h : s.node? p ≠ some .directory) : p ≠ [] := by
  rintro rfl
  exact h rfl

theorem put_extends (free : s.node? p = none) (n : Node) : s.Extends (s.put p n) := by
  refine ⟨rfl, fun q m node => ?_⟩
  have other : q ≠ p := by
    rintro rfl
    cases free.symm.trans node
  rw [node?_put_of_ne other]
  exact node

/-- Only directories lead to a place, and no directory was at the place that changed. -/
theorem put_keeps (h : s.node? p ≠ some .directory) (n : Node) : s.Keeps (s.put p n) := by
  refine ⟨rfl, fun q node => ?_⟩
  have other : q ≠ p := by
    rintro rfl
    exact h node
  rw [node?_put_of_ne other]
  exact node

/-! ## Making directories -/

theorem makeDirectory_eq_ok {path : String} (h : s.makeDirectory path = .ok s') :
    ∃ p, s.node? p = none ∧ s' = s.put p .directory := by
  obtain ⟨p, -, h⟩ := bind_eq_ok h
  split at h
  · cases h
  · next free =>
    cases h
    exact ⟨p, free, rfl⟩

/-- Directories are made beside what is there, and no file is. -/
structure Furnishes (s s' : FileStore) : Prop extends s.Extends s' where
  next : s'.next = s.next
  file : ∀ p content serial, s'.node? p = some (.file content serial) →
    s.node? p = some (.file content serial)

namespace Furnishes

theorem refl (s : FileStore) : s.Furnishes s := ⟨.refl s, rfl, fun _ _ _ h => h⟩

theorem trans (h : s.Furnishes s') (h' : s'.Furnishes s'') : s.Furnishes s'' :=
  ⟨h.toExtends.trans h'.toExtends, h'.next.trans h.next,
    fun p content serial file => h.file p content serial (h'.file p content serial file)⟩

end Furnishes

theorem makeDirectory_furnishes {path : String} (h : s.makeDirectory path = .ok s') :
    s.Furnishes s' := by
  obtain ⟨p, free, rfl⟩ := makeDirectory_eq_ok h
  refine ⟨put_extends free _, rfl, fun q content serial file => ?_⟩
  by_cases same : q = p
  · subst same
    have root : s.node? q ≠ some .directory := by rw [free]; nofun
    rw [node?_put (ne_nil_of_node?_ne_directory root)] at file
    cases file
  · rwa [node?_put_of_ne same] at file

theorem makeDirectoriesWithin_furnishes (s : FileStore) (path : String) (fuel : Nat) :
    s.Furnishes (s.makeDirectoriesWithin path fuel).1 := by
  induction fuel generalizing s path with
  | zero => exact .refl s
  | succ fuel ih =>
    unfold makeDirectoriesWithin
    split
    · exact .refl s
    · split
      · next made => exact makeDirectory_furnishes made
      · split
        · exact .refl s
        · next parent _ =>
          have above := ih s parent
          rcases within : s.makeDirectoriesWithin parent fuel with ⟨s₁, _ | fault⟩
          · rw [within] at above
            simp only
            split
            · next made => exact above.trans (makeDirectory_furnishes made)
            · split
              · exact above
              · exact above
          · rw [within] at above
            exact above
      · split
        · exact .refl s
        · exact .refl s

theorem makeDirectories_furnishes (s : FileStore) (path : String) :
    s.Furnishes (s.makeDirectories path).1 :=
  s.makeDirectoriesWithin_furnishes path _

/-! ## Opening and writing files -/

/-- An open file is the file at the path, or a new one that is empty. -/
theorem openAppend_eq_ok {path : String} {serial : Nat}
    (h : s.openAppend path = .ok (s', serial)) :
    ∃ p, s.locate path = .ok p ∧
      ((∃ content, s.node? p = some (.file content serial) ∧ s' = s) ∨
        s.node? p = none ∧ serial = s.next ∧ s' = s.putFile p .empty) := by
  obtain ⟨p, located, h⟩ := bind_eq_ok h
  refine ⟨p, located, ?_⟩
  split at h
  · cases h
  · next content serial node =>
    cases h
    exact .inl ⟨content, node, rfl⟩
  · next free =>
    split at h
    · cases h
    · cases h
      exact .inr ⟨free, rfl, rfl⟩

theorem openAppend_extends {path : String} {serial : Nat}
    (h : s.openAppend path = .ok (s', serial)) : s.Extends s' := by
  obtain ⟨p, -, ⟨-, -, rfl⟩ | ⟨free, -, rfl⟩⟩ := openAppend_eq_ok h
  · exact .refl _
  · exact ⟨rfl, (put_extends free _).node⟩

theorem replace_eq_ok {path : String} {content : ByteArray} (h : s.replace path content = .ok s') :
    ∃ p, s.locate path = .ok p ∧ Files.asDirectory path = false ∧
      s.node? p ≠ some .directory ∧ s' = s.putFile p content := by
  obtain ⟨p, located, h⟩ := bind_eq_ok h
  refine ⟨p, located, ?_⟩
  rcases plain : Files.asDirectory path with _ | _
  · rw [plain, if_neg Bool.false_ne_true] at h
    split at h
    · cases h
    · next other =>
      cases h
      exact ⟨rfl, other, rfl⟩
  · rw [plain, if_pos rfl] at h
    cases h

/-- A file that was written whole is found with its content, and under a new serial number. -/
theorem write_eq_ok {path : String} {content : ByteArray}
    (h : s.write path content = (s', .ok ())) :
    s'.find path = .ok (.file content s.next) ∧ s'.next = s.next + 1 := by
  unfold write at h
  have furnished := s.makeDirectories_furnishes (workplace path)
  rcases made : s.makeDirectories (workplace path) with ⟨s₁, _ | fault⟩
  · simp only [made] at h furnished
    split at h
    · next s₂ replaced =>
      cases h
      obtain ⟨p, located, plain, other, rfl⟩ := replace_eq_ok replaced
      have keeps : s₁.Keeps (s₁.putFile p content) :=
        ⟨rfl, (put_keeps other (.file content s₁.next)).directory⟩
      -- The directories above the file used up no serial number.
      rw [← furnished.next]
      refine ⟨find_eq_ok_iff.mpr ⟨p, keeps.locate located, ?_, .inr plain⟩, rfl⟩
      exact node?_put (ne_nil_of_node?_ne_directory other) s₁ _
    · cases h
  · simp only [made] at h
    cases h

/-! ## Serial numbers -/

/-- Every file has its own serial number, and no file has the next one yet. -/
structure Numbered (s : FileStore) : Prop where
  below : ∀ p content serial, s.node? p = some (.file content serial) → serial < s.next
  unique : ∀ p q old new serial, s.node? p = some (.file old serial) →
    s.node? q = some (.file new serial) → p = q

theorem empty_numbered (current : Place) : (FileStore.empty current).Numbered := by
  have none (p : Place) (content : ByteArray) (serial : Nat) :
      (FileStore.empty current).node? p ≠ some (.file content serial) := by
    intro node
    unfold node? at node
    split at node
    · cases node
    · obtain ⟨front, back, e, -⟩ := List.lookup_eq_some_iff.mp node
      have there : (p, Node.file content serial) ∈ (FileStore.empty current).nodes := by
        rw [e]
        exact List.mem_append_right _ List.mem_cons_self
      obtain ⟨i, -, e⟩ := List.mem_map.mp there
      cases e
  exact ⟨fun p content serial file => absurd file (none p content serial),
    fun p q old new serial file => absurd file (none p old serial)⟩

namespace Numbered

variable (h : s.Numbered)
include h

theorem putDirectory (there : p ≠ []) : (s.put p .directory).Numbered := by
  have old (q : Place) (content : ByteArray) (serial : Nat)
      (file : (s.put p .directory).node? q = some (.file content serial)) :
      s.node? q = some (.file content serial) := by
    have other : q ≠ p := by
      rintro rfl
      cases (node?_put there s .directory).symm.trans file
    rwa [node?_put_of_ne other] at file
  exact ⟨fun q content serial file => h.below q content serial (old _ _ _ file),
    fun q q' content content' serial file file' =>
      h.unique q q' content content' serial (old _ _ _ file) (old _ _ _ file')⟩

/-- A file that is put at a place has a number of its own. -/
theorem putFile (there : p ≠ []) (content : ByteArray) : (s.putFile p content).Numbered := by
  have new : (s.putFile p content).node? p = some (.file content s.next) := node?_put there s _
  have old {q : Place} (other : q ≠ p) : (s.putFile p content).node? q = s.node? q :=
    node?_put_of_ne other s _
  have below (q : Place) (other : q ≠ p) (c : ByteArray) (serial : Nat)
      (file : (s.putFile p content).node? q = some (.file c serial)) : serial < s.next :=
    h.below q c serial ((old other).symm.trans file)
  constructor
  · intro q c serial file
    by_cases same : q = p
    · subst same
      cases new.symm.trans file
      exact Nat.lt_succ_self _
    · exact Nat.lt_succ_of_lt (below q same c serial file)
  · intro q q' c c' serial file file'
    -- A file at one of the two places alone would have a number below the new one.
    by_cases same : q = p
    · by_cases same' : q' = p
      · rw [same, same']
      · subst same
        cases new.symm.trans file
        exact absurd (below q' same' c' _ file') (Nat.lt_irrefl _)
    · by_cases same' : q' = p
      · subst same'
        cases new.symm.trans file'
        exact absurd (below q same c _ file) (Nat.lt_irrefl _)
      · exact h.unique q q' c c' serial ((old same).symm.trans file) ((old same').symm.trans file')

end Numbered

theorem Furnishes.numbered (h : s.Furnishes s') (numbered : s.Numbered) : s'.Numbered where
  below p content serial file := h.next ▸ numbered.below p content serial (h.file _ _ _ file)
  unique p q old new serial file file' :=
    numbered.unique p q old new serial (h.file _ _ _ file) (h.file _ _ _ file')

end FileStore

/-- Opening a journal leaves everything that was there. -/
theorem Journal.openAt_extends {files files' : FileStore} {path : String} {journal : Journal}
    (h : Journal.openAt files path = (files', .ok journal)) : files.Extends files' := by
  unfold openAt at h
  have furnished := files.makeDirectories_furnishes ((Files.parent? path).getD "")
  rcases made : files.makeDirectories ((Files.parent? path).getD "") with ⟨files₁, _ | fault⟩
  · rw [made] at h furnished
    simp only at h
    split at h
    · cases h
    · next opened =>
      cases h
      exact furnished.toExtends.trans (FileStore.openAppend_extends opened)
  · rw [made] at h
    cases h

/-! ## Paths -/

namespace Files

theorem splitSlashes_append (cs : List Char) {c : Char} (h : c ≠ '/') :
    ∃ (names : List (List Char)) (last : List Char),
      splitSlashes (cs ++ [c]) = names ++ [last ++ [c]] := by
  induction cs with
  | nil => exact ⟨[], [], by rw [List.nil_append, splitSlashes, if_neg h]; rfl⟩
  | cons d cs ih =>
    obtain ⟨names, last, e⟩ := ih
    rw [List.cons_append, splitSlashes, e]
    split
    · exact ⟨[] :: names, last, rfl⟩
    · cases names with
      | nil => exact ⟨[], d :: last, rfl⟩
      | cons name names => exact ⟨(d :: name) :: names, last, rfl⟩

/-- The last name along a path ends as the path does. -/
theorem getLast?_names {path : String} {cs : List Char} {c : Char} (e : path.toList = cs ++ [c])
    (h : c ≠ '/') : ∃ last, (names path).getLast? = some (String.ofList (last ++ [c])) := by
  obtain ⟨front, last, split⟩ := splitSlashes_append cs h
  refine ⟨last, ?_⟩
  have there : [last ++ [c]].filter (!·.isEmpty) = [last ++ [c]] := by
    rw [List.filter_eq_self]
    intro name hn
    simp [List.mem_singleton.mp hn]
  rw [names, e, split, List.filter_append, there, List.map_append, List.getLast?_append]
  rfl

/-- A joined path ends with the path that was joined. -/
theorem join_ends (base path : String) : ∃ front, join base path = front ++ path := by
  unfold join
  split
  · exact ⟨"", (String.empty_append).symm⟩
  · split
    · exact ⟨base, rfl⟩
    · exact ⟨base ++ "/", rfl⟩

end Files

namespace FileStore

variable {s : FileStore} {p q : Place} {path path' : String} {cs cs' : List Char} {c c' : Char}

theorem locate_ends (e : path.toList = cs ++ [c]) (slash : c ≠ '/') (dot : c ≠ '.')
    (located : s.locate path = .ok p) :
    ∃ last, p.getLast? = some (String.ofList (last ++ [c])) := by
  obtain ⟨last, ends⟩ := Files.getLast?_names e slash
  refine ⟨last, ?_⟩
  -- The last name is not made of dots, which would make the path lead to a directory above.
  have dots {dots : String} (h : dots.toList.getLast? = some '.') :
      String.ofList (last ++ [c]) ≠ dots := by
    rintro rfl
    rw [String.toList_ofList, List.getLast?_append] at h
    exact dot (Option.some.inj h)
  simp only [locate] at located
  split at located
  · cases located
  · split at located
    · cases located
    · split at located
      · cases located
      · rw [ends] at located
        obtain ⟨directory, -, rest⟩ := bind_eq_ok located
        split at rest
        · next h =>
          rw [Bool.or_eq_true, decide_eq_true_iff, decide_eq_true_iff] at h
          rcases h with h | h
          · exact absurd h (dots rfl)
          · exact absurd h (dots rfl)
        · split at rest
          · cases rest
          · cases rest
            rw [List.getLast?_append]
            rfl

/-- Paths that end differently lead to different places. -/
theorem locate_ne (e : path.toList = cs ++ [c]) (e' : path'.toList = cs' ++ [c'])
    (slash : c ≠ '/' ∧ c' ≠ '/') (dot : c ≠ '.' ∧ c' ≠ '.') (h : c ≠ c')
    (located : s.locate path = .ok p) (located' : s.locate path' = .ok q) : p ≠ q := by
  rintro rfl
  obtain ⟨last, ends⟩ := locate_ends e slash.1 dot.1 located
  obtain ⟨last', ends'⟩ := locate_ends e' slash.2 dot.2 located'
  have same := String.ofList_injective (Option.some.inj (ends.symm.trans ends'))
  exact h (List.append_inj_right' same rfl |> List.singleton_inj.mp)

end FileStore

end Winding
