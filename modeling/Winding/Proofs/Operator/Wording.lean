import Winding.Operator.Command
import Winding.Proofs.Basic
import Winding.Proofs.Text.OneLine

/-!
# In what words a line is refused

An error of a line repeats at most one of its words, and words are on one line. So an operator is
told on one line why a line is no command (`Operator.Command.oneLine_ofText`), and a recipe that is
loaded is named on one line (`Operator.Command.named_of_ofText`).
-/

namespace Winding

theorem newline_notMem_lowerAscii {cs : List Char} (h : '\n' ∉ cs) : '\n' ∉ lowerAscii cs := by
  intro newline
  obtain ⟨c, inside, lower⟩ := List.mem_map.mp newline
  by_cases upper : c.isUpper
  · have later := Char.isLower_toLower_eq_isAlpha c
    rw [lower, Char.isAlpha, upper] at later
    cases later
  · rw [Char.toLower_eq_of_not_isUpper upper] at lower
    exact h (lower ▸ inside)

namespace Operator

/-- Why a reader refuses is told on one line. -/
def CommandError.Inline {α : Type} (read : Except CommandError α) : Prop :=
  ∀ e, read = .error e → OneLine e.message

namespace CommandError.Inline

theorem ok {α : Type} {a : α} : Inline (.ok a) := nofun

theorem error {α : Type} {e : CommandError} (h : OneLine e.message) :
    Inline (.error e : Except CommandError α) := by
  rintro _ ⟨⟩
  exact h

theorem bind {α β : Type} {read : Except CommandError α} {next : α → Except CommandError β}
    (h : Inline read) (rest : ∀ a, Inline (next a)) : Inline (read >>= next) := by
  intro e failed
  rcases bind_eq_error failed with failed | ⟨a, -, failed⟩
  · exact h e failed
  · exact rest a e failed

/-- An error that repeats a word between two others. -/
theorem quoted {α : Type} {e : CommandError} {before word after : String} (h : OneLine word)
    (message : e.message = before ++ word ++ after) (hb : OneLine before) (ha : OneLine after) :
    Inline (.error e : Except CommandError α) :=
  error (message ▸ (hb.append h).append ha)

end CommandError.Inline

namespace Command

open CommandError (Inline)

variable {R : Type} [Scalar R] {word name : String} {words : List String} {c : Command R}
  {e : CommandError}

/-! ## Arguments -/

theorem number_inline (h : OneLine word) : Inline (number (R := R) word) := by
  unfold number
  split
  · split
    · exact .ok
    · exact .quoted h rfl (by decide) (by decide)
  · exact .quoted h rfl (by decide) (by decide)

theorem velocity_inline (h : OneLine word) : Inline (velocity (R := R) word) := by
  refine (number_inline h).bind fun v => ?_
  split
  · exact .quoted h rfl (by decide) (by decide)
  · exact .ok

theorem side_inline (h : OneLine word) : Inline (side word) := by
  unfold side
  split
  · exact .ok
  · exact .quoted h rfl (by decide) (by decide)

theorem pin_inline (h : OneLine word) : Inline (pin word) := by
  unfold pin
  split
  · exact .ok
  · exact .quoted h rfl (by decide) (by decide)

theorem line_inline (h : OneLine word) : Inline (line word) := by
  unfold line
  split
  · exact .ok
  · exact .quoted h rfl (by decide) (by decide)

omit [Scalar R] in
theorem alone_inline (h : OneLine name) : Inline (alone name c words) := by
  unfold alone
  split
  · exact .ok
  · exact .error (.append (by decide) h)

theorem jogOf_inline (h : ∀ word ∈ words, OneLine word) : Inline (jogOf (R := R) words) := by
  unfold jogOf
  split
  · simp only [List.forall_mem_cons] at h
    obtain ⟨x, y, z, -⟩ := h
    exact (number_inline x).bind fun _ => (number_inline y).bind fun _ =>
      (number_inline z).bind fun _ => .ok
  · simp only [List.forall_mem_cons] at h
    obtain ⟨x, y, z, v, -⟩ := h
    exact (number_inline x).bind fun _ => (number_inline y).bind fun _ =>
      (number_inline z).bind fun _ => (velocity_inline v).bind fun _ => .ok
  · exact .error (by decide)

omit [Scalar R] in
theorem loadOf_inline (h : ∀ word ∈ words, OneLine word) : Inline (loadOf (R := R) words) := by
  unfold loadOf
  split
  · exact .ok
  · next word => exact (line_inline (h word (by simp))).bind fun _ => .ok
  · exact .error (by decide)

/-! ## Commands -/

theorem ofName_inline (hn : OneLine name) (h : ∀ word ∈ words, OneLine word) :
    Inline (ofName (R := R) name words) := by
  have first {word : String} (one : words = [word]) : OneLine word := h word (by simp [one])
  unfold ofName
  split
  iterate 4 exact alone_inline (by decide)
  · exact jogOf_inline h
  · exact loadOf_inline h
  iterate 2
    split
    · exact (side_inline (first rfl)).bind fun _ => .ok
    · exact .error (by decide)
  · split
    · exact (pin_inline (first rfl)).bind fun _ => .ok
    · exact .error (by decide)
  · exact .quoted hn rfl (by decide) (by decide)

theorem jogOf_ne_load {recipe : String} {line : Option Nat} :
    jogOf (R := R) words ≠ .ok (.load recipe line) := by
  intro h
  unfold jogOf at h
  split at h
  · obtain ⟨_, -, h⟩ := bind_eq_ok h
    obtain ⟨_, -, h⟩ := bind_eq_ok h
    obtain ⟨_, -, h⟩ := bind_eq_ok h
    cases h
  · obtain ⟨_, -, h⟩ := bind_eq_ok h
    obtain ⟨_, -, h⟩ := bind_eq_ok h
    obtain ⟨_, -, h⟩ := bind_eq_ok h
    obtain ⟨_, -, h⟩ := bind_eq_ok h
    cases h
  · cases h

/-- The recipe that is loaded is one of the words. -/
theorem mem_of_ofName_load {recipe : String} {line : Option Nat}
    (h : ofName (R := R) name words = .ok (.load recipe line)) : recipe ∈ words := by
  unfold ofName at h
  split at h
  iterate 4
    unfold alone at h
    split at h
    · cases h
    · cases h
  · exact absurd h jogOf_ne_load
  · unfold loadOf at h
    split at h
    · cases h
      exact List.mem_cons_self
    · obtain ⟨_, -, h⟩ := bind_eq_ok h
      cases h
      exact List.mem_cons_self
    · cases h
  iterate 3
    split at h
    · obtain ⟨_, -, h⟩ := bind_eq_ok h
      cases h
    · cases h
  · cases h

theorem oneLine_of_mem_words {cs : List Char} (h : word ∈ (wordsOf cs).map String.ofList) :
    OneLine word := by
  obtain ⟨word, inside, rfl⟩ := List.mem_map.mp h
  exact oneLine_ofList.mpr (newline_notMem_of_mem_wordsOf inside)

/-- Why a line is no command is told on one line. -/
theorem oneLine_ofText {text : String} (failed : ofText (R := R) text = .error e) :
    OneLine e.message := by
  unfold ofText at failed
  have words (word : String) :
      word ∈ (wordsOf text.toList).map String.ofList → OneLine word := oneLine_of_mem_words
  rcases cut : wordsOf text.toList with _ | ⟨name, arguments⟩
  · rw [cut] at failed
    cases failed
    decide
  · rw [cut] at failed words
    have first : '\n' ∉ name := newline_notMem_of_mem_wordsOf (cut ▸ List.mem_cons_self)
    exact ofName_inline (oneLine_ofList.mpr (newline_notMem_lowerAscii first))
      (fun word mem => words word (List.mem_cons_of_mem _ mem)) e failed

/-- A recipe that the command loads is named on one line. -/
def Named (c : Command R) : Prop := ∀ recipe line, c = .load recipe line → OneLine recipe

theorem named_of_ofText {text : String} (h : ofText text = .ok c) : c.Named := by
  rintro recipe line rfl
  unfold ofText at h
  have words (word : String) :
      word ∈ (wordsOf text.toList).map String.ofList → OneLine word := oneLine_of_mem_words
  rcases cut : wordsOf text.toList with _ | ⟨name, arguments⟩
  · rw [cut] at h
    cases h
  · rw [cut] at h words
    exact words recipe (List.mem_cons_of_mem _ (mem_of_ofName_load h))

end Command

end Operator

end Winding
