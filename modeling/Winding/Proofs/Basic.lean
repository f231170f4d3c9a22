import Mathlib.Data.List.Basic
import Mathlib.Data.List.Forall2

/-!
# Results and lists

Facts about results that may be errors, and about lists of numbers.
-/

namespace Winding

theorem bind_eq_ok {ε α β : Type} {a : Except ε α} {rest : α → Except ε β} {b : β}
    (h : a >>= rest = .ok b) : ∃ v, a = .ok v ∧ rest v = .ok b := by
  rcases a with e | v
  · cases h
  · exact ⟨v, rfl, h⟩

theorem bind_eq_error {ε α β : Type} {a : Except ε α} {rest : α → Except ε β} {e : ε}
    (h : a >>= rest = .error e) : a = .error e ∨ ∃ v, a = .ok v ∧ rest v = .error e := by
  rcases a with e' | v
  · cases h
    exact .inl rfl
  · exact .inr ⟨v, rfl, h⟩

theorem mapError_eq_ok {ε ε' α : Type} {f : ε → ε'} {a : Except ε α} {v : α}
    (h : a.mapError f = .ok v) : a = .ok v := by
  rcases a with e | w
  · cases h
  · cases h
    rfl

theorem map_eq_ok {ε α β : Type} {f : α → β} {a : Except ε α} {b : β} (h : f <$> a = .ok b) :
    ∃ v, a = .ok v ∧ f v = b := by
  rcases a with e | v
  · cases h
  · exact ⟨v, rfl, Except.ok.inj h⟩

theorem map_eq_error {ε α β : Type} {f : α → β} {a : Except ε α} {e : ε}
    (h : f <$> a = .error e) : a = .error e := by
  rcases a with e' | v
  · cases h
    rfl
  · cases h

theorem mapError_eq_error {ε ε' α : Type} {f : ε → ε'} {a : Except ε α} {e' : ε'}
    (h : a.mapError f = .error e') : ∃ e, a = .error e ∧ e' = f e := by
  rcases a with e | v
  · cases h
    exact ⟨e, rfl, rfl⟩
  · cases h

/-- A list is mapped without an error exactly if each of its elements is. -/
theorem mapM_eq_ok_iff {ε α β : Type} {f : α → Except ε β} {l : List α} {k : List β} :
    l.mapM f = .ok k ↔ List.Forall₂ (fun a b => f a = .ok b) l k := by
  induction l generalizing k with
  | nil =>
    rw [List.mapM_nil]
    constructor
    · rintro ⟨⟩
      exact .nil
    · rintro ⟨⟩
      rfl
  | cons a l ih =>
    rw [List.mapM_cons]
    constructor
    · intro h
      obtain ⟨b, first, h⟩ := bind_eq_ok h
      obtain ⟨bs, more, h⟩ := bind_eq_ok h
      cases h
      exact .cons first (ih.mp more)
    · rintro (_ | ⟨first, more⟩)
      rw [first, ih.mpr more]
      rfl

/-- Every element on the right stands beside one on the left. -/
theorem exists_of_forall₂ {α β : Type} {R : α → β → Prop} {l : List α} {k : List β}
    (h : List.Forall₂ R l k) : ∀ b ∈ k, ∃ a ∈ l, R a b := by
  induction h with
  | nil => exact nofun
  | cons first _ ih =>
    refine List.forall_mem_cons.mpr ⟨⟨_, List.mem_cons_self, first⟩, fun b hb => ?_⟩
    obtain ⟨a, ha, related⟩ := ih b hb
    exact ⟨a, List.mem_cons_of_mem _ ha, related⟩

/-- Where every element can stand beside something, a list can stand beside a list. -/
theorem exists_forall₂ {α β : Type} {R : α → β → Prop} {l : List α} (h : ∀ a ∈ l, ∃ b, R a b) :
    ∃ k, List.Forall₂ R l k := by
  induction l with
  | nil => exact ⟨[], .nil⟩
  | cons a l ih =>
    obtain ⟨⟨b, first⟩, more⟩ := List.forall_mem_cons.mp h
    obtain ⟨k, rest⟩ := ih more
    exact ⟨b :: k, .cons first rest⟩

/-- A list ends with an error exactly at the first element that does. -/
theorem mapM_eq_error_iff {ε α β : Type} {f : α → Except ε β} {l : List α} {e : ε} :
    l.mapM f = .error e ↔ ∃ before a after, l = before ++ a :: after ∧
      (∀ a' ∈ before, ∃ b, f a' = .ok b) ∧ f a = .error e := by
  constructor
  · intro h
    induction l with
    | nil => cases h
    | cons a l ih =>
      rw [List.mapM_cons] at h
      rcases bind_eq_error h with first | ⟨b, first, h⟩
      · exact ⟨[], a, l, rfl, nofun, first⟩
      · rcases bind_eq_error h with more | ⟨bs, -, h⟩
        · obtain ⟨before, a', after, rfl, accepted, failed⟩ := ih more
          exact ⟨a :: before, a', after, rfl, List.forall_mem_cons.mpr ⟨⟨b, first⟩, accepted⟩,
            failed⟩
        · cases h
  · rintro ⟨before, a, after, rfl, accepted, failed⟩
    obtain ⟨bs, more⟩ := exists_forall₂ accepted
    rw [List.mapM_append, mapM_eq_ok_iff.mpr more, List.mapM_cons, failed]
    rfl

/-- The error of a list is that of one of its elements. -/
theorem mapM_eq_error {ε α β : Type} {f : α → Except ε β} {l : List α} {e : ε}
    (h : l.mapM f = .error e) : ∃ a ∈ l, f a = .error e := by
  obtain ⟨before, a, after, rfl, -, failed⟩ := mapM_eq_error_iff.mp h
  exact ⟨a, List.mem_append_cons_self, failed⟩

theorem countP_le_of_forall₂ {α β : Type} {R : α → β → Prop} {p : α → Bool} {q : β → Bool}
    {l : List α} {k : List β} (h : List.Forall₂ R l k)
    (imp : ∀ a b, R a b → q b = true → p a = true) : k.countP q ≤ l.countP p := by
  induction h with
  | nil => exact Nat.le_refl 0
  | @cons a b l k first _ ih =>
    rw [List.countP_cons, List.countP_cons]
    have := imp a b first
    split
    · next holds =>
      rw [if_pos (this holds)]
      omega
    · omega

/-- What every step keeps holds after all of them. -/
theorem foldlM_keeps {ε α β : Type} {f : β → α → Except ε β} {P : β → Prop} {l : List α} {b b' : β}
    (step : ∀ a ∈ l, ∀ v v', P v → f v a = .ok v' → P v') (start : P b)
    (h : l.foldlM f b = .ok b') : P b' := by
  induction l generalizing b with
  | nil =>
    cases h
    exact start
  | cons a l ih =>
    obtain ⟨first, more⟩ := List.forall_mem_cons.mp step
    obtain ⟨v, made, rest⟩ := bind_eq_ok h
    exact ih more (first b v start made) rest

/-- The error of steps is that of one of them, at what the steps before it lead to. -/
theorem foldlM_eq_error_iff {ε α β : Type} {f : β → α → Except ε β} {l : List α} {b : β} {e : ε} :
    l.foldlM f b = .error e ↔ ∃ before a after v, l = before ++ a :: after ∧
      before.foldlM f b = .ok v ∧ f v a = .error e := by
  constructor
  · intro h
    induction l generalizing b with
    | nil => cases h
    | cons a l ih =>
      rcases bind_eq_error h with first | ⟨v, first, rest⟩
      · exact ⟨[], a, l, b, rfl, rfl, first⟩
      · obtain ⟨before, a', after, w, rfl, steps, refused⟩ := ih rest
        refine ⟨a :: before, a', after, w, rfl, ?_, refused⟩
        rw [List.foldlM_cons, first]
        exact steps
  · rintro ⟨before, a, after, v, rfl, steps, refused⟩
    rw [List.foldlM_append, steps]
    show (a :: after).foldlM f v = _
    rw [List.foldlM_cons, refused]
    rfl

theorem eq_ok_of_toOption {ε α : Type} {a : Except ε α} {v : α} (h : a.toOption = some v) :
    a = .ok v := by
  rcases a with e | w
  · cases h
  · exact congrArg Except.ok (Option.some.inj h)

/-- What is written element by element is read element by element. -/
theorem mapM_map_eq_some {α β : Type} {write : α → β} {read : β → Option α} {l : List α}
    (h : ∀ a ∈ l, read (write a) = some a) : (l.map write).mapM read = some l := by
  induction l with
  | nil => rfl
  | cons a l ih =>
    rw [List.map_cons, List.mapM_cons, h a List.mem_cons_self,
      ih fun b hb => h b (List.mem_cons_of_mem a hb)]
    rfl

/-- A part of a list that is taken as long as a condition holds, where it stops to hold after it. -/
theorem takeWhile_append_stop {α : Type} {p : α → Bool} {l r : List α}
    (holds : ∀ a ∈ l, p a = true) (stop : ∀ a ∈ r.head?, p a = false) :
    (l ++ r).takeWhile p = l ∧ (l ++ r).dropWhile p = r := by
  rw [List.takeWhile_append_of_pos holds, List.dropWhile_append_of_pos holds]
  rcases r with _ | ⟨a, r⟩
  · exact ⟨List.append_nil l, rfl⟩
  · rw [List.takeWhile_cons, List.dropWhile_cons, stop a rfl]
    exact ⟨List.append_nil l, rfl⟩

/-- Where every element is written with something, there are no more elements than are written. -/
theorem length_le_length_flatMap {α β : Type} {f : α → List β} (some : ∀ a, f a ≠ [])
    (l : List α) : l.length ≤ (l.flatMap f).length := by
  induction l with
  | nil => exact Nat.zero_le _
  | cons a l ih =>
    have first : 0 < (f a).length := List.length_pos_iff.mpr (some a)
    rw [List.flatMap_cons, List.length_append, List.length_cons]
    omega

theorem fromUTF8?_toUTF8 (text : String) : String.fromUTF8? text.toUTF8 = some text := by
  unfold String.fromUTF8?
  split
  · rfl
  · next invalid => exact absurd text.isValidUTF8 invalid

/-- A suffix of a list with one more element is that element alone, or a suffix with one more
element. -/
theorem cons_suffix_concat {α : Type} {a b : α} {l k : List α} (h : a :: l <:+ k ++ [b]) :
    l = [] ∧ a = b ∨ ∃ m, l = m ++ [b] ∧ a :: m <:+ k := by
  rcases List.suffix_concat_iff.mp h with none | ⟨m, e, part⟩
  · cases none
  · rcases m with _ | ⟨c, m⟩
    · exact .inl ⟨(List.cons.inj e).2, (List.cons.inj e).1⟩
    · obtain ⟨rfl, rfl⟩ := List.cons.inj e
      exact .inr ⟨m, rfl, part⟩

/-- An element of a list with one more element is that element, or one of the list. -/
theorem concat_eq_append_cons {α : Type} {a b c : List α} {x y : α}
    (h : a ++ [x] = b ++ y :: c) :
    (c = [] ∧ a = b ∧ x = y) ∨ ∃ d, c = d ++ [x] ∧ a = b ++ y :: d := by
  rcases List.eq_nil_or_concat c with rfl | ⟨d, z, rfl⟩
  · obtain ⟨same, last⟩ := List.append_inj' h rfl
    exact .inl ⟨rfl, same, (List.cons.inj last).1⟩
  · rw [List.concat_eq_append, ← List.cons_append, ← List.append_assoc] at h
    obtain ⟨same, last⟩ := List.append_inj' h rfl
    obtain rfl := (List.cons.inj last).1
    exact .inr ⟨d, List.concat_eq_append, same⟩

/-- The last element of a list stands behind all that come before it. -/
theorem append_singleton_eq_append_cons {α : Type} {a b c : List α} {x y : α}
    (h : a ++ [x] = b ++ y :: c) (other : y ∉ a) : c = [] ∧ a = b ∧ x = y := by
  rcases concat_eq_append_cons h with last | ⟨d, -, rfl⟩
  · exact last
  · exact absurd (List.mem_append_right b List.mem_cons_self) other

theorem filter_lt_range' {s n i : Nat} (start_le : s ≤ i) (le : i ≤ s + n) :
    (List.range' s n).filter (fun k => k < i) = List.range' s (i - s) := by
  have split : List.range' s n = List.range' s (i - s) ++ List.range' i (s + n - i) := by
    have := List.range'_append_1 (s := s) (m := i - s) (n := s + n - i)
    rw [show s + (i - s) = i by omega, show i - s + (s + n - i) = n by omega] at this
    exact this.symm
  rw [split, List.filter_append, List.filter_eq_self.mpr, List.filter_eq_nil_iff.mpr,
    List.append_nil]
  · intro k hk
    have := List.mem_range'_1.mp hk
    simp only [decide_eq_true_eq]
    omega
  · intro k hk
    have := List.mem_range'_1.mp hk
    simp only [decide_eq_true_eq]
    omega

end Winding
