import Winding.Proofs.Gcode.Calls
import Winding.Proofs.Gcode.Feeds

/-!
# What the reader accepts

Every line that is read is well formed: its feed is above zero, at most one of its commands is a move
and that carries the feed of the line, a positioning names pins from 1, and a delay is a number that
is read as it is written (`readLine_wellFormed`). Line numbers only go up (`readLines_wellFormed`).
The numbers of a line are those of its words, so whatever holds of every word of the text holds of
them (`readLine_numbers`).
-/

namespace Winding.Gcode

/-! ## Well-formed lines -/

section WellFormed

variable {R : Type}

/-- The axes that are given. -/
def Target.values (t : Target R) : List R := t.x.toList ++ (t.y.toList ++ t.z.toList)

/-- The coordinates or the offsets of a command. -/
def Command.numbers : Command R → List R
  | .move target _ => target.values
  | .pin _ _ dx dy => [dx, dy]
  | _ => []

/-- The feed, the coordinates and the offsets of a line. -/
def Line.numbers (l : Line R) : List R := l.feed.toList ++ l.commands.flatMap Command.numbers

def Command.isMove : Command R → Bool
  | .move _ _ => true
  | _ => false

variable [Scalar R]

/-- A command that can stand on a line with this feed. Pin ordinals are kept in 32 bits. -/
def Command.WellFormed (delay : Nat → Prop) (feed : Option R) : Command R → Prop
  | .move _ f => (f == feed) = true
  | .pin front back _ _ =>
    (front.isSome ∨ back.isSome) ∧
      ∀ n, front = some n ∨ back = some n → 1 ≤ n ∧ n < Pin.ordinalLimit
  | .delay ms => delay ms
  | .seek _ | .latch _ | .head _ | .clip | .pause => True

/-- A line that can be written, with delays that meet a condition. Line numbers are kept in 32
bits. -/
structure Line.WellFormed (delay : Nat → Prop) (l : Line R) : Prop where
  number_lt : l.number < numberLimit
  feed : ∀ f ∈ l.feed, Scalar.positive f = true
  moves : l.commands.countP Command.isMove ≤ 1
  commands : ∀ c ∈ l.commands, c.WellFormed delay l.feed

end WellFormed

/-! ## Drafts -/

section Drafts

variable {R : Type}

/-- The parameters of a slot. -/
def Slot.params : Slot R → List (Word R)
  | .axes => []
  | .call _ _ params => params

/-- Whether a slot becomes a move. -/
def Slot.isMotion (s : Slot R) : Bool := s.isAxes || s.isMoveCall

/-- A draft that was gathered from words with a property. -/
structure Draft.Built (P : Word R → Prop) (d : Draft R) : Prop where
  number : ∀ n ∈ d.number, n.1 < numberLimit
  feed : ∀ f ∈ d.feed, ∃ w, P w ∧ w.value = f
  target : ∀ a ∈ d.target.values, ∃ w, P w ∧ w.value = a
  params : ∀ s ∈ d.slots, ∀ w ∈ s.params, P w
  moves : d.slots.countP Slot.isMotion ≤ 1
  /-- A slot for the move takes its place. -/
  placed : d.placed = false → d.slots.countP Slot.isMotion = 0

variable {P : Word R → Prop} {d d' : Draft R} {w : Word R}

theorem countP_attach (w : Word R) (slots : List (Slot R)) :
    (attach w slots).countP Slot.isMotion = slots.countP Slot.isMotion := by
  induction slots with
  | nil => rfl
  | cons s slots ih =>
    cases s with
    | axes => rw [attach, List.countP_cons, List.countP_cons, ih]
    | call code column params =>
      rw [attach, List.countP_cons, List.countP_cons]
      cases code <;> rfl

theorem params_attach {slots : List (Slot R)} (hw : P w) (h : ∀ s ∈ slots, ∀ v ∈ s.params, P v) :
    ∀ s ∈ attach w slots, ∀ v ∈ s.params, P v := by
  induction slots with
  | nil => exact h
  | cons s slots ih =>
    obtain ⟨first, more⟩ := List.forall_mem_cons.mp h
    cases s with
    | axes => exact List.forall_mem_cons.mpr ⟨first, ih more⟩
    | call code column params =>
      refine List.forall_mem_cons.mpr ⟨fun v hv => ?_, more⟩
      rcases List.mem_append.mp hv with old | new
      · exact first v old
      · rw [List.mem_singleton.mp new]
        exact hw

theorem mem_values_withAxis {t : Target R} {letter : Char} {a b : R}
    (h : b ∈ (Draft.withAxis t letter a).values) : b ∈ t.values ∨ b = a := by
  unfold Draft.withAxis at h
  unfold Target.values at *
  split at h
  · simp at h ⊢
    tauto
  · split at h
    · simp at h ⊢
      tauto
    · simp at h ⊢
      tauto

namespace Draft

theorem built_start : Built P (start : Draft R) :=
  ⟨nofun, nofun, nofun, nofun, Nat.zero_le 1, fun _ => rfl⟩

variable [Scalar R]

theorem Built.take (built : d.Built P) (hw : P w) (h : d.take w = .ok d') : d'.Built P := by
  cases take_eq_ok_iff.mp h with
  | number letter fresh read =>
    refine ⟨?_, built.feed, built.target, built.params, built.moves, built.placed⟩
    rintro _ ⟨⟩
    exact (Word.natBelow?_eq_some read).2
  | axis axis fresh =>
    refine ⟨built.number, built.feed, fun a ha => ?_, ?_, ?_, nofun⟩
    · rcases mem_values_withAxis ha with old | rfl
      · exact built.target a old
      · exact ⟨w, hw, rfl⟩
    · simp only
      split
      · exact built.params
      · exact List.forall_mem_cons.mpr ⟨nofun, built.params⟩
    · simp only
      split
      · exact built.moves
      · next first =>
        rw [List.countP_cons, built.placed (Bool.eq_false_iff.mpr first)]
        exact Nat.le_refl 1
  | feed letter free fresh above =>
    refine ⟨built.number, ?_, built.target, built.params, built.moves, built.placed⟩
    rintro _ ⟨⟩
    exact ⟨w, hw, rfl⟩
  | parameter opened governed =>
    refine ⟨built.number, built.feed, built.target, params_attach hw built.params, ?_, ?_⟩
    · rw [countP_attach]
      exact built.moves
    · rw [countP_attach]
      exact built.placed
  | move known fresh =>
    -- No other call is a move, and the axis words give up their place.
    have none : (d.slots.filter (!·.isAxes)).countP Slot.isMotion = 0 := by
      rw [List.countP_eq_zero]
      intro s hs motion
      obtain ⟨mem, other⟩ := List.mem_filter.mp hs
      rw [Slot.isMotion, (Bool.not_eq_true' _).mp other, Bool.false_or,
        Bool.eq_false_iff.mpr (List.any_eq_false.mp fresh s mem)] at motion
      cases motion
    refine ⟨built.number, built.feed, built.target, ?_, ?_, nofun⟩
    · exact List.forall_mem_cons.mpr ⟨nofun, fun s hs =>
        built.params s (List.mem_of_mem_filter hs)⟩
    · rw [List.countP_cons, none]
      exact Nat.le_refl 1
  | @call code known other =>
    have same : (Slot.call code w.column [] :: d.slots).countP Slot.isMotion =
        d.slots.countP Slot.isMotion := by
      rw [List.countP_cons]
      cases code
      · exact absurd rfl other
      all_goals rfl
    refine ⟨built.number, built.feed, built.target, ?_, ?_, ?_⟩
    · exact List.forall_mem_cons.mpr ⟨nofun, built.params⟩
    · rw [same]
      exact built.moves
    · rw [same]
      exact built.placed

theorem Built.foldlM {ws : List (Word R)} (built : d.Built P) (hws : ∀ w ∈ ws, P w)
    (h : ws.foldlM Draft.take d = .ok d') : d'.Built P :=
  foldlM_keeps (fun w hw _ _ built => built.take (hws w hw)) built h

end Draft

end Drafts

/-! ## Commands -/

section Commands

variable {R : Type} [Scalar R] {number : R → Prop} {code : Code} {column : Nat}
  {params : List (Word R)} {target : Target R} {feed : Option R} {c : Command R}

theorem OffsetOf.of_words {letter : Char} {a : R} (h : OffsetOf params letter a)
    (zero : number Scalar.zero) (numbers : ∀ w ∈ params, number w.value) : number a := by
  rcases h with ⟨w, hw, -, rfl⟩ | ⟨-, rfl⟩
  · exact numbers w hw
  · exact zero

/-- The numbers of a command are those of the words. -/
theorem commandOf_numbers (zero : number Scalar.zero) (numbers : ∀ w ∈ params, number w.value)
    (targets : ∀ a ∈ target.values, number a)
    (h : commandOf target feed code column params = .ok c) : ∀ a ∈ c.numbers, number a := by
  obtain ⟨-, calls⟩ := commandOf_eq_ok_iff.mp h
  cases calls with
  | move => exact targets
  | delay | latch | head | seek | clip | pause => exact nofun
  | pin front_of back_of dx_of dy_of =>
    exact List.forall_mem_cons.mpr ⟨dx_of.of_words zero numbers,
      List.forall_mem_singleton.mpr (dy_of.of_words zero numbers)⟩

variable [PlainScalar R]

/-- A call becomes a well-formed command, and only a move code becomes a move. -/
theorem commandOf_wellFormed (self : (feed == feed) = true)
    (h : commandOf target feed code column params = .ok c) :
    c.WellFormed (ReadsWhole R) feed ∧ (c.isMove = true → code = .move) := by
  obtain ⟨admits, calls⟩ := commandOf_eq_ok_iff.mp h
  cases calls with
  | move => exact ⟨self, fun _ => rfl⟩
  | delay hw letter written small =>
    have carried := Word.whole?_eq_some_iff.mpr ⟨_, written, by omega, rfl⟩
    exact ⟨readsWhole_of_read (carried.trans (congrArg some (by omega))), nofun⟩
  | latch | head | seek | clip | pause => exact ⟨trivial, nofun⟩
  | @pin front back _ _ front_of back_of =>
    refine ⟨⟨?_, ?_⟩, nofun⟩
    · have given := admits.pin_given front_of back_of
      cases front <;> cases back <;> simp at given ⊢
    · rintro n (rfl | rfl)
      · exact admits.pin_range (.inl rfl) front_of n rfl
      · exact admits.pin_range (.inr rfl) back_of n rfl

theorem Slot.command_wellFormed {s : Slot R} (self : (feed == feed) = true)
    (h : s.command target feed = .ok c) :
    c.WellFormed (ReadsWhole R) feed ∧ (c.isMove = true → s.isMotion = true) := by
  cases s with
  | axes =>
    cases h
    exact ⟨self, fun _ => rfl⟩
  | call code column params =>
    obtain ⟨wellFormed, move⟩ := commandOf_wellFormed self h
    refine ⟨wellFormed, fun isMove => ?_⟩
    rw [move isMove]
    rfl

omit [PlainScalar R] in
theorem Slot.command_numbers {s : Slot R} (zero : number Scalar.zero)
    (numbers : ∀ w ∈ s.params, number w.value) (targets : ∀ a ∈ target.values, number a)
    (h : s.command target feed = .ok c) : ∀ a ∈ c.numbers, number a := by
  cases s with
  | axes =>
    cases h
    exact targets
  | call => exact commandOf_numbers zero numbers targets h

end Commands

/-! ## Lines -/

section Lines

variable {R : Type} [Scalar R] {last : Option Nat} {source : Nat}

omit [Scalar R] in
/-- Line numbers go up and stay in 32 bits. -/
theorem lineNumber_eq_ok {given : Option (Nat × Nat)} {n : Nat}
    (small : ∀ g ∈ given, g.1 < numberLimit)
    (h : lineNumber (R := R) last given = .ok n) : n < numberLimit ∧ ∀ p ∈ last, p < n := by
  unfold lineNumber at h
  split at h
  · next m column =>
    split at h
    · split at h
      · cases h
      · cases h
        refine ⟨small _ rfl, ?_⟩
        rintro _ ⟨⟩
        omega
    · cases h
      exact ⟨small _ rfl, nofun⟩
  · split at h
    · split at h
      · cases h
        refine ⟨by assumption, ?_⟩
        rintro _ ⟨⟩
        omega
      · cases h
    · cases h
      exact ⟨by decide, nofun⟩

variable [PlainScalar R]

theorem lineOfWords_wellFormed {words : List (Word R)} {l : Line R}
    (plain : ∀ w ∈ words, w.token.IsPlain) (h : lineOfWords last source words = .ok l) :
    l.WellFormed (ReadsWhole R) ∧ ∀ p ∈ last, p < l.number := by
  have accepted : FeedAccepted l.feed := lineOfWords_hasFeed h
  obtain ⟨d, n, commands, gathered, numbered, made, rfl⟩ := lineOfWords_eq_ok h
  have built : d.Built fun w => Scalar.isNaN w.value = false :=
    Draft.built_start.foldlM (fun w hw => Token.isNaN_of_isPlain (plain w hw)) gathered
  obtain ⟨small, above⟩ := lineNumber_eq_ok built.number numbered
  have feeds : ∀ f ∈ d.feed, Scalar.isNaN f = false := by
    intro f hf
    obtain ⟨w, nan, rfl⟩ := built.feed f hf
    exact nan
  have self : (d.feed == d.feed) = true := by
    rcases given : d.feed with _ | f
    · rfl
    · exact (Bool.not_eq_false' _).mp (feeds f given)
  have each := (mapM_eq_ok_iff.mp made).imp fun s c h => Slot.command_wellFormed self h
  refine ⟨⟨small, fun f hf => ?_, ?_, fun c hc => ?_⟩, above⟩
  · exact OrderedScalar.lt_of_not_le _ _
      (OrderedScalar.isNaN_of_isFinite _ OrderedScalar.isFinite_zero) (feeds f hf) (accepted f hf)
  · calc commands.countP Command.isMove
        ≤ d.slots.reverse.countP Slot.isMotion := countP_le_of_forall₂ each fun s c h => h.2
      _ = d.slots.countP Slot.isMotion := List.countP_reverse
      _ ≤ 1 := built.moves
  · obtain ⟨s, -, h, -⟩ := exists_of_forall₂ each c hc
    exact h

omit [PlainScalar R] in
/-- What holds of zero and of the words holds of every number of the line. -/
theorem lineOfWords_numbers {number : R → Prop} {words : List (Word R)} {l : Line R}
    (zero : number Scalar.zero) (numbers : ∀ w ∈ words, number w.value)
    (h : lineOfWords last source words = .ok l) : ∀ a ∈ l.numbers, number a := by
  obtain ⟨d, n, commands, gathered, -, made, rfl⟩ := lineOfWords_eq_ok h
  have built : d.Built fun w => number w.value := Draft.built_start.foldlM numbers gathered
  have targets : ∀ a ∈ d.target.values, number a := by
    intro a ha
    obtain ⟨w, hw, rfl⟩ := built.target a ha
    exact hw
  refine List.forall_mem_append.mpr ⟨fun f hf => ?_, fun a ha => ?_⟩
  · obtain ⟨w, hw, rfl⟩ := built.feed f (Option.mem_toList.mp hf)
    exact hw
  · obtain ⟨c, hc, ha⟩ := List.mem_flatMap.mp ha
    obtain ⟨s, hs, h⟩ := exists_of_forall₂ (mapM_eq_ok_iff.mp made) c hc
    exact Slot.command_numbers zero (built.params s (List.mem_reverse.mp hs)) targets h a ha

/-- A property of the values of all words of a text, if it can be scanned. -/
def AllValues (number : R → Prop) (text : List Char) : Prop :=
  ∀ ws, scanWords 1 text = .ok ws → ∀ w ∈ ws, number w.value

theorem readLine_wellFormed {text : List Char} {l : Line R}
    (h : readLine last source text = .ok (some l)) :
    l.WellFormed (ReadsWhole R) ∧ ∀ p ∈ last, p < l.number := by
  obtain ⟨ws, scanned, made⟩ := readLine_eq_ok h
  exact lineOfWords_wellFormed (scanWords_isPlain_token scanned) made

/-- No number that is read fails to equal itself. -/
theorem readLine_isNaN {text : List Char} {l : Line R}
    (h : readLine last source text = .ok (some l)) : ∀ a ∈ l.numbers, Scalar.isNaN a = false := by
  obtain ⟨ws, scanned, made⟩ := readLine_eq_ok h
  exact lineOfWords_numbers
    (OrderedScalar.isNaN_of_isFinite _ OrderedScalar.isFinite_zero)
    (fun w hw => Token.isNaN_of_isPlain (scanWords_isPlain_token scanned w hw)) made

omit [PlainScalar R] in
theorem readLine_numbers {number : R → Prop} {text : List Char} {l : Line R}
    (zero : number Scalar.zero) (values : AllValues number text)
    (h : readLine last source text = .ok (some l)) : ∀ a ∈ l.numbers, number a := by
  obtain ⟨ws, scanned, made⟩ := readLine_eq_ok h
  exact lineOfWords_numbers zero (values ws scanned) made

omit [PlainScalar R] in
theorem readLines_numbers {number : R → Prop} {texts : List (List Char)} {ls : List (Line R)}
    (zero : number Scalar.zero) (values : ∀ text ∈ texts, AllValues number text)
    (h : readLines last source texts = .ok ls) : ∀ l ∈ ls, ∀ a ∈ l.numbers, number a := by
  intro l hl
  obtain ⟨text, ht, last, source, read⟩ := exists_readLine h hl
  exact readLine_numbers zero (values text ht) read

/-- Every line of a program is well formed and has a number above those before it. -/
theorem readLines_wellFormed {texts : List (List Char)} {ls : List (Line R)}
    (h : readLines last source texts = .ok ls) :
    (∀ l ∈ ls, l.WellFormed (ReadsWhole R) ∧ ∀ p ∈ last, p < l.number) ∧
      ls.Pairwise fun l m => l.number < m.number := by
  induction texts generalizing last source ls with
  | nil =>
    cases h
    exact ⟨nofun, .nil⟩
  | cons text texts ih =>
    obtain ⟨read, this, h⟩ := bind_eq_ok h
    cases read with
    | none => exact ih h
    | some l =>
      obtain ⟨ls', rest, e⟩ := map_eq_ok h
      cases e
      obtain ⟨wellFormed, above⟩ := readLine_wellFormed this
      obtain ⟨others, ascending⟩ := ih rest
      refine ⟨List.forall_mem_cons.mpr ⟨⟨wellFormed, above⟩, fun m hm => ⟨(others m hm).1, ?_⟩⟩,
        List.pairwise_cons.mpr ⟨fun m hm => (others m hm).2 _ rfl, ascending⟩⟩
      exact fun p hp => Nat.lt_trans (above p hp) ((others m hm).2 _ rfl)

end Lines

end Winding.Gcode
