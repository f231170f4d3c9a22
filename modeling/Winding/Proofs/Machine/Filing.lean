import Winding.Machine.Commands
import Winding.Machine.Control
import Winding.Proofs.Basic

/-!
# What is filed

Much of what the machine does only writes the record and the journal. Either the progress in the
record is left as it is (`Machine.Noted`), or it is brought up to what has run of the session
(`Machine.Synced`). A mode is changed between two notes (`Machine.transition_eq_ok`).
-/

namespace Winding

variable {R : Type}

/-! ## Outcomes -/

namespace Outcome

variable {α β : Type}

theorem andThen_eq_ok {o : Outcome R α} {rest : α → Machine R → Outcome R β} {b : β}
    {m' : Machine R} (h : o.andThen rest = (.ok b, m')) :
    ∃ a m, o = (.ok a, m) ∧ rest a m = (.ok b, m') := by
  obtain ⟨e | a, m⟩ := o
  · cases h
  · exact ⟨a, m, rfl, h⟩

theorem as_eq_ok {o : Outcome R α} {b b' : β} {m' : Machine R} (h : o.as b = (.ok b', m')) :
    ∃ a, o = (.ok a, m') ∧ b = b' := by
  obtain ⟨a, m, rfl, e⟩ := andThen_eq_ok h
  obtain ⟨eb, rfl⟩ := Prod.mk.inj e
  exact ⟨a, rfl, Except.ok.inj eb⟩

theorem as_snd (o : Outcome R α) (b : β) : (o.as b).2 = o.2 := by
  obtain ⟨e | a, m⟩ := o <;> rfl

end Outcome

/-! ## Filing -/

namespace RecordStore

variable [Scalar R]

/-- Saving does not change the record. -/
theorem save_record (s : RecordStore R) (files : FileStore) :
    (s.save files).2.1.record = s.record := by
  unfold save
  split <;> rfl

/-- The record follows the line of a recipe in progress. -/
theorem updateLine_record (s : RecordStore R) (files : FileStore) (line : Nat) :
    (s.updateLine files line).2.1.record =
      if s.record.recipe.isNone then s.record else { s.record with line := some line } := by
  rw [updateLine_eq]
  split
  · rfl
  · split
    · rw [save_record, modify]
    · rfl

end RecordStore

/-- Following a line of the recipe is a save of the moved record, when the line is due. -/
theorem Machine.persisted_updateLine [Scalar R] (m : Machine R) (line : Nat) :
    m.persisted (m.records.updateLine m.files line) =
      if m.record.recipe.isNone then (.ok false, m)
      else
        let moved := m.withRecord fun r => { r with line := some line }
        if m.records.isDue line then moved.save.as true else (.ok false, moved) := by
  rw [RecordStore.updateLine_eq]
  change _ = if m.records.record.recipe.isNone then _ else _
  split
  · rfl
  · simp only [save, withRecord]
    split
    · generalize (m.records.modify fun r => { r with line := some line }).save m.files = saved
      obtain ⟨e | ⟨⟨⟩⟩, records, files⟩ := saved
      · rfl
      · rfl
    · rfl

/-- Both records are at the same stage, with the same recipe, line and lengths. -/
def ApaRecord.SameProgress (r r' : ApaRecord R) : Prop :=
  r'.wound = r.wound ∧ r'.recipe = r.recipe ∧ r'.line = r.line ∧ r'.stage = r.stage

/-- Both records have the same progress. -/
theorem ApaRecord.SameProgress.refl (r : ApaRecord R) : r.SameProgress r := ⟨rfl, rfl, rfl, rfl⟩

theorem ApaRecord.SameProgress.trans {r r' r'' : ApaRecord R} (h : r.SameProgress r')
    (h' : r'.SameProgress r'') : r.SameProgress r'' := by
  obtain ⟨wound, recipe, line, stage⟩ := h
  obtain ⟨wound', recipe', line', stage'⟩ := h'
  exact ⟨wound'.trans wound, recipe'.trans recipe, line'.trans line, stage'.trans stage⟩

/-- The second record comes of the first when it is brought up to date at least once. -/
inductive ApaRecord.Updates (update : ApaRecord R → ApaRecord R) (r : ApaRecord R) :
    ApaRecord R → Prop
  | once {r₁ r₂ : ApaRecord R} (before : r.SameProgress r₁)
      (after : (update r₁).SameProgress r₂) : Updates update r r₂
  | again {r₁ r₂ : ApaRecord R} (updates : Updates update r r₁)
      (after : (update r₁).SameProgress r₂) : Updates update r r₂

namespace ApaRecord.Updates

variable {update : ApaRecord R → ApaRecord R} {r r₁ r₂ : ApaRecord R}

theorem same (h : Updates update r r₁) (same : r₁.SameProgress r₂) : Updates update r r₂ := by
  cases h with
  | once before after => exact .once before (after.trans same)
  | again updates after => exact .again updates (after.trans same)

theorem of_same (same : r.SameProgress r₁) (h : Updates update r₁ r₂) : Updates update r r₂ := by
  induction h with
  | once before after => exact .once (same.trans before) after
  | again _ after ih => exact .again ih after

theorem trans (h : Updates update r r₁) (h' : Updates update r₁ r₂) : Updates update r r₂ := by
  induction h' with
  | once before after => exact .again (h.same before) after
  | again _ after ih => exact .again ih after

/-- What every update keeps is kept. -/
theorem keeps {β : Type} {f : ApaRecord R → β} (h : Updates update r r₁)
    (same : ∀ r r', r.SameProgress r' → f r' = f r) (keeps : ∀ r, f (update r) = f r) :
    f r₁ = f r := by
  induction h with
  | once before after => exact (same _ _ after).trans ((keeps _).trans (same _ _ before))
  | again _ after ih => exact (same _ _ after).trans ((keeps _).trans ih)

end ApaRecord.Updates

/-- Raising a length leaves the recipe in progress. -/
theorem ApaRecord.raise_recipe [Scalar R] (r : ApaRecord R) (layer : String) (length : R) :
    (r.raise layer length).2.recipe = r.recipe := by
  unfold raise
  split <;> rfl

namespace Machine

/-! ### Notes -/

/-- The machines differ only in the record and the files, and the progress in the record is the
same. -/
def Noted (m m' : Machine R) : Prop :=
  ∃ records files, m' = { m with records := records, files := files } ∧
    m.records.record.SameProgress records.record

variable {m m' m'' : Machine R}

theorem Noted.refl (m : Machine R) : m.Noted m := ⟨m.records, m.files, rfl, .refl _⟩

theorem Noted.trans (h : m.Noted m') (h' : m'.Noted m'') : m.Noted m'' := by
  obtain ⟨_, _, rfl, same⟩ := h
  obtain ⟨records, files, rfl, same'⟩ := h'
  exact ⟨records, files, rfl, same.trans same'⟩

theorem note_noted (m : Machine R) (source kind message : String)
    (params : List (String × String)) : m.Noted (m.note source kind message params) :=
  ⟨m.records, _, rfl, .refl _⟩

theorem withRecord_noted (m : Machine R) {change : ApaRecord R → ApaRecord R}
    (h : m.records.record.SameProgress (change m.records.record)) :
    m.Noted (m.withRecord change) :=
  ⟨_, m.files, rfl, h⟩

variable [Scalar R]

theorem save_noted (m : Machine R) : m.Noted m.save.2 := by
  refine ⟨_, _, rfl, ?_⟩
  rw [RecordStore.save_record]
  exact .refl _

theorem save_eq_ok (h : m.save = (.ok (), m')) : m.Noted m' := by
  have noted := m.save_noted
  rwa [h] at noted

/-! ### Progress -/

/-- The record when it is brought up to what has run of the session. -/
def synced (m : Machine R) (r : ApaRecord R) : ApaRecord R :=
  match m.executor.session with
  | none => r
  | some s => rewound m.executor.committedLine? (r.raise s.layer m.woundLength).2

theorem synced_stage (m : Machine R) (r : ApaRecord R) : (m.synced r).stage = r.stage := by
  unfold synced
  split
  · rfl
  · unfold rewound ApaRecord.raise
    split <;> split <;> rfl

theorem synced_recipe (m : Machine R) (r : ApaRecord R) : (m.synced r).recipe = r.recipe := by
  unfold synced
  split
  · rfl
  · unfold rewound
    split
    · exact r.raise_recipe ..
    · exact r.raise_recipe ..

/-- The machines differ only in the record and the files, and the record was brought up to what has
run of the session. -/
def Synced (m m' : Machine R) : Prop :=
  ∃ records files, m' = { m with records := records, files := files } ∧
    m.record.Updates m.synced records.record

/-- The frame is at the same stage. -/
theorem Synced.stage (h : m.Synced m') : m'.record.stage = m.record.stage := by
  obtain ⟨records, files, rfl, updates⟩ := h
  exact updates.keeps (fun _ _ same => same.2.2.2) m.synced_stage

theorem Synced.trans (h : m.Synced m') (h' : m'.Synced m'') : m.Synced m'' := by
  obtain ⟨_, _, rfl, updates⟩ := h
  obtain ⟨records, files, rfl, updates'⟩ := h'
  exact ⟨records, files, rfl, updates.trans updates'⟩

theorem Synced.noted (h : m.Synced m') (h' : m'.Noted m'') : m.Synced m'' := by
  obtain ⟨_, _, rfl, updates⟩ := h
  obtain ⟨records, files, rfl, same⟩ := h'
  exact ⟨records, files, rfl, updates.same same⟩

theorem Noted.synced (h : m.Noted m') (h' : m'.Synced m'') : m.Synced m'' := by
  obtain ⟨_, _, rfl, same⟩ := h
  obtain ⟨records, files, rfl, updates⟩ := h'
  exact ⟨records, files, rfl, updates.of_same same⟩

omit [Scalar R] in
/-- A record follows the line of a recipe in progress. -/
theorem rewound_some (line : Nat) (r : ApaRecord R) :
    rewound (some line) r = if r.recipe.isNone then r else { r with line := some line } := by
  unfold rewound
  rcases r.recipe with _ | recipe <;> rfl

/-- A recipe in progress is brought up to the first line that has not run. -/
theorem synced_eq {s : Session R} {line : Nat} {r : ApaRecord R}
    (session : m.executor.session = some s) (committed : m.executor.committedLine? = some line)
    (recipe : r.recipe.isSome) :
    m.synced r = { (r.raise s.layer m.woundLength).2 with line := some line } := by
  have present : ¬(r.raise s.layer m.woundLength).2.recipe.isNone = true := by
    rw [r.raise_recipe, Option.isNone_iff_eq_none]
    exact Option.isSome_iff_ne_none.mp recipe
  simp only [synced, session, committed, rewound_some, if_neg present]

theorem syncProgress_synced (m : Machine R) : m.Synced m.syncProgress.2 := by
  rcases session : m.executor.session with _ | s
  · have idle : m.syncProgress = (.ok (), m) := by rw [syncProgress, session]
    have same : m.synced m.record = m.record := by rw [synced, session]
    rw [idle]
    exact ⟨m.records, m.files, rfl, .once (.refl _) (same.symm ▸ .refl _)⟩
  · obtain ⟨line, committed⟩ : ∃ line, m.executor.committedLine? = some line :=
      ⟨_, by rw [Executor.committedLine?, session]; rfl⟩
    have raised : (m.raiseWound s.layer).executor.committedLine? = some line := committed
    have updated : m.synced m.record =
        ((m.raiseWound s.layer).records.updateLine m.files line).2.1.record := by
      rw [RecordStore.updateLine_record, ← rewound_some, synced, session, committed]
      rfl
    rw [syncProgress, session]
    simp only [raised]
    rw [Outcome.as_snd]
    exact ⟨_, _, rfl, .once (.refl _) (updated ▸ .refl _)⟩

theorem syncProgress_eq_ok (h : m.syncProgress = (.ok (), m')) : m.Synced m' := by
  have synced := m.syncProgress_synced
  rwa [h] at synced

/-! ## Changing modes -/

/-- A mode is left, and the next one entered after some notes. -/
theorem transition_eq_ok {next : Mode} (h : m.transition next = (.ok (), m'))
    (ne : next ≠ m.mode) :
    ∃ m₁ m₂, m.leave = (.ok (), m₁) ∧ m₁.Noted m₂ ∧
      m' = ({ m₂ with mode := next } : Machine R).enter next := by
  rw [transition, if_neg ne] at h
  obtain ⟨_, m₁, left, h⟩ := Outcome.andThen_eq_ok h
  obtain ⟨_, m₂, saved, h⟩ := Outcome.andThen_eq_ok h
  obtain rfl := (Prod.mk.inj h).2
  exact ⟨m₁, _, left, (save_eq_ok saved).trans (note_noted ..), rfl⟩

/-- The second machine is the first after it went over to the mode that was asked for, if any. -/
def GoesOver (m : Machine R) (next : Option Mode) (m' : Machine R) : Prop :=
  match next with
  | none => m' = m
  | some mode => m.transition mode = (.ok (), m')

/-- A period is its work, and then the change of mode that the work asks for. -/
theorem tick_eq_ok (h : m.tick = (.ok (), m')) :
    ∃ next m₁, m.update = (.ok next, m₁) ∧ m₁.GoesOver next m' := by
  obtain ⟨next, m₁, updated, h⟩ := Outcome.andThen_eq_ok h
  refine ⟨next, m₁, updated, ?_⟩
  rcases next with _ | mode
  · exact (Prod.mk.inj h).2.symm
  · exact h

/-- A mode is entered from stop. -/
theorem transition_of_stop {next : Mode} (h : m.transition next = (.ok (), m'))
    (mode : m.mode = .stop) (ne : next ≠ .stop) :
    ∃ m₁, m.Noted m₁ ∧ m' = ({ m₁ with mode := next } : Machine R).enter next := by
  obtain ⟨m₁, m₂, left, noted, e⟩ := transition_eq_ok h (mode ▸ ne)
  rw [leave, mode] at left
  cases left
  exact ⟨m₂, noted, e⟩

end Machine

end Winding
