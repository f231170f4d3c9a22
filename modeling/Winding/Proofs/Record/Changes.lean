import Winding.Proofs.Record.RoundTrip

/-!
# Records after any changes

A record starts as that of a frame that was never wound and goes through changes
(`ApaRecord.Change`). Every change keeps it well formed, so that it is read back from its text
whatever it went through (`ApaRecord.changeAll_reloads`).
-/

namespace Winding.ApaRecord

/-- A change to a record. Lines are counted in 64 bits, and times are those that a clock shows. -/
inductive Change (R : Type) where
  | raise (layer : String) (length : R)
  | withRecipe (recipe : String) (line : UInt64)
  | withoutRecipe
  | advance
  | withFault (time : {t : Timestamp // t.IsShown}) (kind message : String) (line : Option UInt64)

variable {R : Type} [Scalar R]

/-- The record after a change. -/
def change (r : ApaRecord R) : Change R → ApaRecord R
  | .raise layer length => (r.raise layer length).2
  | .withRecipe recipe line => r.withRecipe recipe line.toNat
  | .withoutRecipe => r.withoutRecipe
  | .advance => r.advance
  | .withFault time kind message line => r.withFault time kind message (line.map UInt64.toNat)

/-- The record after changes, one after the other. -/
def changeAll (r : ApaRecord R) (changes : List (Change R)) : ApaRecord R := changes.foldl change r

/-- The line of a fault is counted in 64 bits. -/
theorem faultLine_lt {line : Option UInt64} : ∀ l ∈ line.map UInt64.toNat, l < lineLimit := by
  intro l counted
  obtain ⟨line, -, rfl⟩ := Option.mem_map.mp counted
  exact line.toNat_lt_size

variable [LegibleScalar R] {r : ApaRecord R}

/-- A change keeps a record well formed. -/
theorem WellFormed.change (h : r.WellFormed) (c : Change R) : (r.change c).WellFormed := by
  cases c with
  | raise layer length => exact h.raise layer length
  | withRecipe recipe line => exact h.withRecipe recipe line.toNat_lt_size
  | withoutRecipe => exact h.withoutRecipe
  | advance => exact h.advance
  | withFault time kind message line => exact h.withFault time.property kind message faultLine_lt

/-- Any changes keep a record well formed. -/
theorem WellFormed.changeAll (h : r.WellFormed) (changes : List (Change R)) :
    (r.changeAll changes).WellFormed := by
  induction changes generalizing r with
  | nil => exact h
  | cons c changes ih => exact ih (h.change c)

/-- Whatever a record went through, and whatever its texts are, it is read back from its text as it
was. -/
theorem changeAll_reloads (name : String) (changes : List (Change R)) :
    ofText ((fresh name).changeAll changes).text = .ok ((fresh name).changeAll changes) :=
  ((WellFormed.fresh name).changeAll changes).ofText_text

/-- A record of machine numbers with texts that hold markup, quotes, blanks at their ends and no
characters at all. -/
theorem awkward_reloads :
    let r : ApaRecord Float := (fresh " <A & \"B\"> ").changeAll
      [.advance, .raise "X'" 18321.25, .raise "X'" 12, .withRecipe " a&b.gc " 1204,
        .withFault ⟨⟨2024, 2, 29, 23, 59, 58, 120⟩, by decide, by decide⟩ "" "\n<>" (some 7),
        .withoutRecipe]
    ofText r.text = .ok r :=
  changeAll_reloads _ _

end Winding.ApaRecord
