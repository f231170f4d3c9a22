import Winding.Planning.Pose

/-!
# The sides of the head and the latch

A primitive changes the sides of the head and the latch only when it turns one of them
(`Primitive.turns`). A head move is refused exactly when it crosses the frame, from the side that is
planned, outside the transfer area (`Pose.headChange_eq_error`).
-/

namespace Winding

variable {R : Type}

/-- Whether a primitive turns the head or the latch. -/
def Primitive.turns : Primitive R → Bool
  | .head .. | .latch _ => true
  | .move .. | .seek .. | .dwell _ | .pause => false

namespace Pose

/-- The head and the latch are at the same sides. -/
def SameSides (p p' : Pose R) : Prop := p.head = p'.head ∧ p.latch = p'.latch

instance (p p' : Pose R) : Decidable (p.SameSides p') := inferInstanceAs (Decidable (_ ∧ _))

variable {pose p p' p'' : Pose R}

theorem SameSides.refl (p : Pose R) : p.SameSides p := ⟨rfl, rfl⟩

theorem SameSides.trans (h : p.SameSides p') (h' : p'.SameSides p'') : p.SameSides p'' :=
  ⟨h.1.trans h'.1, h.2.trans h'.2⟩

variable [Scalar R]

/-- The pose after primitives have run. -/
def afterAll (pose : Pose R) (ps : List (Primitive R)) : Pose R := ps.foldl after pose

theorem afterAll_append (pose : Pose R) (ps qs : List (Primitive R)) :
    pose.afterAll (ps ++ qs) = (pose.afterAll ps).afterAll qs :=
  List.foldl_append

/-- A primitive has the same effect on the sides whatever else the pose is. -/
theorem SameSides.after (h : p.SameSides p') (a : Primitive R) :
    (p.after a).SameSides (p'.after a) := by
  cases a with
  | move | seek | dwell | pause => exact h
  | latch side => exact ⟨h.1, rfl⟩
  | head side z => exact ⟨rfl, h.2⟩

theorem after_sameSides {a : Primitive R} (still : a.turns = false) (pose : Pose R) :
    (pose.after a).SameSides pose := by
  cases a with
  | move | seek | dwell | pause => exact .refl pose
  | latch | head => cases still

/-- Without a turn the sides stay. -/
theorem afterAll_sameSides {ps : List (Primitive R)} (still : ∀ a ∈ ps, a.turns = false)
    (pose : Pose R) : (pose.afterAll ps).SameSides pose := by
  induction ps generalizing pose with
  | nil => exact .refl pose
  | cons a ps ih =>
    obtain ⟨first, rest⟩ := List.forall_mem_cons.mp still
    exact (ih rest (pose.after a)).trans (after_sameSides first pose)

theorem travel_sameSides {env : Envelope R} {target : Location R}
    (h : pose.travel env target = .ok p) : p.SameSides pose := by
  unfold travel at h
  split at h
  · cases h
  · cases h
    exact .refl pose

/-- A head move goes to the depth of its side; it crosses the frame only in the transfer area, and
takes wire only then. -/
theorem headChange_eq_ok {env : Envelope R} {side : Side} {z wire : R}
    (changed : pose.headChange env side = .ok (z, wire)) : z = env.head.z side ∧
      (side.crosses pose.head = false ∧ wire = Scalar.zero ∨
        side.crosses pose.head = true ∧ env.transfer.inArea pose.position = true ∧
          wire = Scalar.abs (env.head.z side - env.head.z pose.head)) := by
  unfold headChange at changed
  simp only at changed
  split at changed
  · next stays =>
    cases changed
    exact ⟨rfl, .inl ⟨by simpa using stays, rfl⟩⟩
  · next crosses =>
    split at changed
    · cases changed
    · next within =>
      cases changed
      exact ⟨rfl, .inr ⟨by simpa using crosses, by simpa using within, rfl⟩⟩

/-- A head move is refused when it crosses the frame outside the transfer area. -/
theorem headChange_eq_error (env : Envelope R) (pose : Pose R) (side : Side) :
    (∃ e, pose.headChange env side = .error e) ↔
      side.crosses pose.head = true ∧ env.transfer.inArea pose.position = false := by
  unfold headChange
  simp only
  cases side.crosses pose.head <;> cases env.transfer.inArea pose.position <;> simp

end Pose

end Winding
