import Winding.Proofs.Controller.Telling
import Winding.Proofs.Machine.Handling

/-!
# Commands that are refused for their limits

Replies are told apart by their first letters (`Avoids`). So a command is answered with what is said
of limits only where it is a jog at a velocity that cannot be used, or a start that repeats the
status of the controller (`Machine.RefusesLimits.of_usable`). No error of the controller is told
like that, so a machine whose status tells nothing else refuses only jogs
(`Machine.RefusesLimits.not_of_told`).
-/

namespace Winding

open Operator

variable {R : Type} [Scalar R]

/-! ## First letters -/

/-- A text begins with another letter. -/
def Avoids (letter : Char) (text : String) : Prop := text.toList.head?.any (· ≠ letter) = true

instance (letter : Char) (text : String) : Decidable (Avoids letter text) :=
  inferInstanceAs (Decidable (_ = _))

theorem Avoids.append {letter : Char} {s : String} (h : Avoids letter s) (t : String) :
    Avoids letter (s ++ t) := by
  unfold Avoids at h ⊢
  rw [String.toList_append]
  cases cut : s.toList with
  | nil =>
    rw [cut] at h
    cases h
  | cons c cs =>
    rw [cut] at h
    exact h

/-- What is said of limits that are refused. -/
def limitsMessage (v : R) : String := PlanError.message (.invalidLimits v)

theorem Avoids.ne_limits {text : String} (h : Avoids 'M' text) (v : R) :
    text ≠ limitsMessage v := by
  rintro rfl
  unfold Avoids limitsMessage PlanError.message at h
  rw [String.toList_append, String.toList_append] at h
  cases h

theorem Avoids.reply_ne {reply : String} (h : Avoids 'e' reply) (reason : String) :
    reply ≠ refusal reason := by
  rintro rfl
  unfold Avoids refusal at h
  rw [String.toList_append] at h
  cases h

theorem Avoids.refusal_ne {reason : String} (h : Avoids 'M' reason) (v : R) :
    refusal reason ≠ refusal (limitsMessage v) := by
  intro same
  exact h.ne_limits v ((String.append_right_inj _).mp same)

/-! ## What an executor says -/

namespace Executor

variable {x x' : Executor R} {files : FileStore} {e : ExecutorError R} {recipe : Recipe R}
  {start : Nat}

theorem qualify_avoids {layer : Layer R} {table : PinTable R}
    (failed : qualify layer table recipe start = .error e) : Avoids 'M' e.message := by
  unfold qualify at failed
  split at failed
  · cases failed
    exact .append (by decide) _
  · split at failed
    · cases failed
      exact .append (by decide) _
    · split at failed
      · cases failed
        exact .append (.append (.append (.append (by decide) _) _) _) _
      · cases failed

theorem install_avoids {path : Option String}
    (failed : (x.install files path recipe start).1 = .error e) : Avoids 'M' e.message := by
  unfold install at failed
  split at failed
  · cases failed
    exact .append (.append (by decide) _) _
  · split at failed
    · cases failed
      exact .append (.append (by decide) _) _
    · rcases x.library.get files recipe.layer with ⟨found, library⟩
      simp only at failed
      split at failed
      · cases failed
        exact .append (by decide) _
      · split at failed
        · next refused =>
          cases failed
          exact qualify_avoids refused
        · cases failed

theorem load_avoids {path : String} (failed : (x.load files path start).1 = .error e) :
    Avoids 'M' e.message := by
  unfold load at failed
  split at failed
  · cases failed
    exact .append (.append (by decide) _) _
  · split at failed
    · cases failed
      exact .append (by decide) _
    · exact install_avoids failed

theorem arm_avoids (failed : x.arm = .error e) : Avoids 'M' e.message := by
  unfold arm at failed
  split at failed
  iterate 3 cases failed
  · split at failed
    · cases failed
    · cases failed
      exact (by decide : Avoids 'M' "No recipe loaded")
  · next faulted =>
    rw [clearFault, if_pos faulted] at failed
    cases failed
  · cases failed
    exact .append (.append (by decide) _) _
  · cases failed
    exact .append (.append (.append (by decide) _) _) _

end Executor

/-! ## What the controller tells -/

theorem ControllerError.message_avoids (e : ControllerError) : Avoids 'M' e.message := by
  cases e with
  | unresponsive | unknownTag | readOnly => exact .append (.append (by decide) _) _
  | incomplete => exact .append (.append (.append (.append (by decide) _) _) _) _
  | typeMismatch => exact .append (.append (.append (.append (.append (by decide) _) _) _) _) _
  | notFunctional => exact (by decide : Avoids 'M' "PLC is not functional")

omit [Scalar R] in
theorem ControllerStatus.Told.fault_avoids {s : ControllerStatus R} (h : s.Told) {reason : String}
    (fault : s.fault? = some reason) : Avoids 'M' reason := by
  have avoids {text : String} : ControllerError.IsMessage text → Avoids 'M' text := by
    rintro ⟨e, rfl⟩
    exact e.message_avoids
  have told : s.Tells (Avoids 'M') :=
    ⟨fun reason stalled => avoids (h.stalled reason stalled),
      fun message last => avoids (h.lastError message last)⟩
  refine told.fault (by decide) (by decide) ?_ fault
  have text : Avoids 'M' ("PLC fault, state " ++ s.state.text ++ ", error code " ++
      toString s.errorCode) := .append (.append (.append (by decide) _) _) _
  unfold faultText
  simp only
  split
  · exact text
  · exact .append (.append text _) _

/-! ## What the machine answers -/

namespace Machine

variable {m : Machine R} {v : R}

theorem busy_ne (m : Machine R) (v : R) : m.busy ≠ refusal (limitsMessage v) :=
  Avoids.refusal_ne (.append (.append (by decide) _) _) v

theorem noRecipe_ne (v : R) : noRecipe (R := R) ≠ refusal (limitsMessage v) :=
  Avoids.refusal_ne (by decide : Avoids 'M' "No recipe loaded") v

theorem ok_ne (reason : String) : "ok" ≠ refusal reason := Avoids.reply_ne (by decide) reason

theorem start_limits (h : m.start.1 = refusal (limitsMessage v)) :
    m.status.fault? = some (limitsMessage v) := by
  unfold start at h
  split at h
  · exact absurd h (Avoids.refusal_ne (by decide) v)
  · split at h
    · exact absurd h (m.busy_ne v)
    · split at h
      · exact absurd h (noRecipe_ne v)
      · split at h
        · next reason told => rw [told, (String.append_right_inj _).mp h]
        · split at h
          · next failed => exact absurd h (Avoids.refusal_ne (Executor.arm_avoids failed) v)
          · exact absurd h (ok_ne _)

theorem ask_ne (request : ManualRequest R) : (m.ask request).1 ≠ refusal (limitsMessage v) := by
  unfold ask
  split
  · exact m.busy_ne v
  · split
    · exact Avoids.refusal_ne (by decide) v
    · exact ok_ne _

theorem jog_ne {target : Location R} {velocity : Option R}
    (usable : ∀ w ∈ velocity, Rates.usable w = true) :
    (m.jog target velocity).1 ≠ refusal (limitsMessage v) := by
  unfold jog
  split
  · exact Avoids.refusal_ne (.append (.append (by decide) _) _) v
  · split
    · next w refused =>
      obtain ⟨given, unusable⟩ := Option.filter_eq_some_iff.mp refused
      rw [usable w given] at unusable
      cases unusable
    · exact ask_ne _

theorem calibrate_ne (pin : Pin) : (m.calibrate pin).1 ≠ refusal (limitsMessage v) := by
  unfold calibrate
  split
  · exact m.busy_ne v
  · split
    · exact noRecipe_ne v
    · split
      · exact ok_ne _
      · exact Avoids.refusal_ne (.append (.append (.append (by decide) _) _) _) v

theorem adopt_ne {path : String} {line : Nat} {reply : String}
    (answered : (m.adopt path line).1 = .ok reply) : reply ≠ refusal (limitsMessage v) := by
  unfold adopt at answered
  split at answered
  · cases answered
    exact noRecipe_ne v
  · generalize (m.withRecord fun r => r.withRecipe path line).save = saved at answered
    obtain ⟨e | ⟨⟨⟩⟩, m'⟩ := saved
    · cases answered
    · cases answered
      exact Avoids.reply_ne (.append (.append (.append (.append (by decide) _) _) _) _) _

theorem load_ne {recipe : String} {line : Nat} {reply : String}
    (answered : (m.load recipe line).1 = .ok reply) : reply ≠ refusal (limitsMessage v) := by
  unfold load at answered
  split at answered
  · cases answered
    exact m.busy_ne v
  · rcases loaded : m.executor.load m.files (m.directory.recipePath recipe) line with
      ⟨e | ⟨⟨⟩⟩, x⟩
    · simp only [loaded] at answered
      cases answered
      exact Avoids.refusal_ne (Executor.load_avoids (congrArg Prod.fst loaded)) v
    · simp only [loaded] at answered
      exact adopt_ne answered

/-- The command is answered with what is said of limits that are refused. -/
def RefusesLimits (m : Machine R) (c : Command R) : Prop :=
  ∃ (reply : Reply R) (v : R), (m.handle c).1 = .ok reply ∧
    reply.text = refusal (PlanError.message (.invalidLimits v))

/-- Unless a jog is asked for at a velocity that cannot be used, only a start may be answered as if
limits were refused: it repeats what the status of the controller tells. -/
theorem RefusesLimits.of_usable {c : Command R} (h : m.RefusesLimits c)
    (usable : ∀ target velocity, c = .jog target velocity →
      ∀ w ∈ velocity, Rates.usable w = true) :
    c = .start ∧ ∃ v : R, m.status.fault? = some (limitsMessage v) := by
  obtain ⟨reply, v, answered, limits⟩ := h
  cases c with
  | start =>
    cases answered
    exact ⟨rfl, v, start_limits limits⟩
  | stop =>
    cases answered
    exact absurd limits (ok_ne _)
  | shutdown =>
    cases answered
    exact absurd limits (Avoids.reply_ne (by decide : Avoids 'e' "ok shutting down") _)
  | jog target velocity =>
    cases answered
    exact absurd limits (jog_ne (usable target velocity rfl))
  | head side | latch side =>
    cases answered
    exact absurd limits (ask_ne _)
  | load recipe line =>
    simp only [handle] at answered
    rcases loaded : m.load recipe (line.getD 0) with ⟨e | text, m'⟩
    · rw [loaded] at answered
      cases answered
    · rw [loaded] at answered
      cases answered
      exact absurd limits (load_ne (congrArg Prod.fst loaded))
  | status =>
    cases answered
    exact absurd limits (Avoids.reply_ne (.append (.append (by decide) _) _) _)
  | calibrate pin =>
    cases answered
    exact absurd limits (calibrate_ne pin)

/-- What is told of the controller is not what is said of limits. -/
theorem RefusesLimits.not_of_told {c : Command R} (h : m.RefusesLimits c) (told : m.status.Told) :
    ∃ target velocity w, c = .jog target velocity ∧ w ∈ velocity ∧ Rates.usable w = false := by
  by_contra none
  push Not at none
  obtain ⟨-, v, fault⟩ := h.of_usable fun target velocity jog w given =>
    eq_true_of_ne_false (none target velocity w jog given)
  exact (told.fault_avoids fault).ne_limits v rfl

end Machine

end Winding
