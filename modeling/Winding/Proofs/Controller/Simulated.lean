import Winding.Controller.Simulator
import Winding.Proofs.Controller.Wiring

/-!
# A sound controller

A simulated controller is sound if it has no fault, answers every read and starts every motion
(`Simulator.Sound`). It rests somewhere (`Simulator.Idle`), or it is under way to somewhere for some
more reads of `READY` (`Simulator.Underway`). Each of these reads moves it on by one
(`Simulator.Underway.readsReady_succ`), the one after them finds it at rest
(`Simulator.Underway.readsReady_zero`), and a motion that is begun is under way
(`Simulator.Sound.begin_underway`).
-/

namespace Winding

/-- The kind of point that holds a value as it is. -/
def TagValue.kind : TagValue → PointKind
  | .flag _ => .flag
  | .word _ => .word
  | .analog _ => .analog

theorem PointKind.hold?_eq_self_iff {kind : PointKind} {v : TagValue} :
    kind.hold? v = some v ↔ v.kind = kind := by
  cases kind <;> cases v <;> simp [hold?, TagValue.kind, TagValue.flag?, TagValue.word?,
    TagValue.analog?]

namespace Registry

/-- A tag is wired once. -/
theorem wiring_unique {x y : String × PointKind × Bool} (hx : x ∈ standard.wiring)
    (hy : y ∈ standard.wiring) (same : x.1 = y.1) : x = y :=
  List.inj_on_of_nodup_map standard_distinct hx hy same

end Registry

namespace Simulator

/-! ## Tags -/

theorem lookup_assign (tag t : String) (v : TagValue) (tags : List (String × TagValue)) :
    (assign tag v tags).lookup t = if t = tag then some v else tags.lookup t := by
  induction tags with
  | nil =>
    by_cases same : t = tag
    · rw [assign, List.lookup_cons, beq_iff_eq.mpr same, if_pos same]
    · rw [assign, List.lookup_cons, beq_false_of_ne same, if_neg same]
  | cons first tags ih =>
    obtain ⟨u, w⟩ := first
    by_cases front : u = tag
    · subst front
      rw [assign, if_pos rfl, List.lookup_cons, List.lookup_cons]
      by_cases same : t = u
      · rw [beq_iff_eq.mpr same, if_pos same]
      · rw [beq_false_of_ne same, if_neg same]
    · rw [assign, if_neg front, List.lookup_cons, List.lookup_cons, ih]
      by_cases same : t = u
      · subst same
        rw [beq_self_eq_true]
        exact (if_neg front).symm
      · rw [beq_false_of_ne same]

theorem tag?_set (s : Simulator) (tag t : String) (v : TagValue) :
    (s.set tag v).tag? t = if t = tag then some v else s.tag? t :=
  lookup_assign tag t v s.tags

theorem tag?_set_self (s : Simulator) (tag : String) (v : TagValue) :
    (s.set tag v).tag? tag = some v := by rw [tag?_set, if_pos rfl]

theorem tag?_set_ne (s : Simulator) {tag t : String} (v : TagValue) (other : t ≠ tag) :
    (s.set tag v).tag? t = s.tag? t := by rw [tag?_set, if_neg other]

/-- The simulator with tags set, in order. -/
def setAll (s : Simulator) (vs : List (String × TagValue)) : Simulator :=
  { s with tags := vs.foldl (fun tags x => assign x.1 x.2 tags) s.tags }

theorem setAll_cons (s : Simulator) (x : String × TagValue) (vs : List (String × TagValue)) :
    s.setAll (x :: vs) = (s.set x.1 x.2).setAll vs := rfl

theorem setAll_concat (s : Simulator) (vs : List (String × TagValue)) (x : String × TagValue) :
    s.setAll (vs ++ [x]) = (s.setAll vs).set x.1 x.2 := by
  rw [setAll, List.foldl_concat]
  rfl

/-- A controller does not lose a tag. -/
theorem isSome_set {s : Simulator} {t : String} (h : (s.tag? t).isSome = true) (tag : String)
    (v : TagValue) : ((s.set tag v).tag? t).isSome = true := by
  rw [tag?_set]
  split
  · rfl
  · exact h

theorem isSome_setAll {s : Simulator} {t : String} (h : (s.tag? t).isSome = true)
    (vs : List (String × TagValue)) : ((s.setAll vs).tag? t).isSome = true := by
  induction vs generalizing s with
  | nil => exact h
  | cons x vs ih => exact ih (isSome_set h x.1 x.2)

theorem tag?_setAll_of_notMem {s : Simulator} {vs : List (String × TagValue)} {tag : String}
    (other : ∀ x ∈ vs, x.1 ≠ tag) : (s.setAll vs).tag? tag = s.tag? tag := by
  induction vs generalizing s with
  | nil => rfl
  | cons x vs ih =>
    obtain ⟨first, others⟩ := List.forall_mem_cons.mp other
    rw [setAll_cons, ih others, tag?_set_ne _ _ (Ne.symm first)]

/-- The only value that is set for a tag is found there. -/
theorem tag?_setAll_of_mem {s : Simulator} {vs : List (String × TagValue)} {tag : String}
    {v : TagValue} (mem : (tag, v) ∈ vs) (only : ∀ x ∈ vs, x.1 = tag → x.2 = v) :
    (s.setAll vs).tag? tag = some v := by
  induction vs generalizing s with
  | nil => cases mem
  | cons x vs ih =>
    obtain ⟨first, others⟩ := List.forall_mem_cons.mp only
    rw [setAll_cons]
    by_cases later : (tag, v) ∈ vs
    · exact ih later others
    · obtain rfl : x = (tag, v) := ((List.mem_cons.mp mem).resolve_right later).symm
      by_cases again : ∃ y ∈ vs, y.1 = tag
      · obtain ⟨⟨t, w⟩, hy, rfl⟩ := again
        exact absurd (others _ hy rfl ▸ hy) later
      · rw [tag?_setAll_of_notMem fun y hy same => again ⟨y, hy, same⟩, tag?_set_self]

/-! ## Sound controllers -/

/-- The controller has no fault, answers every read and starts every motion, and each tag of the
winder holds a value of its kind. -/
structure Sound (s : Simulator) : Prop where
  functional : s.isFunctional = true
  answers : s.isStalled = false
  starts : s.ignoresMoves = false
  tags : ∀ x ∈ Registry.standard.wiring, (s.tag? x.1).map TagValue.kind = some x.2.1
  state : ∃ code, s.tag? Tag.state = some (.word code) ∧ ControllerState.ofCode code ≠ .error
  errorCode : s.tag? Tag.errorCode = some (.word 0)
  moduleFault : ∀ a, s.tag? (Tag.moduleFault a) = some (.flag false)

/-- A value that a tag can have without a fault. -/
structure Fits (tag : String) (v : TagValue) : Prop where
  kind : ∀ x ∈ Registry.standard.wiring, x.1 = tag → v.kind = x.2.1
  state : Tag.state = tag → ∃ code, v = .word code ∧ ControllerState.ofCode code ≠ .error
  errorCode : Tag.errorCode = tag → v = .word 0
  moduleFault : ∀ a, Tag.moduleFault a = tag → v = .flag false

/-- The controller rests at a place. -/
structure Idle (s : Simulator) (place : Location Float32) : Prop extends Sound s where
  rests : s.busy = none
  ready : s.tag? Tag.ready = some (.flag true)
  position : ∀ a, s.tag? (Tag.position a) = some (.analog (place.on a))

/-- The controller carries a motion out, which ends at a place. It is not ready for this many more
reads. -/
structure Underway (s : Simulator) (reads : Nat) (place : Location Float32) : Prop
    extends Sound s where
  motion : ∃ motion, s.busy = some (reads, motion) ∧
    ({ s with busy := none }.finish motion).Idle place

theorem fits_of_wired {tag : String} {kind : PointKind} {v : TagValue}
    (wired : (tag, kind, true) ∈ Registry.standard.wiring) (same : v.kind = kind) :
    Fits tag v where
  kind x hx tag := by rw [Registry.wiring_unique hx wired tag, same]
  state same := by
    have input : (Tag.state, .word, false) ∈ Registry.standard.wiring := by decide
    cases Registry.wiring_unique input wired same
  errorCode same := by
    have input : (Tag.errorCode, .word, false) ∈ Registry.standard.wiring := by decide
    cases Registry.wiring_unique input wired same
  moduleFault a same := by
    have input : (Tag.moduleFault a, .flag, false) ∈ Registry.standard.wiring := by
      cases a <;> decide
    cases Registry.wiring_unique input wired same

/-- An input that is none of those that show a fault can have every value of its kind. -/
theorem fits_of_input {tag : String} {kind : PointKind} {v : TagValue}
    (wired : (tag, kind, false) ∈ Registry.standard.wiring) (same : v.kind = kind)
    (other : tag ∉ Tag.state :: Tag.errorCode :: Axis.all.map Tag.moduleFault) : Fits tag v where
  kind x hx tag := by rw [Registry.wiring_unique hx wired tag, same]
  state same := absurd (same ▸ List.mem_cons_self) other
  errorCode same := absurd (same ▸ List.mem_cons_of_mem _ List.mem_cons_self) other
  moduleFault a same := by
    refine absurd (same ▸ List.mem_cons_of_mem _ (List.mem_cons_of_mem _ ?_)) other
    exact List.mem_map_of_mem (by cases a <;> decide)

theorem fits_ready (ready : Bool) : Fits Tag.ready (.flag ready) := by
  have input : (Tag.ready, .flag, false) ∈ Registry.standard.wiring := by decide
  exact fits_of_input input rfl (by decide)

theorem fits_position (a : Axis) (x : Float32) : Fits (Tag.position a) (.analog x) := by
  have input : (Tag.position a, .analog, false) ∈ Registry.standard.wiring := by cases a <;> decide
  exact fits_of_input input rfl (by cases a <;> decide)

theorem fits_state (motion : ControllerState)
    (sound : .ofCode motion.code ≠ ControllerState.error) : Fits Tag.state (.word motion.code) where
  kind x hx tag := by
    have input : (Tag.state, .word, false) ∈ Registry.standard.wiring := by decide
    rw [Registry.wiring_unique hx input tag]
    rfl
  state _ := ⟨_, rfl, sound⟩
  errorCode same := absurd same (by decide)
  moduleFault a same := absurd same (by cases a <;> decide)

namespace Sound

variable {s : Simulator}

/-- A value that fits leaves the controller sound. -/
theorem set (h : s.Sound) {tag : String} {v : TagValue} (fits : Fits tag v) :
    (s.set tag v).Sound where
  functional := h.functional
  answers := h.answers
  starts := h.starts
  tags x hx := by
    rw [tag?_set]
    split
    · next same => exact congrArg some (fits.kind x hx same)
    · exact h.tags x hx
  state := by
    rw [tag?_set]
    split
    · next same =>
      obtain ⟨code, rfl, sound⟩ := fits.state same
      exact ⟨code, rfl, sound⟩
    · exact h.state
  errorCode := by
    rw [tag?_set]
    split
    · next same => rw [fits.errorCode same]
    · exact h.errorCode
  moduleFault a := by
    rw [tag?_set]
    split
    · next same => rw [fits.moduleFault a same]
    · exact h.moduleFault a

theorem setAll (h : s.Sound) {vs : List (String × TagValue)} (fits : ∀ x ∈ vs, Fits x.1 x.2) :
    (s.setAll vs).Sound := by
  induction vs generalizing s with
  | nil => exact h
  | cons x vs ih =>
    obtain ⟨first, others⟩ := List.forall_mem_cons.mp fits
    exact ih (h.set first) others

/-- What is under way and what was asked for does not matter. -/
theorem congr (h : s.Sound) (busy : Option (Nat × ControllerState))
    (submissions : List ControllerState) :
    Sound { s with busy := busy, submissions := submissions } where
  functional := h.functional
  answers := h.answers
  starts := h.starts
  tags := h.tags
  state := h.state
  errorCode := h.errorCode
  moduleFault := h.moduleFault

/-- The target of an axis is a number. -/
theorem target (h : s.Sound) (a : Axis) : ∃ x, s.tag? (Tag.target a) = some (.analog x) := by
  have kind := h.tags (Tag.target a, .analog, true) (by cases a <;> decide)
  obtain ⟨v, found, analog⟩ := Option.map_eq_some_iff.mp kind
  cases v with
  | analog x => exact ⟨x, found⟩
  | flag | word => cases analog

/-- An axis that is put at its target leaves the controller sound. -/
theorem reach (h : s.Sound) (a : Axis) : (s.reach a).Sound := by
  obtain ⟨x, found⟩ := h.target a
  rw [Simulator.reach, found]
  exact h.set (fits_position a x)

theorem arrive (h : s.Sound) (motion : ControllerState) : (s.arrive motion).Sound := by
  cases motion with
  | xySeek | zSeek => exact ((h.reach .x).reach .y).reach .z
  | head => exact h.reach .z
  | _ => exact h

theorem finish (h : s.Sound) (motion : ControllerState) : (s.finish motion).Sound :=
  ((h.arrive motion).set (fits_state .ready (by decide))).set (fits_ready true)

theorem begin_eq (h : s.Sound) (motion : ControllerState) :
    s.begin motion = (Simulator.set { s with
      busy := some (s.completionPolls, motion)
      submissions := s.submissions ++ [motion] } Tag.state (.word motion.code)).set Tag.ready
        (.flag false) :=
  if_neg (Bool.eq_false_iff.mp h.starts)

theorem begin (h : s.Sound) {motion : ControllerState}
    (sound : .ofCode motion.code ≠ ControllerState.error) : (s.begin motion).Sound := by
  rw [h.begin_eq]
  exact ((h.congr _ _).set (fits_state motion sound)).set (fits_ready false)

end Sound

/-! ## Motion -/

/-- Whether a motion puts an axis at its target. -/
def moves : ControllerState → Axis → Bool
  | .xySeek, _ | .zSeek, _ => true
  | .head, a => a == .z
  | _, _ => false

theorem tag?_reach (s : Simulator) (a b : Axis) :
    (s.reach a).tag? (Tag.position b) =
      if b = a then some ((s.tag? (Tag.target b)).getD zero) else s.tag? (Tag.position b) := by
  have positions : Tag.position b = Tag.position a ↔ b = a := by cases a <;> cases b <;> decide
  rw [reach, tag?_set, if_congr positions rfl rfl]
  split
  · next same => rw [same]
  · rfl

theorem target_reach (s : Simulator) (a b : Axis) :
    (s.reach a).tag? (Tag.target b) = s.tag? (Tag.target b) :=
  tag?_set_ne s _ (by cases a <;> cases b <;> decide)

/-- A motion ends with its axes at their targets, and the others where they were. -/
theorem position_arrive (s : Simulator) (motion : ControllerState) (a : Axis) :
    (s.arrive motion).tag? (Tag.position a) =
      if moves motion a then some ((s.tag? (Tag.target a)).getD zero)
      else s.tag? (Tag.position a) := by
  cases motion with
  | xySeek | zSeek =>
    show (((s.reach .x).reach .y).reach .z).tag? _ = _
    rw [if_pos (by rfl), tag?_reach, tag?_reach, tag?_reach, target_reach, target_reach]
    cases a with
    | x | y | z => rfl
  | head =>
    show (s.reach .z).tag? _ = _
    rw [tag?_reach]
    cases a with
    | x | y | z => rfl
  | _ => rfl

/-- The motion under way is over, with the axes it moves at these coordinates. -/
theorem finish_idle {s : Simulator} (h : s.Sound) (rests : s.busy = none) {motion : ControllerState}
    {place : Location Float32}
    (ends : ∀ a, (s.arrive motion).tag? (Tag.position a) = some (.analog (place.on a))) :
    (s.finish motion).Idle place where
  toSound := h.finish motion
  rests := by
    cases motion with
    | _ => exact rests
  ready := tag?_set_self _ _ _
  position a := by
    rw [finish, tag?_set_ne _ _ (by cases a <;> decide), tag?_set_ne _ _ (by cases a <;> decide),
      ends]

/-- A read of `READY` and what it leaves. -/
structure ReadsReady (s : Simulator) (ready : Bool) (s' : Simulator) : Prop where
  answer : s.read Tag.ready = (.ok (.flag ready), s')
  sound : s'.Sound
  completionPolls : s'.completionPolls = s.completionPolls
  submissions : s'.submissions = s.submissions

theorem finish_submissions (s : Simulator) (motion : ControllerState) :
    (s.finish motion).submissions = s.submissions ∧
      (s.finish motion).completionPolls = s.completionPolls := by
  cases motion with
  | _ => exact ⟨rfl, rfl⟩

variable {s : Simulator} {place : Location Float32}

theorem Sound.read_eq (h : s.Sound) {tag : String} (other : tag ≠ Tag.ready) {v : TagValue}
    (found : s.tag? tag = some v) : s.read tag = (.ok v, s) := by
  rw [read, if_neg (Bool.eq_false_iff.mp h.answers), if_neg other, answer, found]

/-- A controller that rests is ready, and stays as it is. -/
theorem Idle.readsReady (h : s.Idle place) : s.ReadsReady true s := by
  refine ⟨?_, h.toSound, rfl, rfl⟩
  rw [read, if_neg (Bool.eq_false_iff.mp h.answers), if_pos rfl, h.rests]
  simp only [answer, h.ready]

/-- A controller that is under way is not ready, and has one read less before it. -/
theorem Underway.readsReady_succ {n : Nat} (h : s.Underway (n + 1) place) :
    ∃ s', s.ReadsReady false s' ∧ s'.Underway n place := by
  obtain ⟨motion, busy, ends⟩ := h.motion
  refine ⟨{ s with busy := some (n, motion) }, ⟨?_, h.toSound.congr _ _, rfl, rfl⟩,
    h.toSound.congr _ _, motion, rfl, ends⟩
  rw [read, if_neg (Bool.eq_false_iff.mp h.answers), if_pos rfl, busy]

/-- The last read finds the controller ready, where its motion ends. -/
theorem Underway.readsReady_zero (h : s.Underway 0 place) :
    ∃ s', s.ReadsReady true s' ∧ s'.Idle place := by
  obtain ⟨motion, busy, ends⟩ := h.motion
  obtain ⟨submissions, polls⟩ := finish_submissions { s with busy := none } motion
  refine ⟨_, ⟨?_, ends.toSound, polls, submissions⟩, ends⟩
  rw [read, if_neg (Bool.eq_false_iff.mp h.answers), if_pos rfl, busy]
  simp only [answer, ends.ready]

/-- A motion that is begun ends where its targets are for the axes it moves, and where the
controller is for the others. -/
theorem Sound.begin_underway (h : s.Sound) {motion : ControllerState}
    (sound : .ofCode motion.code ≠ ControllerState.error)
    (ends : ∀ a, s.tag? (if moves motion a then Tag.target a else Tag.position a) =
      some (.analog (place.on a))) : (s.begin motion).Underway s.completionPolls place := by
  refine ⟨h.begin sound, motion, by rw [h.begin_eq]; rfl, ?_⟩
  have same (tag : String) (h₁ : tag ≠ Tag.state) (h₂ : tag ≠ Tag.ready) :
      Simulator.tag? { s.begin motion with busy := none } tag = s.tag? tag := by
    rw [h.begin_eq]
    exact (tag?_set_ne _ _ h₂).trans (tag?_set_ne _ _ h₁)
  refine finish_idle ((h.begin sound).congr _ _) rfl fun a => ?_
  rw [position_arrive, same (Tag.target a) (by cases a <;> decide) (by cases a <;> decide),
    same (Tag.position a) (by cases a <;> decide) (by cases a <;> decide)]
  have landed := ends a
  split at landed
  · next moved => rw [if_pos moved, landed, Option.getD_some]
  · next still => rw [if_neg still, landed]

theorem Sound.begin_submissions (h : s.Sound) (motion : ControllerState) :
    (s.begin motion).submissions = s.submissions ++ [motion] ∧
      (s.begin motion).completionPolls = s.completionPolls := by
  rw [h.begin_eq]
  exact ⟨rfl, rfl⟩

/-- A controller that was just made rests at the origin. -/
theorem make_idle (completionPolls : Nat) :
    (make completionPolls).Idle ⟨TagValue.single 0, TagValue.single 0, TagValue.single 0⟩ where
  functional := rfl
  answers := rfl
  starts := rfl
  tags :=
    -- the tags do not depend on the reads that a motion takes
    show ∀ x ∈ Registry.standard.wiring, ((make 1).tag? x.1).map TagValue.kind = some x.2.1 by
      decide
  state := ⟨ControllerState.ready.code, rfl, by decide⟩
  errorCode := rfl
  moduleFault a := by
    cases a with
    | x | y | z => rfl
  rests := rfl
  ready := rfl
  position a := by
    cases a with
    | x | y | z => rfl

end Simulator

end Winding
