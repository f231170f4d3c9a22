import Winding.Proofs.Markup.RoundTrip
import Winding.Proofs.Number.Legible
import Winding.Proofs.Time.RoundTrip
import Winding.Record.Apa

/-!
# Records are read back from their texts

A record with layers in order, lengths of wire, lines in 64 bits and times that a clock can show is
read back from its text as it was (`ApaRecord.Legible.ofText_text`). What the machine does to a
record leaves it so, with a line for a recipe in progress (`ApaRecord.WellFormed`).
-/

namespace Winding

namespace ApaRecord

variable {R : Type}

/-! ## Layers in order -/

/-- Lengths in the order of their layers, each layer once. -/
def InOrder (wound : List (String × R)) : Prop := wound.Pairwise fun a b => a.1 < b.1

variable {wound : List (String × R)} {layer : String} {length : R}

theorem mem_assign {w : String × R} (h : w ∈ assign layer length wound) :
    w = (layer, length) ∨ w ∈ wound := by
  induction wound with
  | nil => exact .inl (List.mem_singleton.mp h)
  | cons v wound ih =>
    obtain ⟨l, x⟩ := v
    unfold assign at h
    split at h
    · exact (List.mem_cons.mp h).imp_right (List.mem_cons_of_mem _)
    · split at h
      · exact List.mem_cons.mp h
      · rcases List.mem_cons.mp h with rfl | later
        · exact .inr List.mem_cons_self
        · exact (ih later).imp_right (List.mem_cons_of_mem _)

/-- Setting a length keeps the order. -/
theorem InOrder.assign (h : InOrder wound) : InOrder (assign layer length wound) := by
  induction wound with
  | nil => exact List.pairwise_singleton ..
  | cons v wound ih =>
    obtain ⟨l, x⟩ := v
    obtain ⟨first, rest⟩ := List.pairwise_cons.mp h
    unfold ApaRecord.assign
    split
    · next same => exact List.pairwise_cons.mpr ⟨same ▸ first, rest⟩
    · next other =>
      split
      · next below =>
        refine List.pairwise_cons.mpr ⟨fun w hw => ?_, h⟩
        rcases List.mem_cons.mp hw with rfl | later
        · exact below
        · exact String.lt_trans below (first w later)
      · next above =>
        refine List.pairwise_cons.mpr ⟨fun w hw => ?_, ih rest⟩
        rcases mem_assign hw with rfl | later
        · exact Decidable.byContradiction fun notBelow => other (String.le_antisymm above notBelow)
        · exact first w later

/-- A layer behind all others is added at the end. -/
theorem assign_last (h : ∀ w ∈ wound, w.1 < layer) :
    assign layer length wound = wound ++ [(layer, length)] := by
  induction wound with
  | nil => rfl
  | cons v wound ih =>
    obtain ⟨l, x⟩ := v
    have below : l < layer := h _ List.mem_cons_self
    have ne : l ≠ layer := fun same => String.lt_irrefl layer (same ▸ below)
    rw [ApaRecord.assign, if_neg ne, if_neg (String.lt_asymm below),
      ih fun w hw => h w (List.mem_cons_of_mem _ hw)]
    rfl

/-- Lengths in order stay as they are when they are set one after the other. -/
theorem InOrder.foldl_assign (h : InOrder wound) :
    wound.foldl (fun ws (layer, length) => ApaRecord.assign layer length ws) [] = wound := by
  suffices ∀ front : List (String × R), InOrder (front ++ wound) →
      wound.foldl (fun ws (layer, length) => ApaRecord.assign layer length ws) front =
        front ++ wound from this [] h
  intro front ordered
  induction wound generalizing front with
  | nil => exact (List.append_nil front).symm
  | cons v wound ih =>
    have behind : ∀ w ∈ front, w.1 < v.1 := fun w hw =>
      (List.pairwise_append.mp ordered).2.2 w hw v List.mem_cons_self
    have shift : front ++ v :: wound = (front ++ [v]) ++ wound := List.append_cons ..
    rw [shift] at ordered ⊢
    have last : ApaRecord.assign v.1 v.2 front = front ++ [v] := assign_last behind
    rw [List.foldl_cons]
    simp only [last]
    exact ih (List.Pairwise.of_cons h) _ ordered

/-! ## Well-formed records -/

/-- What a record has that can be read back from its text. -/
structure Legible [Scalar R] (r : ApaRecord R) : Prop where
  ordered : InOrder r.wound
  lengths : ∀ w ∈ r.wound, isLength w.2 = true
  line : ∀ line ∈ r.line, line < lineLimit
  times : ∀ e ∈ r.faults, e.time.IsShown
  lines : ∀ e ∈ r.faults, ∀ line ∈ e.line, line < lineLimit

/-- What all records have that the machine writes. -/
structure WellFormed [Scalar R] (r : ApaRecord R) : Prop where
  ordered : InOrder r.wound
  lengths : ∀ w ∈ r.wound, isLength w.2 = true
  line : ∀ line ∈ r.line, line < lineLimit
  /-- A recipe in progress has a line. -/
  paired : r.recipe.isSome → r.line.isSome
  times : ∀ e ∈ r.faults, e.time.IsShown
  lines : ∀ e ∈ r.faults, ∀ line ∈ e.line, line < lineLimit

namespace Legible

variable [Scalar R] {r : ApaRecord R}

theorem wellFormed (h : r.Legible) (paired : r.recipe.isSome → r.line.isSome) : r.WellFormed :=
  ⟨h.ordered, h.lengths, h.line, paired, h.times, h.lines⟩

theorem fresh (name : String) : (ApaRecord.fresh name : ApaRecord R).Legible where
  ordered := List.Pairwise.nil
  lengths := List.forall_mem_nil _
  line := nofun
  times := List.forall_mem_nil _
  lines := List.forall_mem_nil _

/-- What is longer than a recorded length is a length. -/
theorem raise [LegibleScalar R] (h : r.Legible) (layer : String) (length : R) :
    (r.raise layer length).2.Legible := by
  unfold ApaRecord.raise
  split
  · next longer =>
    obtain ⟨finite, longer⟩ := Bool.and_eq_true_iff.mp longer
    have recorded : Scalar.lt (r.length layer) Scalar.zero = false := by
      unfold ApaRecord.length
      rcases found : r.wound.lookup layer with _ | x
      · exact LegibleScalar.lt_irrefl _
      · obtain ⟨front, back, wound, -⟩ := List.lookup_eq_some_iff.mp found
        have kept := h.lengths (layer, x) (wound ▸ List.mem_append_right _ List.mem_cons_self)
        rw [isLength, Bool.and_eq_true_iff, Bool.not_eq_true'] at kept
        exact kept.2
    have above := LegibleScalar.not_lt_of_lt _ _ _ longer recorded
    have isLength : isLength length = true := by rw [ApaRecord.isLength, finite, above]; rfl
    refine ⟨h.ordered.assign, fun w hw => ?_, h.line, h.times, h.lines⟩
    rcases mem_assign hw with rfl | old
    · exact isLength
    · exact h.lengths w old
  · exact h

/-- A record goes to a line. -/
theorem atLine (h : r.Legible) {line : Nat} (le : line < lineLimit) :
    ({ r with line := some line } : ApaRecord R).Legible :=
  ⟨h.ordered, h.lengths, by rintro _ ⟨⟩; exact le, h.times, h.lines⟩

theorem withRecipe (h : r.Legible) (recipe : String) {line : Nat} (le : line < lineLimit) :
    (r.withRecipe recipe line).Legible :=
  ⟨h.ordered, h.lengths, by rintro _ ⟨⟩; exact le, h.times, h.lines⟩

theorem withoutRecipe (h : r.Legible) : r.withoutRecipe.Legible :=
  ⟨h.ordered, h.lengths, nofun, h.times, h.lines⟩

theorem advance (h : r.Legible) : r.advance.Legible :=
  ⟨h.ordered, h.lengths, h.line, h.times, h.lines⟩

theorem withFault (h : r.Legible) {time : Timestamp} (shown : time.IsShown)
    (kind message : String) {line : Option Nat} (le : ∀ l ∈ line, l < lineLimit) :
    (r.withFault time kind message line).Legible := by
  refine ⟨h.ordered, h.lengths, h.line, fun e he => ?_, fun e he => ?_⟩
  · rcases List.mem_append.mp he with old | new
    · exact h.times e old
    · rw [List.mem_singleton.mp new]
      exact shown
  · rcases List.mem_append.mp he with old | new
    · exact h.lines e old
    · rw [List.mem_singleton.mp new]
      exact le

end Legible

namespace WellFormed

variable [Scalar R] {r : ApaRecord R}

theorem legible (h : r.WellFormed) : r.Legible :=
  ⟨h.ordered, h.lengths, h.line, h.times, h.lines⟩

theorem fresh (name : String) : (ApaRecord.fresh name : ApaRecord R).WellFormed :=
  (Legible.fresh name).wellFormed nofun

theorem raise [LegibleScalar R] (h : r.WellFormed) (layer : String) (length : R) :
    (r.raise layer length).2.WellFormed := by
  refine (h.legible.raise layer length).wellFormed ?_
  unfold ApaRecord.raise
  split
  · exact h.paired
  · exact h.paired

/-- A recipe in progress goes to a line. -/
theorem atLine (h : r.WellFormed) {line : Nat} (le : line < lineLimit) :
    ({ r with line := some line } : ApaRecord R).WellFormed :=
  (h.legible.atLine le).wellFormed fun _ => rfl

theorem withRecipe (h : r.WellFormed) (recipe : String) {line : Nat} (le : line < lineLimit) :
    (r.withRecipe recipe line).WellFormed :=
  (h.legible.withRecipe recipe le).wellFormed fun _ => rfl

theorem withoutRecipe (h : r.WellFormed) : r.withoutRecipe.WellFormed :=
  h.legible.withoutRecipe.wellFormed nofun

theorem advance (h : r.WellFormed) : r.advance.WellFormed := h.legible.advance.wellFormed h.paired

theorem finished (h : r.WellFormed) : r.advance.withoutRecipe.WellFormed := h.advance.withoutRecipe

theorem withFault (h : r.WellFormed) {time : Timestamp} (shown : time.IsShown)
    (kind message : String) {line : Option Nat} (le : ∀ l ∈ line, l < lineLimit) :
    (r.withFault time kind message line).WellFormed :=
  (h.legible.withFault shown kind message le).wellFormed h.paired

end WellFormed

/-! ## Documents -/

variable [Scalar R] {r : ApaRecord R}

theorem optionalAttribute_keys (key : String) (value : Option String) :
    ((optionalAttribute key value).map (·.1)).Sublist [key] := by
  rcases value with _ | value
  · exact List.nil_sublist _
  · exact List.Sublist.refl _

/-- The names of the attributes of a record. -/
def rootKeys : List String := ["name", "stage", "currentRecipe", "currentLine"]

/-- The names of the attributes of a fault. -/
def faultKeys : List String := ["time", "kind", "line", "message"]

theorem root_keys (r : ApaRecord R) : (r.document.root.attributes.map (·.1)).Sublist rootKeys := by
  have recipe := optionalAttribute_keys "currentRecipe" r.recipe
  have line := optionalAttribute_keys "currentLine" (r.line.map toString)
  simp only [document, List.map_append]
  exact ((List.Sublist.refl ["name", "stage"]).append recipe).append line

/-- The element of a layer. -/
def layerTag (w : String × R) : Markup.Tag :=
  ⟨"layer", [("name", w.1), ("woundLength", Scalar.text w.2)]⟩

/-- The element of a fault. -/
def faultTag (e : FaultEntry) : Markup.Tag :=
  ⟨"fault", [("time", e.time.text), ("kind", e.kind)] ++
    optionalAttribute "line" (e.line.map toString) ++ [("message", e.message)]⟩

theorem fault_keys (e : FaultEntry) : ((faultTag e).attributes.map (·.1)).Sublist faultKeys := by
  have line := optionalAttribute_keys "line" (e.line.map toString)
  simp only [faultTag, List.map_append]
  exact ((List.Sublist.refl ["time", "kind"]).append line).append (List.Sublist.refl ["message"])

theorem children_eq (r : ApaRecord R) :
    r.document.children = r.wound.map layerTag ++ r.faults.map faultTag := rfl

/-- The document of a record is plain, whatever its texts are. -/
theorem document_isPlain (r : ApaRecord R) : r.document.IsPlain := by
  have root : ∀ name ∈ "APA" :: rootKeys, Markup.IsName name.toList :=
    Markup.IsName.of_all (by decide)
  have layer : ∀ name ∈ ["layer", "name", "woundLength"], Markup.IsName name.toList :=
    Markup.IsName.of_all (by decide)
  have fault : ∀ name ∈ "fault" :: faultKeys, Markup.IsName name.toList :=
    Markup.IsName.of_all (by decide)
  refine ⟨.of_sublist r.root_keys (by decide) root, fun t ht => ?_⟩
  rcases List.mem_append.mp (r.children_eq ▸ ht) with wound | faults
  · obtain ⟨w, -, rfl⟩ := List.mem_map.mp wound
    have keys : ((layerTag w).attributes.map (·.1)).Sublist ["name", "woundLength"] :=
      List.Sublist.refl _
    exact .of_sublist keys (by decide) layer
  · obtain ⟨e, -, rfl⟩ := List.mem_map.mp faults
    exact .of_sublist (fault_keys e) (by decide) fault

theorem layer?_layerTag [LegibleScalar R] {w : String × R} (finite : Scalar.isFinite w.2 = true) :
    layer? (layerTag w) = some w := by
  have within : (layerTag w).within ["name", "woundLength"] = true :=
    Markup.Tag.within_of_sublist (List.Sublist.refl _) (by decide)
  have name : (layerTag w).get? "name" = some w.1 := rfl
  have length : (layerTag w).get? "woundLength" = some (Scalar.text w.2) := rfl
  rw [layer?, if_pos within, name, length]
  simp only [Option.bind_eq_bind, Option.bind_some, LegibleScalar.ofText?_text _ finite]
  rfl

theorem fault?_faultTag {e : FaultEntry} (shown : e.time.IsShown)
    (le : ∀ line ∈ e.line, line < lineLimit) : fault? (faultTag e) = some e := by
  have within : (faultTag e).within ["time", "kind", "line", "message"] = true :=
    Markup.Tag.within_of_sublist (fault_keys e) (by decide)
  have time : (faultTag e).get? "time" = some e.time.text := rfl
  have kind : (faultTag e).get? "kind" = some e.kind := rfl
  have message : (faultTag e).get? "message" = some e.message := by
    rcases e with ⟨-, -, -, _ | line⟩ <;> rfl
  have line : (faultTag e).optional "line" line? = some e.line := by
    rcases e with ⟨time, kind, message, _ | line⟩
    · rfl
    · show (line? (toString line)).map some = some (some line)
      rw [line?, natBelow?_toString (le line rfl)]
      rfl
  rw [fault?, if_pos within, time, kind, message, line]
  simp only [Option.bind_eq_bind, Option.bind_some, shown.ofText?_text]
  rfl

/-! ## Reading back -/

/-- Elements of one kind are all of those with its name, or none of them. -/
theorem filter_map_name {α : Type} {tag : α → Markup.Tag} {kind : String}
    (named : ∀ a, (tag a).name = kind) (l : List α) (name : String) :
    (l.map tag).filter (·.name == name) = if kind == name then l.map tag else [] := by
  rw [List.filter_map]
  split
  · next same =>
    refine congrArg _ (List.filter_eq_self.mpr fun a _ => ?_)
    rw [Function.comp_apply, named]
    exact same
  · next other =>
    refine List.map_eq_nil_iff.mpr (List.filter_eq_nil_iff.mpr fun a _ => ?_)
    rw [Function.comp_apply, named]
    exact other

/-- A legible record is read back from its document. -/
theorem Legible.ofDocument?_document [LegibleScalar R] (h : r.Legible) :
    ofDocument? r.document = some r := by
  have within : r.document.root.within rootKeys = true :=
    Markup.Tag.within_of_sublist r.root_keys (by decide)
  have named : r.document.children.all (fun tag => tag.name == "layer" || tag.name == "fault") := by
    refine List.all_eq_true.mpr fun t ht => ?_
    rcases List.mem_append.mp (r.children_eq ▸ ht) with layer | fault
    · obtain ⟨w, -, rfl⟩ := List.mem_map.mp layer
      rfl
    · obtain ⟨e, -, rfl⟩ := List.mem_map.mp fault
      rfl
  have layer (w : String × R) : (layerTag w).name = "layer" := rfl
  have fault (e : FaultEntry) : (faultTag e).name = "fault" := rfl
  have layers : r.document.children.filter (·.name == "layer") = r.wound.map layerTag := by
    rw [children_eq, List.filter_append, filter_map_name layer, filter_map_name fault]
    exact List.append_nil _
  have faults : r.document.children.filter (·.name == "fault") = r.faults.map faultTag := by
    rw [children_eq, List.filter_append, filter_map_name layer, filter_map_name fault]
    exact List.nil_append _
  have wound : (r.wound.map layerTag).mapM layer? = some r.wound := by
    refine mapM_map_eq_some fun w hw => layer?_layerTag ?_
    exact (Bool.and_eq_true_iff.mp (h.lengths w hw)).1
  have history : (r.faults.map faultTag).mapM fault? = some r.faults :=
    mapM_map_eq_some fun e he => fault?_faultTag (h.times e he) (h.lines e he)
  have name : r.document.root.get? "name" = some r.name := rfl
  have stage : (r.document.root.get? "stage").bind stage? = some r.stage := by
    have small : r.stage.number < UInt8.size := by cases r.stage <;> decide
    show stage? (toString r.stage.number) = some r.stage
    rw [stage?, natBelow?_toString small]
    exact Stage.ofNumber?_number r.stage
  have recipe : r.document.root.get? "currentRecipe" = r.recipe := by
    rcases r with ⟨-, -, -, _ | recipe, _ | line, -⟩ <;> rfl
  have line : r.document.root.optional "currentLine" line? = some r.line := by
    have given : r.document.root.get? "currentLine" = r.line.map toString := by
      rcases r with ⟨-, -, -, _ | recipe, _ | line, -⟩ <;> rfl
    rw [Markup.Tag.optional, given]
    rcases recorded : r.line with _ | line
    · rfl
    · simp only [Option.map_some, line?, natBelow?_toString (h.line line recorded)]
  unfold ofDocument?
  have within : r.document.root.within ["name", "stage", "currentRecipe", "currentLine"] = true :=
    within
  rw [within, named, layers, faults, wound, history, name, stage, recipe, line]
  rfl

/-- A legible record is read back from its text. -/
theorem Legible.ofText_text [LegibleScalar R] (h : r.Legible) : ofText r.text = .ok r := by
  have read : (Markup.Document.ofText? r.text).bind ofDocument? = some r := by
    rw [text, r.document_isPlain.ofText?_text]
    exact h.ofDocument?_document
  have lengths : (r.wound.find? fun (_, length) => !isLength length) = none := by
    refine List.find?_eq_none.mpr fun w hw => ?_
    show ¬(!isLength w.2) = true
    rw [h.lengths w hw]
    nofun
  rw [ofText, read]
  simp only [lengths, h.ordered.foldl_assign]

/-- A well-formed record is read back from its text. -/
theorem WellFormed.ofText_text [LegibleScalar R] (h : r.WellFormed) : ofText r.text = .ok r :=
  h.legible.ofText_text

end ApaRecord

end Winding
