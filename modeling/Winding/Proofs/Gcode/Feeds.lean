import Winding.Gcode.RecipeFile
import Winding.Proofs.Gcode.Taking

/-!
# Feeds of a recipe

A feed word is accepted only if its value is not zero or below. So every line that is read has such
a feed or none (`Gcode.Line.HasFeed`), whatever numbers the recipe is read in, and so does every
recipe that a text or a file holds (`Recipe.ofText_hasFeeds`, `Recipe.load_hasFeeds`).
-/

namespace Winding

variable {R : Type} [Scalar R]

namespace Gcode

/-- Whether a feed, if there is one, is not zero or below. -/
def FeedAccepted (feed : Option R) : Prop := ∀ f ∈ feed, Scalar.le f Scalar.zero = false

/-- A line whose feed can be accepted. -/
def Line.HasFeed (l : Line R) : Prop := FeedAccepted l.feed

/-! ## Words -/

namespace Draft

variable {d d' : Draft R} {w : Word R}

/-- Only a feed changes the feed. -/
theorem take_accepted (accepted : FeedAccepted d.feed) (h : d.take w = .ok d') :
    FeedAccepted d'.feed := by
  cases take_eq_ok_iff.mp h with
  | feed letter free fresh above =>
    rintro _ ⟨⟩
    exact above
  | number | axis | parameter | move | call => exact accepted

theorem foldlM_take_accepted {ws : List (Word R)} (accepted : FeedAccepted d.feed)
    (h : ws.foldlM take d = .ok d') : FeedAccepted d'.feed :=
  foldlM_keeps (P := fun d => FeedAccepted d.feed) (fun _ _ _ _ => take_accepted) accepted h

end Draft

/-! ## Lines -/

theorem lineOfWords_eq_ok {last : Option Nat} {source : Nat} {words : List (Word R)} {l : Line R}
    (h : lineOfWords last source words = .ok l) :
    ∃ d n commands, gather words = .ok d ∧ lineNumber (R := R) last d.number = .ok n ∧
      d.slots.reverse.mapM (Slot.command d.target d.feed) = .ok commands ∧
      l = ⟨n, d.feed, commands, source⟩ := by
  obtain ⟨d, gathered, h⟩ := bind_eq_ok h
  obtain ⟨n, numbered, h⟩ := bind_eq_ok h
  obtain ⟨commands, made, h⟩ := bind_eq_ok h
  cases h
  exact ⟨d, n, commands, gathered, numbered, made, rfl⟩

theorem lineOfWords_hasFeed {last : Option Nat} {source : Nat} {words : List (Word R)}
    {l : Line R} (h : lineOfWords last source words = .ok l) : l.HasFeed := by
  obtain ⟨d, n, commands, gathered, -, -, rfl⟩ := lineOfWords_eq_ok h
  have start : FeedAccepted (Draft.start : Draft R).feed := nofun
  exact Draft.foldlM_take_accepted start gathered

/-- Words that can be gathered make a line if it can be numbered and their slots become commands. -/
theorem lineOfWords_of_gather {last : Option Nat} {source n : Nat} {words : List (Word R)}
    {d : Draft R} {cs : List (Command R)} (gathered : gather words = .ok d)
    (numbered : lineNumber (R := R) last d.number = .ok n)
    (made : d.slots.reverse.mapM (Slot.command d.target d.feed) = .ok cs) :
    lineOfWords last source words = .ok ⟨n, d.feed, cs, source⟩ := by
  rw [lineOfWords, gathered]
  show (lineNumber last d.number >>= fun number =>
    d.slots.reverse.mapM (Slot.command d.target d.feed) >>= fun commands =>
      .ok (Line.mk number d.feed commands source)) = _
  rw [numbered, made]
  rfl

/-- What the words of a text make is read. -/
theorem readLine_of_words {last : Option Nat} {source : Nat} {text : List Char}
    {words : List (Word R)} {l : Line R} (scanned : scanWords 1 text = .ok words)
    (nonempty : words ≠ []) (made : lineOfWords last source words = .ok l) :
    readLine last source text = .ok (some l) := by
  rw [readLine, readWords, scanned]
  show Except.mapError _ (if words.isEmpty = true then _ else _) = _
  rw [if_neg (mt List.isEmpty_iff.mp nonempty), made]
  rfl

/-- A line that is read is made of the words of its text. -/
theorem readLine_eq_ok {last : Option Nat} {source : Nat} {text : List Char} {l : Line R}
    (h : readLine last source text = .ok (some l)) :
    ∃ words, scanWords 1 text = .ok words ∧ lineOfWords last source words = .ok l := by
  obtain ⟨words, scanned, h⟩ := bind_eq_ok (mapError_eq_ok h)
  split at h
  · cases h
  · obtain ⟨l', made, e⟩ := map_eq_ok h
    cases e
    exact ⟨words, scanned, made⟩

/-- Every line of a program was read from one of its texts. -/
theorem exists_readLine {last : Option Nat} {source : Nat} {texts : List (List Char)}
    {ls : List (Line R)} (h : readLines last source texts = .ok ls) {l : Line R} (hl : l ∈ ls) :
    ∃ text ∈ texts, ∃ last source, readLine last source text = .ok (some l) := by
  induction texts generalizing last source ls with
  | nil =>
    cases h
    cases hl
  | cons text texts ih =>
    have later {last : Option Nat} {source : Nat} {ls : List (Line R)}
        (h : readLines last source texts = .ok ls) (hl : l ∈ ls) :
        ∃ t ∈ text :: texts, ∃ last source, readLine last source t = .ok (some l) := by
      obtain ⟨t, ht, read⟩ := ih h hl
      exact ⟨t, List.mem_cons_of_mem text ht, read⟩
    obtain ⟨read, first, rest⟩ := bind_eq_ok h
    cases read with
    | none => exact later rest hl
    | some line =>
      obtain ⟨ls', others, e⟩ := map_eq_ok rest
      cases e
      rcases List.mem_cons.mp hl with rfl | more
      · exact ⟨text, List.mem_cons_self, last, source, first⟩
      · exact later others more

theorem readLine_hasFeed {last : Option Nat} {source : Nat} {text : List Char} {l : Line R}
    (h : readLine last source text = .ok (some l)) : l.HasFeed := by
  obtain ⟨words, -, made⟩ := readLine_eq_ok h
  exact lineOfWords_hasFeed made

theorem readLines_hasFeed {last : Option Nat} {source : Nat} {texts : List (List Char)}
    {ls : List (Line R)} (h : readLines last source texts = .ok ls) : ∀ l ∈ ls, l.HasFeed := by
  intro l hl
  obtain ⟨text, -, last, source, read⟩ := exists_readLine h hl
  exact readLine_hasFeed read

end Gcode

/-! ## Recipes -/

namespace Recipe

/-- A recipe all of whose feeds can be accepted. -/
def HasFeeds (r : Recipe R) : Prop := ∀ l ∈ r.lines, l.HasFeed

theorem ofText_hasFeeds {text : String} {r : Recipe R} (h : ofText text = .ok r) :
    r.HasFeeds := by
  unfold ofText at h
  rcases hr : read (R := R) Sha256.hex text with e | read
  · rw [hr] at h
    cases h
  · rw [hr] at h
    cases h
    unfold Recipe.read at hr
    split at hr
    · cases hr
    · simp only at hr
      split at hr
      · cases hr
      · split at hr
        · cases hr
        · split at hr
          · cases hr
          · next lines _ =>
            cases hr
            exact Gcode.readLines_hasFeed ‹_›

theorem load_hasFeeds {files : FileStore} {path : String} {r : Recipe R}
    (h : load files path = .ok r) : r.HasFeeds := by
  unfold load at h
  split at h
  · cases h
  · exact ofText_hasFeeds h

end Recipe

end Winding
