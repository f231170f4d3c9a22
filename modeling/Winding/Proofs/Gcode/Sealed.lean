import Winding.Gcode.RecipeFile
import Winding.Proofs.Basic
import Winding.Proofs.Text.Lines

/-!
# Sealed recipes are read

A text is sealed with the digest of its body in a last line. Whatever the digest function is, as long
as it gives 64 lower-case hexadecimal digits, the body of a sealed text is found again behind any
blanks (`splitTrailer?_seal`), so that reading depends on nothing but the layer and the program of
the body (`readsSealed_sealText`); and whatever is read was sealed so, up to the case of the digits
(`read_accepted`). Recipes are sealed with such a function (`isDigest_hex`).
-/

namespace Winding.Recipe

/-- A text of 64 lower-case hexadecimal digits. -/
structure IsDigest (hash : String) : Prop where
  length : hash.toList.length = 64
  digits : ∀ c ∈ hash.toList, c.isDigit = true ∨ 'a' ≤ c ∧ c ≤ 'f'

/-- A text that is empty or ends with a newline. -/
def IsClosed (body : List Char) : Prop := body = [] ∨ ∃ front, body = front ++ ['\n']

/-! ## The layer -/

/-- A line of blanks or a comment that does not frame a layer. -/
def IsPassed (line : List Char) : Prop :=
  trim line = [] ∨
    framed? layerStart (trim line) = none ∧ ∃ c cs, trim line = c :: cs ∧ (c = '(' ∨ c = ';')

/-- The first line that is not passed frames a name that is not empty. -/
def NamesLayer (lines : List (List Char)) (name : List Char) : Prop :=
  ∃ before line after, lines = before ++ line :: after ∧ (∀ l ∈ before, IsPassed l) ∧
    framed? layerStart (trim line) = some name ∧ name ≠ []

theorem namesLayer_cons {line : List Char} {lines : List (List Char)} {name : List Char} :
    NamesLayer (line :: lines) name ↔
      (framed? layerStart (trim line) = some name ∧ name ≠ []) ∨
        IsPassed line ∧ NamesLayer lines name := by
  constructor
  · rintro ⟨_ | ⟨first, before⟩, named, after, e, passed, framed⟩
    · cases e
      exact .inl framed
    · cases e
      obtain ⟨first, passed⟩ := List.forall_mem_cons.mp passed
      exact .inr ⟨first, before, named, after, rfl, passed, framed⟩
  · rintro (framed | ⟨first, before, named, after, rfl, passed, framed⟩)
    · exact ⟨[], line, lines, rfl, nofun, framed⟩
    · exact ⟨line :: before, named, after, rfl, List.forall_mem_cons.mpr ⟨first, passed⟩, framed⟩

/-- The layer that is found is the one that is named. -/
theorem findLayer?_eq_some_iff {lines : List (List Char)} {name : List Char} :
    findLayer? lines = some name ↔ NamesLayer lines name := by
  induction lines with
  | nil =>
    refine ⟨nofun, ?_⟩
    rintro ⟨before, _, _, e, -⟩
    cases before <;> cases e
  | cons line lines ih =>
    rw [namesLayer_cons, findLayer?]
    rcases trimmed : trim line with _ | ⟨c, cs⟩
    · -- A blank line frames nothing.
      simp only [IsPassed, trimmed, true_or, true_and, ih]
      exact ⟨.inr, fun h => h.resolve_left fun framed => nomatch framed.1⟩
    · have starts : IsPassed line ↔ framed? layerStart (c :: cs) = none ∧ (c = '(' ∨ c = ';') := by
        unfold IsPassed
        rw [trimmed]
        constructor
        · rintro (none | ⟨framed, _, _, ⟨⟩, comment⟩)
          · cases none
          · exact ⟨framed, comment⟩
        · exact fun h => .inr ⟨h.1, c, cs, rfl, h.2⟩
      rw [starts]
      simp only
      rcases framed? layerStart (c :: cs) with _ | named
      · by_cases comment : c = '(' ∨ c = ';'
        · simp [comment, ih]
        · simp [comment]
      · rcases named with _ | ⟨n, ns⟩
        · simp only [List.isEmpty_nil, if_pos, Option.some.injEq, reduceCtorEq, false_and, or_false,
            false_iff]
          rintro ⟨rfl, some⟩
          exact some rfl
        · simp only [List.isEmpty_cons, Bool.false_eq_true, if_false, Option.some.injEq,
            reduceCtorEq, false_and, or_false]
          refine ⟨fun e => ⟨e, ?_⟩, And.left⟩
          rintro rfl
          cases e

/-! ## The trailer -/

theorem framed?_eq_some_iff {start line name : List Char} :
    framed? start line = some name ↔ ∃ inner, line = start ++ (inner ++ [')']) ∧ name = trim inner := by
  unfold framed?
  constructor
  · intro h
    obtain ⟨inner, h, e⟩ := Option.map_eq_some_iff.mp h
    obtain ⟨rest, after, before⟩ := Option.bind_eq_some_iff.mp h
    exact ⟨inner, by rw [after?_eq_some after, beforeLast?_eq_some before], e.symm⟩
  · rintro ⟨inner, rfl, rfl⟩
    rw [after?_append, Option.bind_some, beforeLast?_concat, if_pos rfl]
    rfl

/-- A last line is split off the lines in front of it. -/
theorem splitLastLine_append {body last : List Char} (closed : IsClosed body) (line : '\n' ∉ last) :
    splitLastLine (body ++ last) = (body, last) := by
  have taken : ((body ++ last).reverse.takeWhile (· ≠ '\n')).reverse = last := by
    have stop : ∀ c ∈ body.reverse.head?, decide (c ≠ '\n') = false := by
      rcases closed with rfl | ⟨front, rfl⟩
      · nofun
      · rw [List.reverse_append, List.reverse_singleton]
        rintro c ⟨⟩
        rfl
    rw [List.reverse_append, (takeWhile_append_stop (fun c hc => ?_) stop).1, List.reverse_reverse]
    exact decide_eq_true fun e => line (List.mem_reverse.mp (e ▸ hc))
  rw [splitLastLine]
  simp only [taken, List.length_append, Nat.add_sub_cancel, List.take_left]

/-- Every text is its last line and the lines in front of it. -/
theorem exists_lastLine (text : List Char) :
    ∃ body last, text = body ++ last ∧ IsClosed body ∧ '\n' ∉ last := by
  induction text with
  | nil => exact ⟨[], [], rfl, .inl rfl, nofun⟩
  | cons c cs ih =>
    obtain ⟨body, last, rfl, rfl | ⟨front, rfl⟩, line⟩ := ih
    · by_cases newline : c = '\n'
      · exact ⟨[c], last, rfl, .inr ⟨[], by rw [newline]; rfl⟩, line⟩
      · exact ⟨[], c :: last, rfl, .inl rfl, by
          rw [List.mem_cons, not_or]
          exact ⟨Ne.symm newline, line⟩⟩
    · exact ⟨c :: (front ++ ['\n']), last, rfl, .inr ⟨c :: front, rfl⟩, line⟩

theorem isClosed_closed (body : String) : IsClosed (closed body).toList := by
  unfold closed
  by_cases h : (body.isEmpty || body.toList.getLast? = some '\n') = true
  · rw [if_pos h]
    rcases Bool.or_eq_true_iff.mp h with none | newline
    · exact .inl (by rw [String.isEmpty_iff.mp none]; rfl)
    · exact .inr (List.getLast?_eq_some_iff.mp (of_decide_eq_true newline))
  · rw [if_neg h]
    exact .inr ⟨body.toList, String.toList_push _⟩

theorem closed_of_isClosed {body : List Char} (h : IsClosed body) :
    closed (String.ofList body) = String.ofList body := by
  unfold closed
  rcases h with rfl | ⟨front, rfl⟩
  · rfl
  · rw [if_pos]
    simp

/-- The trailer of a sealed text is found behind any blanks. -/
theorem splitTrailer?_seal {body hash blanks : List Char} (closed : IsClosed body)
    (length : hash.length = 64)
    (digits : ∀ c ∈ hash, isHexDigit c = true ∧ isBlank c = false ∧ c ≠ '\n')
    (blank : ∀ c ∈ blanks, isBlank c = true) :
    splitTrailer? (body ++ (hashStart ++ (hash ++ [')'])) ++ blanks) = some (body, hash) := by
  have trimmed : trimEnd (body ++ (hashStart ++ (hash ++ [')'])) ++ blanks) =
      body ++ (hashStart ++ (hash ++ [')'])) := by
    rw [trimEnd_append_blanks blank, ← List.append_assoc, ← List.append_assoc, trimEnd_concat rfl]
  have line : '\n' ∉ hashStart ++ (hash ++ [')']) := by
    simp only [List.mem_append, not_or]
    exact ⟨by decide, fun mem => (digits _ mem).2.2 rfl, by decide⟩
  have framed : trim (hashStart ++ (hash ++ [')'])) = hashStart ++ (hash ++ [')']) := by
    have start : hashStart = '(' :: hashStart.tail := by decide
    rw [start, List.cons_append, ← List.append_assoc]
    exact trim_framed rfl rfl _
  have inner : trim hash = hash := trim_eq_self fun c hc => (digits c hc).2.1
  have hex : hash.all isHexDigit = true := List.all_eq_true.mpr fun c hc => (digits c hc).1
  rw [splitTrailer?, trimmed, splitLastLine_append closed line]
  simp only [framed, framed?_eq_some_iff.mpr ⟨hash, rfl, rfl⟩, Option.bind_some, inner, length, hex]
  rfl

/-- What is found as a trailer is the last line that is not blank. -/
theorem splitTrailer?_eq_some {text body hash : List Char}
    (h : splitTrailer? text = some (body, hash)) :
    ∃ last blanks inner, text = body ++ last ++ blanks ∧ IsClosed body ∧ '\n' ∉ last ∧
      (∀ c ∈ blanks, isBlank c = true) ∧ trim last = hashStart ++ (inner ++ [')']) ∧
        trim inner = hash := by
  obtain ⟨blanks, blank, whole⟩ := exists_blanks text
  obtain ⟨front, last, split, closed, line⟩ := exists_lastLine (trimEnd text)
  rw [splitTrailer?, split, splitLastLine_append closed line] at h
  obtain ⟨found, framed, h⟩ := Option.bind_eq_some_iff.mp h
  split at h
  · cases h
    obtain ⟨inner, framed, trimmed⟩ := framed?_eq_some_iff.mp framed
    exact ⟨last, blanks, inner, by rw [← split, ← whole], closed, line, blank, framed, trimmed.symm⟩
  · cases h

/-! ## Reading -/

theorem IsDigest.isHexDigit {hash : String} (h : IsDigest hash) :
    ∀ c ∈ hash.toList, isHexDigit c = true ∧ isBlank c = false ∧ c ≠ '\n' := by
  intro c hc
  rcases h.digits c hc with digit | letter
  · refine ⟨by rw [Recipe.isHexDigit, digit]; rfl, isBlank_digit digit, ?_⟩
    rintro rfl
    cases digit
  · have low : 97 ≤ c.toNat := letter.1
    have high : c.toNat ≤ 102 := letter.2
    refine ⟨?_, isBlank_visible (by omega) (by omega), ?_⟩
    · simp only [Recipe.isHexDigit, letter.1, letter.2, decide_true, Bool.and_self, Bool.or_true,
        Bool.true_or]
    · rintro rfl
      exact absurd low (by decide)

variable {R : Type} [Scalar R] {digest : String → String}

/-- A sealed text is read as the layer and the program of its body. -/
theorem read_seal (digests : ∀ text, IsDigest (digest text)) (body : String) {blanks : String}
    (blank : ∀ c ∈ blanks.toList, isBlank c = true) :
    read (R := R) digest (sealText digest body ++ blanks) =
      match findLayer? (linesOf (closed body).toList) with
      | none => .error .missingLayer
      | some layer =>
        match Gcode.readProgram (closed body) with
        | .error e => .error (.unreadable e)
        | .ok lines => .ok ⟨String.ofList layer, lines, digest (closed body)⟩ := by
  have hash := digests (closed body)
  have text : (sealText digest body ++ blanks).toList = (closed body).toList ++
      (hashStart ++ ((digest (closed body)).toList ++ [')'])) ++ '\n' :: blanks.toList := by
    simp only [sealText, String.toList_append, String.toList_ofList, List.append_assoc]
    rfl
  have trailer : splitTrailer? (sealText digest body ++ blanks).toList =
      some ((closed body).toList, (digest (closed body)).toList) := by
    rw [text]
    exact splitTrailer?_seal (isClosed_closed body) hash.length hash.isHexDigit
      (List.forall_mem_cons.mpr ⟨rfl, blank⟩)
  rw [read, trailer]
  simp only [String.ofList_toList, ne_eq, not_true_eq_false, if_false]
  rfl

/-- How a sealed body is read: the trailer is in order, whatever the body is. -/
structure ReadsSealed (R : Type) [Scalar R] (digest : String → String) (body : String)
    (result : Except (RecipeFault R) (Recipe R)) : Prop where
  hash_found : result ≠ .error .missingHash
  hash_matches : ∀ expected actual, result ≠ .error (.hashMismatch expected actual)
  missingLayer : result = .error .missingLayer ↔ ∀ name, ¬NamesLayer (linesOf body.toList) name
  unreadable : ∀ e, result = .error (.unreadable e) ↔
    (∃ name, NamesLayer (linesOf body.toList) name) ∧ Gcode.readProgram body = .error e
  read : ∀ r, result = .ok r ↔ ∃ name lines, NamesLayer (linesOf body.toList) name ∧
    Gcode.readProgram body = .ok lines ∧ r = ⟨String.ofList name, lines, digest body⟩

theorem readsSealed_sealText (digests : ∀ text, IsDigest (digest text)) (body : String)
    {blanks : String} (blank : ∀ c ∈ blanks.toList, isBlank c = true) :
    ReadsSealed R digest (closed body) (read digest (sealText digest body ++ blanks)) := by
  have named (name : List Char) := @findLayer?_eq_some_iff (linesOf (closed body).toList) name
  rw [read_seal digests body blank]
  rcases found : findLayer? (linesOf (closed body).toList) with _ | layer
  · have unnamed (name : List Char) : ¬NamesLayer (linesOf (closed body).toList) name :=
      fun h => nomatch found.symm.trans ((named name).mpr h)
    refine ⟨nofun, nofun, ⟨fun _ => unnamed, fun _ => rfl⟩, fun e => ⟨nofun, ?_⟩,
      fun r => ⟨nofun, ?_⟩⟩
    · rintro ⟨⟨name, h⟩, -⟩
      exact absurd h (unnamed name)
    · rintro ⟨name, -, h, -⟩
      exact absurd h (unnamed name)
  · have this := (named layer).mp found
    have only {name : List Char} (h : NamesLayer (linesOf (closed body).toList) name) :
        layer = name := Option.some.inj (found.symm.trans ((named name).mpr h))
    rcases program : Gcode.readProgram (R := R) (closed body) with e | lines
    · refine ⟨nofun, nofun, ⟨nofun, fun h => absurd this (h layer)⟩, fun e' => ⟨?_, ?_⟩,
        fun r => ⟨nofun, ?_⟩⟩
      · rintro ⟨⟩
        exact ⟨⟨layer, this⟩, program⟩
      · rintro ⟨-, h⟩
        cases program.symm.trans h
        rfl
      · rintro ⟨_, _, -, h, -⟩
        cases program.symm.trans h
    · refine ⟨nofun, nofun, ⟨nofun, fun h => absurd this (h layer)⟩, fun e' => ⟨nofun, ?_⟩,
        fun r => ⟨?_, ?_⟩⟩
      · rintro ⟨-, h⟩
        cases program.symm.trans h
      · rintro ⟨⟩
        exact ⟨layer, lines, this, program, rfl⟩
      · rintro ⟨name, _, h, same, rfl⟩
        cases program.symm.trans same
        rw [only h]

/-- A text whose last line that is not blank frames the digest of all that stands before that line,
up to the case of the digits. -/
def IsSealed (digest : String → String) (text body : List Char) : Prop :=
  ∃ last blanks inner, text = body ++ last ++ blanks ∧ IsClosed body ∧ '\n' ∉ last ∧
    (∀ c ∈ blanks, isBlank c = true) ∧ trim last = hashStart ++ (inner ++ [')']) ∧
      lowerAscii (trim inner) = lowerAscii (digest (String.ofList body)).toList

/-- What was read was sealed, and is read again when its body is sealed. -/
theorem read_accepted (digests : ∀ text, IsDigest (digest text)) {text : String} {r : Recipe R}
    (h : read digest text = .ok r) :
    ∃ body, IsSealed digest text.toList body ∧
      read digest (sealText digest (String.ofList body)) = .ok r := by
  unfold read at h
  split at h
  · cases h
  · next body expected trailer =>
    simp only at h
    split at h
    · cases h
    · next same =>
      obtain ⟨last, blanks, inner, whole, closed, line, blank, framed, rfl⟩ :=
        splitTrailer?_eq_some trailer
      refine ⟨body, ⟨last, blanks, inner, whole, closed, line, blank, framed, ?_⟩, ?_⟩
      · exact (not_not.mp same).symm
      · have again := @read_seal R _ _ digests (String.ofList body) "" nofun
        rw [String.append_empty, closed_of_isClosed closed, Gcode.readProgram,
          String.toList_ofList] at again
        rw [again]
        exact h

/-! ## The digest of recipes -/

theorem size_words (message : ByteArray) : (Sha256.words message).size = 8 := by
  have fold (bytes : ByteArray) (blocks : List Nat) (chain : Array UInt32) (h : chain.size = 8) :
      (blocks.foldl (fun chain i => Sha256.compress bytes chain (64 * i)) chain).size = 8 := by
    induction blocks generalizing chain with
    | nil => exact h
    | cons i blocks ih => exact ih _ rfl
  exact fold _ _ _ rfl

/-- The digest that recipes are sealed with is 64 lower-case hexadecimal digits. -/
theorem isDigest_hex (text : String) : IsDigest (Sha256.hex text) := by
  have toList : (Sha256.hex text).toList =
      (Sha256.words text.toUTF8).toList.flatMap Sha256.hexWord := String.toList_ofList
  constructor
  · rw [toList, List.length_flatMap]
    have eight (l : List UInt32) : (l.map fun w => (Sha256.hexWord w).length).sum = 8 * l.length := by
      induction l with
      | nil => rfl
      | cons w l ih =>
        rw [List.map_cons, List.sum_cons, ih, List.length_cons]
        have : (Sha256.hexWord w).length = 8 := by
          rw [Sha256.hexWord, List.length_map, List.length_range]
        omega
    rw [eight, Array.length_toList, size_words]
  · intro c hc
    rw [toList] at hc
    obtain ⟨w, -, hc⟩ := List.mem_flatMap.mp hc
    obtain ⟨i, -, rfl⟩ := List.mem_map.mp hc
    have digits : ∀ d < 16, (Nat.digitChar d).isDigit = true ∨
        'a' ≤ Nat.digitChar d ∧ Nat.digitChar d ≤ 'f' := by decide
    exact digits _ (Nat.mod_lt _ (by decide))

/-- Sealing and reading agree: a sealed body is read as its layer and its program behind any blanks,
and every text that is read was sealed up to the case of its digits, with a body that is read the same
when it is sealed again. -/
theorem read_iff_sealed (digests : ∀ text, IsDigest (digest text)) :
    (∀ body blanks : String, (∀ c ∈ blanks.toList, isBlank c = true) →
      ReadsSealed R digest (closed body) (read digest (sealText digest body ++ blanks))) ∧
      ∀ (text : String) (r : Recipe R), read digest text = .ok r →
        ∃ body, IsSealed digest text.toList body ∧
          read digest (sealText digest (String.ofList body)) = .ok r :=
  ⟨fun body _ => readsSealed_sealText digests body, fun _ _ => read_accepted digests⟩

theorem read_iff_sealed_hex :
    ReadsSealed Float Sha256.hex (closed "(LAYER X)\nM0")
      (read Sha256.hex (sealText Sha256.hex "(LAYER X)\nM0" ++ " \r\n")) :=
  (read_iff_sealed isDigest_hex).1 _ _ (List.all_eq_true.mp (by decide))

end Winding.Recipe
