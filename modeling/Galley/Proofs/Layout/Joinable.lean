import Galley.Proofs.Balance
import Galley.Proofs.Layout.Joining
import Galley.Proofs.Layout.Woven

/-!
# Joining lines among tags

Joining the lines of a text takes newlines away, and the spaces behind each.  Tags may
be erased before or after that, except where joining makes a marker of the two parts of
one, or where a tag stands among the spaces behind a newline: with the tag, the spaces
behind it stay.
-/

namespace Galley

namespace Marker

open Galley.Symbol

/-- Characters that are read as a marker count as one more marker, and as less text. -/
theorem fewer_of_run {tail : List Char} {later : List Symbol} (isMarker : IsMarker ('<' :: tail))
    (counted : (tags later).length ≤ (all (spell later)).length)
    (inked : (Text.ink (erase (spell later))).length ≤ (Text.ink (chars later)).length) :
    (tags (.char '<' :: (tail.map .char ++ later))).length <
        (all ('<' :: spell (tail.map .char ++ later))).length ∧
      (Text.ink (erase ('<' :: spell (tail.map .char ++ later)))).length <
        (Text.ink (chars (.char '<' :: (tail.map .char ++ later)))).length := by
  have spelled : '<' :: spell (tail.map .char ++ later) = ('<' :: tail) ++ spell later := by
    rw [spell_append, spell_map_char, List.cons_append]
  rw [spelled, all_marker isMarker, erase_marker isMarker, tags_char, tags_append,
    tags_map_char, chars_char, chars_append, chars_map_char, Text.ink_cons, Text.ink_append,
    if_neg (by decide)]
  simp only [List.nil_append, List.length_cons, List.length_append]
  omega

/-- Symbols are read back from the text that they spell, or markers are put together:
then more markers are read than there were, and less is left besides. -/
theorem symbols_spell_or_fewer (given : List Symbol)
    (markers : ∀ marker, Symbol.marker marker ∈ given → IsMarker marker) :
    symbols (spell given) = given ∨
      (tags given).length < (all (spell given)).length ∧
        (Text.ink (erase (spell given))).length < (Text.ink (chars given)).length := by
  induction size : given.length using Nat.strongRecOn generalizing given with
  | ind count inductionHypothesis =>
      subst size
      cases given with
      | nil => exact Or.inl rfl
      | cons symbol rest =>
          have proper := fun marker present => markers marker (List.mem_cons_of_mem symbol present)
          have below := inductionHypothesis rest.length (by simp) rest proper rfl
          cases symbol with
          | marker marker =>
              have isMarker := markers marker (by simp)
              rw [spell_cons, Symbol.text, symbols_marker isMarker, all_marker isMarker,
                erase_marker isMarker]
              simpa using below
          | char character =>
              rw [spell_cons, Symbol.text, List.singleton_append]
              cases found : length? (character :: spell rest) with
              | none =>
                  rw [all_eq_tags, erase_eq_chars, symbols_cons found, tags_char, tags_char,
                    chars_char, chars_char, ← all_eq_tags, ← erase_eq_chars, Text.ink_cons,
                    Text.ink_cons]
                  split <;> simpa using below
              | some length =>
                  -- A run of characters is read as a marker.
                  obtain ⟨marker, behind, isMarker, whole, -⟩ := exists_append_of_length? found
                  obtain ⟨tail, rfl, plain⟩ := isMarker.exists_cons
                  obtain ⟨rfl, further⟩ := List.cons.inj whole
                  obtain ⟨later, rfl⟩ := map_char_prefix proper plain ⟨behind, further.symm⟩
                  have shorter : later.length <
                      (Symbol.char '<' :: (tail.map .char ++ later)).length := by
                    rw [List.length_cons, List.length_append]
                    omega
                  have more := inductionHypothesis later.length shorter later
                    (fun marker present => proper marker (List.mem_append_right _ present)) rfl
                  rcases more with same | ⟨fewer, less⟩
                  · refine Or.inr (fewer_of_run isMarker ?_ ?_)
                    · rw [all_eq_tags, same]
                    · rw [erase_eq_chars, same]
                  · exact Or.inr
                      (fewer_of_run isMarker (Nat.le_of_lt fewer) (Nat.le_of_lt less))

end Marker

namespace Layout

open Marker Text

/-! ## Joined symbols -/

/-- What joining keeps of symbols; the flag says whether a newline was just removed. -/
def joinSymbolsFrom : Bool → List Symbol → List Symbol
  | _, [] => []
  | afterBreak, symbol :: rest =>
      if symbol = .char '\n' then joinSymbolsFrom true rest
      else if afterBreak && symbol == .char ' ' then joinSymbolsFrom true rest
      else symbol :: joinSymbolsFrom false rest

@[simp] theorem joinSymbolsFrom_marker (afterBreak : Bool) (marker : List Char)
    (rest : List Symbol) :
    joinSymbolsFrom afterBreak (.marker marker :: rest) =
      .marker marker :: joinSymbolsFrom false rest := by
  simp [joinSymbolsFrom]

theorem joinSymbolsFrom_char (afterBreak : Bool) (character : Char) (rest : List Symbol) :
    joinSymbolsFrom afterBreak (.char character :: rest) =
      if character = '\n' then joinSymbolsFrom true rest
      else if afterBreak && character == ' ' then joinSymbolsFrom true rest
      else .char character :: joinSymbolsFrom false rest := by
  have same : (Symbol.char character == Symbol.char ' ') = (character == ' ') := by
    rw [Bool.eq_iff_iff]
    simp
  simp [joinSymbolsFrom, same]

/-- A text is joined symbol by symbol. -/
theorem joinLinesFrom_spell (afterBreak : Bool) {given : List Symbol}
    (markers : ∀ marker, Symbol.marker marker ∈ given → IsMarker marker) :
    joinLinesFrom afterBreak (Symbol.spell given) =
      Symbol.spell (joinSymbolsFrom afterBreak given) := by
  induction given generalizing afterBreak with
  | nil => rfl
  | cons symbol rest inductionHypothesis =>
      have below := fun flag => inductionHypothesis flag fun marker present =>
        markers marker (List.mem_cons_of_mem symbol present)
      cases symbol with
      | marker marker =>
          have isMarker := markers marker (by simp)
          obtain ⟨tail, rfl, -⟩ := isMarker.exists_cons
          have solid := joinLinesFrom_append_solid afterBreak [] (List.cons_ne_nil '<' tail)
            (fun character present => (isMarker.not_blank character present).1)
            (Symbol.spell rest)
          rw [joinSymbolsFrom_marker, Symbol.spell_cons, Symbol.spell_cons, ← below]
          exact solid
      | char character =>
          rw [Symbol.spell_cons, Symbol.text, List.singleton_append, joinLinesFrom,
            joinSymbolsFrom_char]
          split
          · exact below true
          · split
            · exact below true
            · rw [below, Symbol.spell_cons, Symbol.text, List.singleton_append]

/-- Joining keeps all markers. -/
@[simp] theorem tags_joinSymbolsFrom (afterBreak : Bool) (given : List Symbol) :
    Symbol.tags (joinSymbolsFrom afterBreak given) = Symbol.tags given := by
  induction given generalizing afterBreak with
  | nil => rfl
  | cons symbol rest inductionHypothesis =>
      cases symbol with
      | marker marker => simp [inductionHypothesis]
      | char character =>
          rw [joinSymbolsFrom_char]
          split
          · simp [inductionHypothesis]
          · split <;> simp [inductionHypothesis]

/-- Joining keeps all ink. -/
theorem ink_chars_joinSymbolsFrom (afterBreak : Bool) (given : List Symbol) :
    ink (Symbol.chars (joinSymbolsFrom afterBreak given)) = ink (Symbol.chars given) := by
  induction given generalizing afterBreak with
  | nil => rfl
  | cons symbol rest inductionHypothesis =>
      cases symbol with
      | marker marker => simp [inductionHypothesis]
      | char character =>
          rw [joinSymbolsFrom_char]
          split
          · rename_i newline
            simp [newline, inductionHypothesis]
          · split
            · rename_i space
              simp only [Bool.and_eq_true, beq_iff_eq] at space
              simp [space.2, inductionHypothesis]
            · simp [ink_cons, inductionHypothesis]

/-! ## Tags among the spaces behind a newline -/

/-- Behind the first tags stands no space. -/
def Unspaced (given : List Symbol) : Prop :=
  (given.dropWhile Symbol.isMarker).head? ≠ some (.char ' ')

/-- The first spaces stand together: none stands behind tags that follow them. -/
def SpacesTogether (given : List Symbol) : Prop :=
  Unspaced (given.dropWhile (· == .char ' '))

/-- The spaces behind each newline stand together. -/
def Together (given : List Symbol) : Prop :=
  ∀ part ∈ given.tails, part.head? = some (.char '\n') → SpacesTogether part.tail

instance : DecidablePred Unspaced := fun _ => inferInstanceAs (Decidable (_ ≠ _))

instance : DecidablePred SpacesTogether := fun _ => inferInstanceAs (Decidable (Unspaced _))

instance : DecidablePred Together := fun given =>
  inferInstanceAs (Decidable (∀ part ∈ given.tails, _ = _ → SpacesTogether part.tail))

section Spaces

variable {character : Char} {marker : List Char} {symbol : Symbol} {rest : List Symbol}

@[simp] theorem unspaced_marker : Unspaced (.marker marker :: rest) ↔ Unspaced rest := Iff.rfl

@[simp] theorem unspaced_char : Unspaced (.char character :: rest) ↔ character ≠ ' ' := by
  simp [Unspaced, Symbol.isMarker]

@[simp] theorem spacesTogether_marker :
    SpacesTogether (.marker marker :: rest) ↔ Unspaced rest := by
  simp [SpacesTogether]

@[simp] theorem spacesTogether_space :
    SpacesTogether (.char ' ' :: rest) ↔ SpacesTogether rest := by
  simp [SpacesTogether]

theorem spacesTogether_char (other : character ≠ ' ') :
    SpacesTogether (.char character :: rest) := by
  simp [SpacesTogether, other]

theorem together_cons :
    Together (symbol :: rest) ↔ (symbol = .char '\n' → SpacesTogether rest) ∧ Together rest := by
  simp [Together, List.tails]

end Spaces

/-- A plain text keeps no more than the tagged text, where it has been broken if the
tagged one has. -/
theorem length_joinLinesFrom_chars_le (given : List Symbol) {afterBreak plainBreak : Bool}
    (follows : afterBreak = true → plainBreak = true) :
    (joinLinesFrom plainBreak (Symbol.chars given)).length ≤
      (Symbol.chars (joinSymbolsFrom afterBreak given)).length := by
  induction given generalizing afterBreak plainBreak with
  | nil => exact Nat.le_refl 0
  | cons symbol rest inductionHypothesis =>
      cases symbol with
      | marker marker =>
          rw [joinSymbolsFrom_marker, Symbol.chars_marker, Symbol.chars_marker]
          exact inductionHypothesis (by simp)
      | char character =>
          have kept := @inductionHypothesis false false id
          have broken := @inductionHypothesis true true id
          have parted := @inductionHypothesis false true (by simp)
          rw [joinSymbolsFrom_char, Symbol.chars_char, joinLinesFrom]
          by_cases newline : character = '\n'
          · rwa [if_pos newline, if_pos newline]
          · rw [if_neg newline, if_neg newline]
            cases space : character == ' ' with
            | false => simpa using kept
            | true =>
                cases plainBreak with
                | false =>
                    obtain rfl : afterBreak = false := by simpa using follows
                    simpa using kept
                | true =>
                    cases afterBreak with
                    | false => simpa using Nat.le_succ_of_le parted
                    | true => simpa using broken

/-- Joining before and after erasing gives the same exactly if the spaces behind each
newline stand together.  The flags say whether the plain text has just been broken, and
the tagged text with it. -/
theorem chars_joinSymbolsFrom_iff (given : List Symbol) :
    (Symbol.chars (joinSymbolsFrom false given) = joinLinesFrom false (Symbol.chars given) ↔
        Together given) ∧
      (Symbol.chars (joinSymbolsFrom true given) = joinLinesFrom true (Symbol.chars given) ↔
        Together given ∧ SpacesTogether given) ∧
      (Symbol.chars (joinSymbolsFrom false given) = joinLinesFrom true (Symbol.chars given) ↔
        Together given ∧ Unspaced given) := by
  induction given with
  | nil => decide
  | cons symbol rest inductionHypothesis =>
      obtain ⟨kept, broken, parted⟩ := inductionHypothesis
      rw [together_cons]
      cases symbol with
      | marker marker =>
          simpa only [joinSymbolsFrom_marker, Symbol.chars_marker, spacesTogether_marker,
            unspaced_marker, reduceCtorEq, false_imp_iff, true_and] using ⟨kept, parted, parted⟩
      | char character =>
          rw [joinSymbolsFrom_char, joinSymbolsFrom_char, Symbol.chars_char, joinLinesFrom,
            joinLinesFrom]
          by_cases newline : character = '\n'
          · subst newline
            have together : SpacesTogether (.char '\n' :: rest) := spacesTogether_char (by decide)
            simpa [together, and_comm] using broken
          · by_cases space : character = ' '
            · subst space
              -- A space that only the plain text drops is never made up for.
              have longer := @length_joinLinesFrom_chars_le rest false true (by simp)
              have apart : ' ' :: Symbol.chars (joinSymbolsFrom false rest) ≠
                  joinLinesFrom true (Symbol.chars rest) := by
                intro same
                rw [← same, List.length_cons] at longer
                omega
              simpa [apart] using ⟨kept, broken⟩
            · simpa [newline, space, spacesTogether_char space] using kept

/-! ## Texts -/

/-- The lines of a text may be joined before or after its tags are erased. -/
structure Joinable (text : List Char) : Prop where
  /-- Joining makes no marker. -/
  markers : all (joinLines text) = all text
  /-- No tag stands among the spaces that joining takes away. -/
  together : Together (symbols text)

instance : DecidablePred Joinable := fun text =>
  decidable_of_iff (all (joinLines text) = all text ∧ Together (symbols text))
    ⟨fun ⟨markers, together⟩ => ⟨markers, together⟩,
      fun joinable => ⟨joinable.markers, joinable.together⟩⟩

/-- These are the texts of which the tags may be erased before or after the lines are
joined. -/
theorem erase_joinLines_iff (text : List Char) :
    erase (joinLines text) = joinLines (erase text) ↔ Joinable text := by
  have proper : ∀ marker, Symbol.marker marker ∈ symbols text → IsMarker marker :=
    fun marker => isMarker_of_mem_symbols
  have joined : joinLines text = Symbol.spell (joinSymbolsFrom false (symbols text)) := by
    rw [← joinLinesFrom_spell false proper, spell_symbols]
    rfl
  have keptProper : ∀ marker,
      Symbol.marker marker ∈ joinSymbolsFrom false (symbols text) → IsMarker marker := by
    intro marker present
    have listed : marker ∈ Symbol.tags (joinSymbolsFrom false (symbols text)) :=
      List.mem_filterMap.mpr ⟨_, present, rfl⟩
    rw [tags_joinSymbolsFrom] at listed
    exact isMarker_of_mem_all listed
  have read := symbols_spell_or_fewer _ keptProper
  rw [tags_joinSymbolsFrom, ← all_eq_tags, ← joined, ink_chars_joinSymbolsFrom,
    ← erase_eq_chars] at read
  have plain := (chars_joinSymbolsFrom_iff (symbols text)).1
  rw [← erase_eq_chars] at plain
  constructor
  · intro same
    have kept : symbols (joinLines text) = joinSymbolsFrom false (symbols text) := by
      refine read.resolve_right fun ⟨_, less⟩ => ?_
      rw [same, ← (respaced_joinLines _).ink_eq] at less
      exact Nat.lt_irrefl _ less
    rw [erase_eq_chars, kept] at same
    refine ⟨?_, plain.mp same⟩
    rw [all_eq_tags, kept, tags_joinSymbolsFrom, ← all_eq_tags]
  · rintro ⟨markers, together⟩
    have kept : symbols (joinLines text) = joinSymbolsFrom false (symbols text) := by
      refine read.resolve_right fun ⟨fewer, _⟩ => ?_
      rw [markers] at fewer
      exact Nat.lt_irrefl _ fewer
    rw [erase_eq_chars, kept]
    exact plain.mpr together

end Layout
end Galley
