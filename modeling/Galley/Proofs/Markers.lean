import Galley.Marker
import Galley.Proofs.Text.Ink
import Mathlib.Data.List.Basic
import Mathlib.Tactic.Tauto

/-!
# Reading markers

A marker is an opening or closing tag of one of two classes with a kind name.  The
symbols of a text spell the text, and its marker symbols are markers.
-/

namespace Galley
namespace Marker

/-- A text is a marker. -/
def IsMarker (text : List Char) : Prop :=
  ∃ tagClass name, (tagClass = blockClass ∨ tagClass = spanClass) ∧
    name ≠ [] ∧ (∀ character ∈ name, isNameChar character = true) ∧
      (text = opening tagClass name ∨ text = closing tagClass name)

theorem afterClass?_eq_some {text named : List Char} (found : afterClass? text = some named) :
    ∃ tagClass, (tagClass = blockClass ∨ tagClass = spanClass) ∧
      text = tagClass ++ ':' :: named := by
  rcases Option.or_eq_some_iff.mp found with block | ⟨-, span⟩
  · exact ⟨blockClass, Or.inl rfl, (List.isPrefixOf?_eq_some_iff_append_eq.mp block).symm⟩
  · exact ⟨spanClass, Or.inr rfl, (List.isPrefixOf?_eq_some_iff_append_eq.mp span).symm⟩

/-- What is read as a marker is one. -/
theorem isMarker_of_rest? {text rest : List Char} (found : rest? text = some rest) :
    ∃ marker, IsMarker marker ∧ text = marker ++ rest := by
  unfold rest? at found
  split at found
  · rename_i afterBracket
    dsimp only at found
    split at found
    · rename_i named classed
      obtain ⟨tagClass, known, spelled⟩ := afterClass?_eq_some classed
      split at found
      · rename_i first others remaining taken dropped
        obtain rfl : remaining = rest := by simpa using found
        have parts : named = named.takeWhile isNameChar ++ '>' :: remaining := by
          rw [← dropped, List.takeWhile_append_dropWhile]
        have nonempty : named.takeWhile isNameChar ≠ [] := by simp [taken]
        have proper : ∀ character ∈ named.takeWhile isNameChar, isNameChar character = true :=
          fun _ present => List.mem_takeWhile_imp present
        rw [parts] at spelled
        cases slash : ['/'].isPrefixOf? afterBracket with
        | none =>
            rw [slash, Option.getD_none] at spelled
            refine ⟨_, ⟨tagClass, _, known, nonempty, proper, Or.inl rfl⟩, ?_⟩
            rw [spelled]
            simp [opening]
        | some behind =>
            rw [slash, Option.getD_some] at spelled
            have slashed := List.isPrefixOf?_eq_some_iff_append_eq.mp slash
            refine ⟨_, ⟨tagClass, _, known, nonempty, proper, Or.inr rfl⟩, ?_⟩
            rw [← slashed, spelled]
            simp [closing]
      · cases found
    · cases found
  · cases found

/-- Only a bracket begins a marker. -/
theorem length?_eq_none_of_ne {character : Char} (rest : List Char) (other : character ≠ '<') :
    length? (character :: rest) = none := by
  simp [length?, rest?, other]

/-- The length of a marker at the start of a text cuts the text behind the marker. -/
theorem isMarker_of_length? {text : List Char} {length : Nat} (found : length? text = some length) :
    IsMarker (text.take length) ∧ 0 < length := by
  obtain ⟨rest, read, rfl⟩ := Option.map_eq_some_iff.mp found
  obtain ⟨marker, isMarker, rfl⟩ := isMarker_of_rest? read
  have size : (marker ++ rest).length - rest.length = marker.length := by simp
  rw [size, List.take_left]
  refine ⟨isMarker, ?_⟩
  obtain ⟨tagClass, name, -, -, -, rfl | rfl⟩ := isMarker <;> simp [opening, closing]

/-- The symbols of a text spell it. -/
theorem spell_symbolsAfter (skipped : Nat) (text : List Char) :
    Symbol.spell (symbolsAfter skipped text) = text.drop skipped := by
  induction text generalizing skipped with
  | nil => simp
  | cons character rest inductionHypothesis =>
      cases skipped with
      | succ fewer => simpa using inductionHypothesis fewer
      | zero =>
          unfold symbolsAfter
          split
          · rename_i length found
            obtain ⟨more, rfl⟩ : ∃ more, length = more + 1 :=
              ⟨length - 1, by have := (isMarker_of_length? found).2; omega⟩
            rw [Symbol.spell_cons, inductionHypothesis]
            simp [Symbol.text]
          · rw [Symbol.spell_cons, inductionHypothesis]
            simp [Symbol.text]

@[simp] theorem spell_symbols (text : List Char) : Symbol.spell (symbols text) = text :=
  spell_symbolsAfter 0 text

/-- The marker symbols of a text are markers. -/
theorem isMarker_of_mem_symbolsAfter
    {skipped : Nat} {text marker : List Char}
    (present : Symbol.marker marker ∈ symbolsAfter skipped text) :
    IsMarker marker := by
  induction text generalizing skipped with
  | nil => simp at present
  | cons character rest inductionHypothesis =>
      cases skipped with
      | succ fewer => exact inductionHypothesis present
      | zero =>
          unfold symbolsAfter at present
          split at present
          · rename_i length found
            rcases List.mem_cons.mp present with same | later
            · cases same
              exact (isMarker_of_length? found).1
            · exact inductionHypothesis later
          · rcases List.mem_cons.mp present with same | later
            · cases same
            · exact inductionHypothesis later

theorem isMarker_of_mem_symbols {text marker : List Char}
    (present : Symbol.marker marker ∈ symbols text) : IsMarker marker :=
  isMarker_of_mem_symbolsAfter present

theorem isBlank_eq_false_of_isNameChar {character : Char} (named : isNameChar character = true) :
    Text.isBlank character = false ∧ character ≠ '\x00' := by
  have bounds : 0x21 ≤ character.toNat ∧ character.toNat ≤ 0x7e := by
    simp only [isNameChar, Bool.or_eq_true, Bool.and_eq_true, decide_eq_true_eq,
      beq_iff_eq] at named
    rcases named with ⟨low, high⟩ | rfl
    · have low' : 97 ≤ character.toNat := low
      have high' : character.toNat ≤ 122 := high
      omega
    · decide
  constructor
  · exact Text.isBlank_eq_false_of_graphic bounds.1 bounds.2
  · rintro rfl
    exact absurd bounds.1 (by decide)

/-- A marker is made of graphic characters. -/
theorem IsMarker.not_blank
    {marker : List Char}
    (isMarker : IsMarker marker) :
    ∀ character ∈ marker, Text.isBlank character = false ∧ character ≠ '\x00' := by
  obtain ⟨tagClass, name, known, -, proper, spelled⟩ := isMarker
  have shows {text : List Char}
      (each : (text.all fun character => !Text.isBlank character && character != '\x00') = true) :
      ∀ character ∈ text, Text.isBlank character = false ∧ character ≠ '\x00' := by
    simpa using each
  have classed : ∀ character ∈ tagClass, Text.isBlank character = false ∧ character ≠ '\x00' :=
    shows (by rcases known with rfl | rfl <;> decide)
  have named : ∀ character ∈ name, Text.isBlank character = false ∧ character ≠ '\x00' :=
    fun character present => isBlank_eq_false_of_isNameChar (proper character present)
  intro character present
  have places : character ∈ tagClass ∨ character ∈ name ∨ character ∈ ['<', '/', ':', '>'] := by
    rcases spelled with rfl | rfl
    · simp only [opening, List.cons_append, List.mem_cons, List.mem_append] at present ⊢
      tauto
    · simp only [closing, List.cons_append, List.mem_cons, List.mem_append] at present ⊢
      tauto
  rcases places with inClass | inName | punctuation
  · exact classed character inClass
  · exact named character inName
  · exact shows (by decide) character punctuation

end Marker
end Galley
