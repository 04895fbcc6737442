import Galley.Proofs.Wrap.Widths
import Mathlib.Data.List.Chain

/-!
# Runs and tokens

A line without markers is cut into its maximal runs of blanks, its maximal runs of
graphic characters, and all other characters by themselves.  The last two sorts are the
tokens of the line.
-/

namespace Galley
namespace Wrap

open Piece Text

/-- A run of graphic characters between two texts that goes on neither way. -/
structure IsRun (front run back : List Char) : Prop where
  /-- There are characters. -/
  nonempty : run ≠ []
  /-- All of them are graphic. -/
  graphic : ∀ character ∈ run, isGraphic character = true
  /-- The character before them is not. -/
  before : ∀ character ∈ front.getLast?, isGraphic character = false
  /-- Neither is the character behind them. -/
  after : ∀ character ∈ back.head?, isGraphic character = false

/-- A token of a line: a maximal run of graphic characters, or a single other character
that is not blank. -/
def IsToken (line token : List Char) : Prop :=
  ∃ front back, line = front ++ token ++ back ∧
    (IsRun front token back ∨
      ∃ character, token = [character] ∧ isBlank character = false ∧ isGraphic character = false)

/-- A piece without markers has characters, all of its sort and none of another. -/
def OfSort : Piece → Prop
  | .marker _ => False
  | .space text => text ≠ [] ∧ allBlank text = true
  | .word text => text ≠ [] ∧ ∀ character ∈ text, isGraphic character = true
  | .wide character => isBlank character = false ∧ isGraphic character = false

/-- Whether a piece is a word. -/
def Piece.isWord : Piece → Bool
  | .word _ => true
  | _ => false

/-- Neighbours are not runs of one sort. -/
def Apart (before after : Piece) : Prop :=
  (before.isSpace && after.isSpace || before.isWord && after.isWord) = false

theorem ofSort_consChar (character : Char) {pieces : List Piece}
    (sorted : ∀ piece ∈ pieces, OfSort piece) :
    ∀ piece ∈ consChar character pieces, OfSort piece := by
  unfold consChar
  split
  · rename_i blank
    split
    · obtain ⟨space, rest⟩ := List.forall_mem_cons.mp sorted
      refine List.forall_mem_cons.mpr ⟨⟨by simp, ?_⟩, rest⟩
      simpa [allBlank, blank] using space.2
    · exact List.forall_mem_cons.mpr ⟨⟨by simp, by simp [allBlank, blank]⟩, sorted⟩
  · rename_i shown
    split
    · rename_i graphic
      split
      · obtain ⟨word, rest⟩ := List.forall_mem_cons.mp sorted
        exact List.forall_mem_cons.mpr
          ⟨⟨by simp, List.forall_mem_cons.mpr ⟨graphic, word.2⟩⟩, rest⟩
      · exact List.forall_mem_cons.mpr ⟨⟨by simp, by simpa using graphic⟩, sorted⟩
    · rename_i other
      exact List.forall_mem_cons.mpr ⟨⟨by simpa using shown, by simpa using other⟩, sorted⟩

theorem isChain_consChar (character : Char) {pieces : List Piece} (chain : pieces.IsChain Apart) :
    (consChar character pieces).IsChain Apart := by
  unfold consChar
  split
  · split
    · rw [List.isChain_cons] at chain ⊢
      exact chain
    · rename_i other
      refine List.isChain_cons.mpr ⟨fun piece first => ?_, chain⟩
      cases piece with
      | space text =>
          obtain ⟨rest, rfl⟩ := List.head?_eq_some_iff.mp first
          exact absurd rfl (other text rest)
      | _ => rfl
  · split
    · split
      · rw [List.isChain_cons] at chain ⊢
        exact chain
      · rename_i other
        refine List.isChain_cons.mpr ⟨fun piece first => ?_, chain⟩
        cases piece with
        | word text =>
            obtain ⟨rest, rfl⟩ := List.head?_eq_some_iff.mp first
            exact absurd rfl (other text rest)
        | _ => rfl
    · exact List.isChain_cons.mpr ⟨fun piece _ => rfl, chain⟩

@[simp] theorem pieces_nil : pieces false [] = [] := rfl

theorem pieces_cons (character : Char) (rest : List Char) :
    pieces false (character :: rest) = consChar character (pieces false rest) := rfl

theorem ofSort_pieces (line : List Char) : ∀ piece ∈ pieces false line, OfSort piece := by
  induction line with
  | nil => simp
  | cons character rest inductionHypothesis => exact ofSort_consChar character inductionHypothesis

theorem isChain_pieces (line : List Char) : (pieces false line).IsChain Apart := by
  induction line with
  | nil => exact List.IsChain.nil
  | cons character rest inductionHypothesis => exact isChain_consChar character inductionHypothesis

theorem isBlank_eq_false_of_isGraphic {character : Char} (graphic : isGraphic character = true) :
    isBlank character = false := by
  obtain ⟨low, high⟩ : '!' ≤ character ∧ character ≤ '~' := by simpa [isGraphic] using graphic
  exact isBlank_eq_false_of_graphic (UInt32.le_iff_toNat_le.mp low) (UInt32.le_iff_toNat_le.mp high)

theorem isGraphic_eq_false_of_isBlank {character : Char} (blank : isBlank character = true) :
    isGraphic character = false := by
  by_contra graphic
  rw [isBlank_eq_false_of_isGraphic (by simpa using graphic)] at blank
  cases blank

/-- Only words hold graphic characters. -/
theorem OfSort.not_graphic {piece : Piece} (sorted : OfSort piece) (other : piece.isWord = false) :
    ∀ character ∈ piece.text, isGraphic character = false := by
  cases piece with
  | marker text => cases sorted
  | word text => cases other
  | wide character => exact List.forall_mem_singleton.mpr sorted.2
  | space text =>
      exact fun character present =>
        isGraphic_eq_false_of_isBlank (List.all_eq_true.mp sorted.2 character present)

theorem OfSort.text_ne_nil {piece : Piece} (sorted : OfSort piece) : piece.text ≠ [] := by
  cases piece with
  | marker text => cases sorted
  | space text => exact sorted.1
  | word text => exact sorted.1
  | wide character => simp [Piece.text]

theorem OfSort.not_blank {piece : Piece} (sorted : OfSort piece) (ink : piece.isInk = true) :
    ∀ character ∈ piece.text, isBlank character = false := by
  cases piece with
  | marker text => cases ink
  | space text => cases ink
  | word text =>
      exact fun character present => isBlank_eq_false_of_isGraphic (sorted.2 character present)
  | wide character => exact List.forall_mem_singleton.mpr sorted.1

/-- A line that begins with no blank has a token as its first piece. -/
theorem exists_pieces_of_begins {line : List Char}
    (begins : ∃ first ∈ line.head?, isBlank first = false) :
    ∃ piece rest, pieces false line = piece :: rest ∧ piece.isInk = true := by
  obtain ⟨first, found, shown⟩ := begins
  have spelled := spell_pieces false line
  have sorted := ofSort_pieces line
  cases parts : pieces false line with
  | nil =>
      rw [parts] at spelled
      rw [← spelled] at found
      cases found
  | cons piece rest =>
      refine ⟨piece, rest, rfl, ?_⟩
      rw [parts] at spelled sorted
      have here := (List.forall_mem_cons.mp sorted).1
      rw [← spelled, spell_cons, List.head?_append_of_ne_nil _ (OfSort.text_ne_nil here)] at found
      cases piece with
      | marker text => cases here
      | space text =>
          rw [List.all_eq_true.mp here.2 first (List.mem_of_head? found)] at shown
          cases shown
      | word text => rfl
      | wide character => rfl

/-- A word among the pieces of a line is a maximal run. -/
theorem isRun_of_pieces {line word : List Char} {front back : List Piece}
    (parts : pieces false line = front ++ .word word :: back) :
    IsRun (spell front) word (spell back) := by
  have sorted := ofSort_pieces line
  have chain := isChain_pieces line
  rw [parts] at sorted chain
  obtain ⟨frontSorted, backSorted⟩ := List.forall_mem_append.mp sorted
  obtain ⟨⟨nonempty, graphic⟩, behind⟩ := List.forall_mem_cons.mp backSorted
  obtain ⟨-, backChain, around⟩ := List.isChain_append.mp chain
  refine ⟨nonempty, graphic, ?_, ?_⟩
  · rcases List.eq_nil_or_concat front with rfl | ⟨others, last, rfl⟩
    · simp
    · rw [List.concat_eq_append] at frontSorted around ⊢
      have lastSorted := frontSorted last (by simp)
      have other : last.isWord = false := by
        simpa [Apart, Piece.isWord, Piece.isSpace] using around last (by simp)
          (.word word) (by simp)
      intro character present
      rw [spell_append, spell_cons, spell_nil, List.append_nil,
        List.getLast?_append_of_ne_nil _ lastSorted.text_ne_nil] at present
      exact lastSorted.not_graphic other character (List.mem_of_getLast? present)
  · cases back with
    | nil => simp
    | cons next rest =>
        have nextSorted := behind next (by simp)
        have other : next.isWord = false := by
          simpa [Apart, Piece.isWord, Piece.isSpace] using (List.isChain_cons_cons.mp backChain).1
        intro character present
        rw [spell_cons, List.head?_append_of_ne_nil _ nextSorted.text_ne_nil] at present
        exact nextSorted.not_graphic other character (List.mem_of_head? present)

/-- Words and wide characters are tokens. -/
theorem isToken_of_mem_pieces {line : List Char} {piece : Piece}
    (present : piece ∈ pieces false line)
    (ink : piece.isInk = true) : IsToken line piece.text := by
  obtain ⟨front, back, parts⟩ := List.append_of_mem present
  refine ⟨spell front, spell back, ?_, ?_⟩
  · rw [← spell_pieces false line, parts]
    simp
  · cases piece with
    | marker text => cases ink
    | space text => cases ink
    | word text => exact Or.inl (isRun_of_pieces parts)
    | wide character => exact Or.inr ⟨character, rfl, ofSort_pieces line _ present⟩

/-! ## Pieces of texts put together -/

theorem consChar_append (character : Char) {front : List Piece} (some : front ≠ [])
    (back : List Piece) :
    consChar character (front ++ back) = consChar character front ++ back := by
  obtain ⟨first, rest, rfl⟩ := List.exists_cons_of_ne_nil some
  unfold consChar
  split
  · cases first <;> rfl
  · split
    · cases first <;> rfl
    · rfl

theorem pieces_ne_nil {line : List Char} (some : line ≠ []) : pieces false line ≠ [] := by
  intro none
  have spelled := spell_pieces false line
  rw [none] at spelled
  exact some spelled.symm

/-- Texts have the pieces of both together where the second begins with a character of
another sort than the first ends with. -/
theorem pieces_append {front : List Char} {next : Char} {back : List Char} (whole : '\n' ∉ front)
    (newline : next ≠ '\n') (apart : ∀ last ∈ front.getLast?, alike last next = false) :
    pieces false (front ++ next :: back) = pieces false front ++ pieces false (next :: back) := by
  induction front with
  | nil => rfl
  | cons character rest inductionHypothesis =>
      obtain ⟨first, others⟩ : '\n' ≠ character ∧ '\n' ∉ rest := by simpa using whole
      cases rest with
      | nil =>
          rw [List.singleton_append, pieces_cons, pieces_cons,
            consChar_of_not_alike ⟨first.symm, newline⟩ (apart character (by simp)), pieces_cons,
            pieces_nil, consChar_nil]
          rfl
      | cons following more =>
          rw [List.cons_append, pieces_cons, inductionHypothesis others fun last found => ?_,
            consChar_append character (pieces_ne_nil (by simp)), ← pieces_cons]
          exact apart last (by rwa [List.getLast?_cons_cons])

/-- A token does not go on with a text where not both of the characters that meet are
graphic. -/
theorem alike_eq_false_of_shown {last next : Char}
    (shown : isBlank last = false ∨ isBlank next = false)
    (plain : isGraphic last = false ∨ isGraphic next = false) : alike last next = false := by
  rcases shown with shown | shown <;> rcases plain with plain | plain <;> simp [alike, shown, plain]

/-- Graphic characters alone are one word. -/
theorem pieces_of_graphic {word : List Char} (some : word ≠ [])
    (graphic : ∀ character ∈ word, isGraphic character = true) :
    pieces false word = [.word word] := by
  induction word with
  | nil => exact absurd rfl some
  | cons character rest inductionHypothesis =>
      obtain ⟨first, others⟩ := List.forall_mem_cons.mp graphic
      have shown := isBlank_eq_false_of_isGraphic first
      rw [pieces_cons]
      cases rest with
      | nil =>
        rw [pieces_nil, consChar_nil, single]
        simp only [shown, first, Bool.false_eq_true, if_false, if_true]
      | cons next more =>
        rw [inductionHypothesis (by simp) others]
        unfold consChar
        simp only [shown, first, Bool.false_eq_true, if_false, if_true]

/-- A maximal run of graphic characters is a word among the pieces of its line. -/
theorem IsRun.mem_pieces {front run back : List Char} (isRun : IsRun front run back)
    (whole : '\n' ∉ front ++ run ++ back) : .word run ∈ pieces false (front ++ run ++ back) := by
  obtain ⟨some, graphic, before, after⟩ := isRun
  have shown (character : Char) (present : character ∈ run) : isBlank character = false :=
    isBlank_eq_false_of_isGraphic (graphic character present)
  simp only [List.mem_append, not_or] at whole
  obtain ⟨⟨frontWhole, runWhole⟩, backWhole⟩ := whole
  have here : .word run ∈ pieces false (run ++ back) := by
    have alone := pieces_of_graphic some graphic
    cases back with
    | nil => simp [alone]
    | cons next more =>
        rw [pieces_append runWhole fun same => backWhole (by simp [same]), alone]
        · simp
        · exact fun last ends => alike_eq_false_of_shown
            (Or.inl (shown last (List.mem_of_getLast? ends))) (Or.inr (after next rfl))
  obtain ⟨first, rest, rfl⟩ := List.exists_cons_of_ne_nil some
  rw [List.cons_append] at here
  rw [List.append_assoc, List.cons_append,
    pieces_append frontWhole fun same => runWhole (by simp [same])]
  · exact List.mem_append_right _ here
  · exact fun last ends => alike_eq_false_of_shown (Or.inr (shown first (by simp)))
      (Or.inl (before last ends))

/-- The tokens of a line are its words and wide characters. -/
theorem isToken_iff {line token : List Char} (whole : '\n' ∉ line) :
    IsToken line token ↔ ∃ piece ∈ pieces false line, piece.isInk = true ∧ piece.text = token := by
  refine ⟨?_, fun ⟨piece, present, ink, same⟩ => same ▸ isToken_of_mem_pieces present ink⟩
  rintro ⟨front, back, rfl, run | ⟨character, rfl, shown, plain⟩⟩
  · exact ⟨.word token, run.mem_pieces whole, rfl, rfl⟩
  · refine ⟨.wide character, ?_, rfl, rfl⟩
    rw [List.append_assoc, List.singleton_append] at whole ⊢
    rw [pieces_append (fun newline => whole (by simp [newline]))
      (fun same => whole (by simp [same]))
      fun last _ => alike_eq_false_of_shown (Or.inr shown) (Or.inr plain), pieces_cons]
    unfold consChar
    simp only [shown, plain, Bool.false_eq_true, if_false]
    exact List.mem_append_right _ (List.mem_cons_self ..)

end Wrap
end Galley
