import Galley.Proofs.Erasure
import Galley.Proofs.Wrap.Content

/-!
# Pieces of marked lines

Where no marker stands inside a word or a run of blanks, a marked line has the pieces of
the line without markers, and markers between them.
-/

namespace Galley
namespace Wrap

open Marker Text

/-! ## Pieces of marked lines -/

/-- Whether two characters would belong to one piece: both are blanks or both are
graphic. -/
def alike (before after : Char) : Bool :=
  before != '\n' && after != '\n' &&
    (isBlank before && isBlank after || isGraphic before && isGraphic after)

/-- No marker stands between two characters of one word or of one run of blanks. -/
def Parted (symbols : List Symbol) : Prop :=
  ∀ before markers after, markers ≠ [] → (∀ symbol ∈ markers, Symbol.isMarker symbol = true) →
    .char before :: (markers ++ [.char after]) <:+: symbols → alike before after = false

theorem Parted.part {symbols part : List Symbol} (parted : Parted symbols)
    (inside : part <:+: symbols) : Parted part :=
  fun before markers after some marked within =>
    parted before markers after some marked (within.trans inside)

/-- Whether the first character behind some markers belongs to another piece than the
one before them. -/
def partsFrom (before : Char) : List Symbol → Bool
  | .marker _ :: rest => partsFrom before rest
  | .char after :: _ => !alike before after
  | [] => true

theorem partsFrom_iff {before : Char} {rest : List Symbol} :
    partsFrom before rest = true ↔ ∀ markers after more,
      (∀ symbol ∈ markers, Symbol.isMarker symbol = true) →
        rest = markers ++ .char after :: more → alike before after = false := by
  induction rest with
  | nil => simp [partsFrom]
  | cons symbol rest inductionHypothesis =>
      cases symbol with
      | char character =>
          rw [partsFrom, Bool.not_eq_true']
          constructor
          · rintro apart (_ | ⟨marker, markers⟩) after more marked same
            · obtain rfl := Symbol.char.inj (List.cons.inj same).1
              exact apart
            · obtain rfl := (List.cons.inj same).1
              exact absurd (marked _ (List.mem_cons_self ..)) (by simp [Symbol.isMarker])
          · exact fun apart => apart [] character rest (by simp) rfl
      | marker text =>
          rw [partsFrom, inductionHypothesis]
          constructor
          · rintro apart (_ | ⟨marker, markers⟩) after more marked same
            · cases same
            · exact apart markers after more (fun other present => marked other (by simp [present]))
                (List.cons.inj same).2
          · rintro apart markers after more marked rfl
            exact apart (.marker text :: markers) after more
              (by simpa [Symbol.isMarker] using marked) rfl

theorem parted_cons_marker {text : List Char} {rest : List Symbol} :
    Parted (.marker text :: rest) ↔ Parted rest := by
  refine ⟨fun parted => parted.part (List.suffix_cons _ _).isInfix, ?_⟩
  intro parted before markers after some marked within
  rcases List.infix_cons_iff.mp within with start | later
  · cases (List.cons_prefix_cons.mp start).1
  · exact parted before markers after some marked later

theorem parted_cons_char_char {first second : Char} {rest : List Symbol} :
    Parted (.char first :: .char second :: rest) ↔ Parted (.char second :: rest) := by
  refine ⟨fun parted => parted.part (List.suffix_cons _ _).isInfix, ?_⟩
  intro parted before markers after some marked within
  rcases List.infix_cons_iff.mp within with start | later
  · obtain ⟨marker, others, rfl⟩ := List.exists_cons_of_ne_nil some
    obtain rfl := (List.cons_prefix_cons.mp (List.cons_prefix_cons.mp start).2).1
    exact absurd (marked _ (List.mem_cons_self ..)) (by simp [Symbol.isMarker])
  · exact parted before markers after some marked later

theorem parted_cons_char_marker {first : Char} {text : List Char} {rest : List Symbol} :
    Parted (.char first :: .marker text :: rest) ↔ partsFrom first rest = true ∧ Parted rest := by
  constructor
  · intro parted
    refine ⟨partsFrom_iff.mpr ?_, parted_cons_marker.mp
      (parted.part (List.suffix_cons _ _).isInfix)⟩
    rintro markers after more marked rfl
    refine parted first (.marker text :: markers) after (by simp)
      (by simpa [Symbol.isMarker] using marked) ?_
    exact ⟨[], more, by simp⟩
  · rintro ⟨apart, parted⟩ before markers after some marked within
    rcases List.infix_cons_iff.mp within with start | later
    · obtain ⟨same, more, whole⟩ := List.cons_prefix_cons.mp start
      obtain ⟨marker, others, rfl⟩ := List.exists_cons_of_ne_nil some
      obtain rfl := Symbol.char.inj same
      refine partsFrom_iff.mp apart others after more
        (fun other present => marked other (by simp [present])) ?_
      simpa using (List.cons.inj whole).2.symm
    · exact parted_cons_marker.mpr parted before markers after some marked later

/-- Reading a line from left to right tells whether its markers stand between pieces. -/
def decideParted : (symbols : List Symbol) → Decidable (Parted symbols)
  | [] => isTrue fun _ _ _ _ _ within => by simp at within
  | .marker _ :: rest => @decidable_of_iff _ _ parted_cons_marker.symm (decideParted rest)
  | [.char _] => isTrue fun _ markers _ some _ within => by
      have length := within.length_le
      simp at length
  | .char _ :: .char second :: rest =>
      @decidable_of_iff _ _ parted_cons_char_char.symm (decideParted (.char second :: rest))
  | .char _ :: .marker _ :: rest =>
      @decidable_of_iff _ _ parted_cons_char_marker.symm
        (@instDecidableAnd _ _ inferInstance (decideParted rest))

instance : DecidablePred Parted := decideParted

namespace Piece

/-- The symbols of a piece. -/
def symbols : Piece → List Symbol
  | .marker text => [.marker text]
  | .space text => text.map .char
  | .word text => text.map .char
  | .wide character => [.char character]

/-- The symbols of a list of pieces. -/
def expand (pieces : List Piece) : List Symbol :=
  pieces.flatMap symbols

/-- A list of pieces without its markers. -/
def bare (pieces : List Piece) : List Piece :=
  pieces.filter fun piece => !piece.isMarker

@[simp] theorem expand_nil : expand [] = [] := rfl

@[simp] theorem expand_cons (piece : Piece) (rest : List Piece) :
    expand (piece :: rest) = piece.symbols ++ expand rest := rfl

@[simp] theorem expand_append (first second : List Piece) :
    expand (first ++ second) = expand first ++ expand second := by
  simp [expand]

@[simp] theorem bare_nil : bare [] = [] := rfl

@[simp] theorem bare_append (first second : List Piece) :
    bare (first ++ second) = bare first ++ bare second := by
  simp [bare]

@[simp] theorem bare_marker (text : List Char) (rest : List Piece) :
    bare (.marker text :: rest) = bare rest := rfl

@[simp] theorem bare_space (text : List Char) (rest : List Piece) :
    bare (.space text :: rest) = .space text :: bare rest := rfl

@[simp] theorem bare_word (text : List Char) (rest : List Piece) :
    bare (.word text :: rest) = .word text :: bare rest := rfl

@[simp] theorem bare_wide (character : Char) (rest : List Piece) :
    bare (.wide character :: rest) = .wide character :: bare rest := rfl

theorem bare_cons {piece : Piece} (shown : piece.isMarker = false) (rest : List Piece) :
    bare (piece :: rest) = piece :: bare rest := by
  simp [bare, shown]

theorem bare_of_isMarker {pieces : List Piece}
    (markers : ∀ piece ∈ pieces, piece.isMarker = true) : bare pieces = [] := by
  simpa [bare, List.filter_eq_nil_iff] using markers

theorem isInk_of_isMarker {piece : Piece} (marker : piece.isMarker = true) :
    piece.isInk = false := by
  cases piece with
  | marker text => rfl
  | space text => rfl
  | word text => cases marker
  | wide character => cases marker

theorem isInk_of_isSpace {piece : Piece} (space : piece.isSpace = true) : piece.isInk = false := by
  cases piece with
  | marker text => rfl
  | space text => rfl
  | word text => cases space
  | wide character => cases space

theorem isMarker_of_isInk {piece : Piece} (ink : piece.isInk = true) :
    piece.isMarker = false := by
  cases piece with
  | marker text => cases ink
  | space text => rfl
  | word text => rfl
  | wide character => rfl

theorem isMarker_of_mem_bare {pieces : List Piece} {piece : Piece} (present : piece ∈ bare pieces) :
    piece.isMarker = false := by
  simpa using (List.mem_filter.mp present).2

@[simp] theorem spell_expand (pieces : List Piece) :
    Symbol.spell (expand pieces) = spell pieces := by
  induction pieces with
  | nil => rfl
  | cons piece rest inductionHypothesis =>
      cases piece <;> simp [symbols, text, Symbol.text, inductionHypothesis]

/-- The characters of pieces are spelled by those that are no markers. -/
theorem chars_expand (pieces : List Piece) :
    Symbol.chars (expand pieces) = spell (bare pieces) := by
  induction pieces with
  | nil => rfl
  | cons piece rest inductionHypothesis =>
      cases piece with
      | marker text => simp [symbols, inductionHypothesis]
      | space text => simp [symbols, Piece.text, inductionHypothesis]
      | word text => simp [symbols, Piece.text, inductionHypothesis]
      | wide character => simp [symbols, Piece.text, inductionHypothesis]

theorem erase_spell_pieces {pieces : List Piece} (legible : Legible (expand pieces)) :
    erase (spell pieces) = spell (bare pieces) := by
  rw [← spell_expand, erase_spell legible, chars_expand]

@[simp] theorem width_bare (pieces : List Piece) : width (bare pieces) = width pieces := by
  induction pieces with
  | nil => rfl
  | cons piece rest inductionHypothesis =>
      cases piece with
      | marker text => simp [inductionHypothesis, columns]
      | space text => simp [inductionHypothesis]
      | word text => simp [inductionHypothesis]
      | wide character => simp [inductionHypothesis]

@[simp] theorem any_isInk_bare (pieces : List Piece) :
    (bare pieces).any isInk = pieces.any isInk := by
  induction pieces with
  | nil => rfl
  | cons piece rest inductionHypothesis =>
      cases piece with
      | marker text => simpa [isInk] using inductionHypothesis
      | space text => simp [inductionHypothesis]
      | word text => simp [inductionHypothesis]
      | wide character => simp [inductionHypothesis]

end Piece

open Piece

theorem expand_consChar (character : Char) (pieces : List Piece) :
    expand (consChar character pieces) = .char character :: expand pieces := by
  unfold consChar
  split
  · split <;> simp [Piece.symbols]
  · split
    · split <;> simp [Piece.symbols]
    · simp [Piece.symbols]

/-- The pieces of symbols stand for the same symbols. -/
theorem expand_piecesOfSymbols (symbols : List Symbol) :
    expand (piecesOfSymbols symbols) = symbols := by
  induction symbols with
  | nil => rfl
  | cons symbol rest inductionHypothesis =>
      cases symbol with
      | marker marker => simp [piecesOfSymbols, Piece.symbols, inductionHypothesis]
      | char character => rw [piecesOfSymbols, expand_consChar, inductionHypothesis]

/-- The piece of a character by itself. -/
def single (character : Char) : Piece :=
  if isBlank character then .space [character]
  else if isGraphic character then .word [character]
  else .wide character

theorem isMarker_single (character : Char) : (single character).isMarker = false := by
  unfold single
  split
  · rfl
  · split <;> rfl

theorem consChar_nil (character : Char) : consChar character [] = [single character] := by
  unfold consChar single
  split
  · rfl
  · split <;> rfl

/-- Before a marker a character is a piece by itself. -/
theorem consChar_marker (character : Char) (text : List Char) (rest : List Piece) :
    consChar character (.marker text :: rest) = single character :: .marker text :: rest := by
  unfold consChar single
  split
  · rfl
  · split <;> rfl

/-- Before a character of another sort a character is a piece by itself. -/
theorem consChar_of_not_alike {before after : Char} (line : before ≠ '\n' ∧ after ≠ '\n')
    (apart : alike before after = false) (pieces : List Piece) :
    consChar before (consChar after pieces) = single before :: consChar after pieces := by
  have sorts : ¬ (isBlank before = true ∧ isBlank after = true) ∧
      ¬ (isGraphic before = true ∧ isGraphic after = true) := by
    simpa [alike, line.1, line.2, not_or] using apart
  by_cases blankBefore : isBlank before = true
  · have shown : isBlank after = false := by simpa [blankBefore] using sorts.1
    have head (text : List Char) (rest : List Piece) :
        consChar after pieces ≠ .space text :: rest := by
      unfold consChar
      rw [shown]
      split
      · rename_i absurdly
        cases absurdly
      · split
        · split <;> simp
        · simp
    conv_lhs => unfold consChar
    rw [if_pos blankBefore, single, if_pos blankBefore]
    split
    · rename_i found
      exact absurd found (head _ _)
    · rfl
  · by_cases graphicBefore : isGraphic before = true
    · have other : isGraphic after = false := by simpa [graphicBefore] using sorts.2
      have head (text : List Char) (rest : List Piece) :
          consChar after pieces ≠ .word text :: rest := by
        unfold consChar
        split
        · split <;> simp
        · rw [other]
          simp
      conv_lhs => unfold consChar
      rw [if_neg blankBefore, if_pos graphicBefore, single, if_neg blankBefore,
        if_pos graphicBefore]
      split
      · rename_i found
        exact absurd found (head _ _)
      · rfl
    · conv_lhs => unfold consChar
      rw [if_neg blankBefore, if_neg graphicBefore, single, if_neg blankBefore,
        if_neg graphicBefore]
      rfl

/-- Behind a character the first piece is its own. -/
theorem exists_consChar (character : Char) (pieces : List Piece) :
    ∃ piece rest, consChar character pieces = piece :: rest ∧ piece.isMarker = false := by
  unfold consChar
  split
  · split <;> exact ⟨_, _, rfl, rfl⟩
  · split
    · split <;> exact ⟨_, _, rfl, rfl⟩
    · exact ⟨_, _, rfl, rfl⟩

/-- A character that joins the first of some pieces joins it with or without markers. -/
theorem bare_consChar (character next : Char) (pieces : List Piece) :
    bare (consChar character (consChar next pieces)) =
      consChar character (bare (consChar next pieces)) := by
  obtain ⟨piece, rest, found, shown⟩ := exists_consChar next pieces
  rw [found, bare_cons shown]
  unfold consChar
  split
  · cases piece with
    | marker text => cases shown
    | space text => rfl
    | word text => rfl
    | wide other => rfl
  · split
    · cases piece with
      | marker text => cases shown
      | space text => rfl
      | word text => rfl
      | wide other => rfl
    · rw [bare_wide, bare_cons shown]

/-- The first character among symbols stands behind markers only. -/
theorem exists_of_chars_eq_cons {symbols : List Symbol} {first : Char} {others : List Char}
    (found : Symbol.chars symbols = first :: others) :
    ∃ markers back, symbols = markers ++ .char first :: back ∧
      ∀ symbol ∈ markers, symbol.isMarker = true := by
  induction symbols with
  | nil => cases found
  | cons symbol rest inductionHypothesis =>
      cases symbol with
      | marker marker =>
          obtain ⟨markers, back, rfl, marked⟩ := inductionHypothesis found
          refine ⟨.marker marker :: markers, back, rfl, fun other present => ?_⟩
          rcases List.mem_cons.mp present with rfl | later
          · rfl
          · exact marked other later
      | char character =>
          obtain ⟨rfl, -⟩ := List.cons.inj found
          exact ⟨[], rest, rfl, by simp⟩

/-- Without its markers, a parted line has the pieces of its characters. -/
theorem bare_piecesOfSymbols {symbols : List Symbol} (parted : Parted symbols)
    (line : '\n' ∉ Symbol.chars symbols) :
    bare (piecesOfSymbols symbols) = piecesOfSymbols ((Symbol.chars symbols).map .char) := by
  induction symbols with
  | nil => rfl
  | cons symbol rest inductionHypothesis =>
      have partedRest := parted.part (List.suffix_cons symbol rest).isInfix
      cases symbol with
      | marker marker => exact inductionHypothesis partedRest line
      | char character =>
          obtain ⟨first, others⟩ : '\n' ≠ character ∧ '\n' ∉ Symbol.chars rest := by
            simpa using line
          have below := inductionHypothesis partedRest others
          cases rest with
          | nil =>
              simp [piecesOfSymbols, consChar_nil, bare_cons (isMarker_single character)]
          | cons next behind =>
              cases next with
              | char following =>
                  rw [piecesOfSymbols, piecesOfSymbols, bare_consChar, ← piecesOfSymbols, below]
                  rfl
              | marker marker =>
                  rw [piecesOfSymbols, bare_marker] at below
                  rw [piecesOfSymbols, piecesOfSymbols, consChar_marker,
                    bare_cons (isMarker_single character), bare_marker, below, Symbol.chars_char,
                    List.map_cons, piecesOfSymbols]
                  rw [Symbol.chars_marker] at others ⊢
                  cases found : Symbol.chars behind with
                  | nil =>
                      rw [List.map_nil, piecesOfSymbols, consChar_nil]
                  | cons after more =>
                      obtain ⟨markers, back, rfl, marked⟩ := exists_of_chars_eq_cons found
                      have apart : alike character after = false := by
                        refine parted character (.marker marker :: markers) after (by simp) ?_ ?_
                        · intro other present
                          rcases List.mem_cons.mp present with rfl | later
                          · rfl
                          · exact marked other later
                        · exact List.IsPrefix.isInfix ⟨back, by simp⟩
                      have ordinary : after ≠ '\n' := fun newline => by
                        rw [found, newline] at others
                        exact others (by simp)
                      rw [List.map_cons, piecesOfSymbols,
                        consChar_of_not_alike ⟨first.symm, ordinary⟩ apart]

/-- The pieces of a parted line without its markers are those of the erased line. -/
theorem bare_pieces {line : List Char} (parted : Parted (Marker.symbols line))
    (whole : '\n' ∉ erase line) : bare (pieces true line) = pieces false (erase line) :=
  bare_piecesOfSymbols parted whole

/-- A piece holds what its sort says. -/
def Proper : Piece → Prop
  | .marker _ => True
  | .space text => allBlank text = true
  | .word text => text ≠ [] ∧ ∀ character ∈ text, isBlank character = false
  | .wide character => isBlank character = false

theorem proper_consChar (character : Char) {pieces : List Piece}
    (proper : ∀ piece ∈ pieces, Proper piece) :
    ∀ piece ∈ consChar character pieces, Proper piece := by
  unfold consChar
  split
  · rename_i blank
    split
    · obtain ⟨space, rest⟩ := List.forall_mem_cons.mp proper
      refine List.forall_mem_cons.mpr ⟨?_, rest⟩
      simpa [Proper, allBlank, blank] using space
    · refine List.forall_mem_cons.mpr ⟨?_, proper⟩
      simp [Proper, allBlank, blank]
  · rename_i shown
    split
    · split
      · obtain ⟨word, rest⟩ := List.forall_mem_cons.mp proper
        refine List.forall_mem_cons.mpr ⟨⟨by simp, ?_⟩, rest⟩
        exact List.forall_mem_cons.mpr ⟨by simpa using shown, word.2⟩
      · refine List.forall_mem_cons.mpr ⟨⟨by simp, ?_⟩, proper⟩
        simpa using shown
    · refine List.forall_mem_cons.mpr ⟨?_, proper⟩
      simpa [Proper] using shown

theorem proper_pieces (markers : Bool) (line : List Char) :
    ∀ piece ∈ pieces markers line, Proper piece := by
  unfold pieces
  generalize (if markers then Marker.symbols line else line.map Symbol.char) = symbols
  induction symbols with
  | nil => simp [piecesOfSymbols]
  | cons symbol rest inductionHypothesis =>
      cases symbol with
      | marker marker => exact List.forall_mem_cons.mpr ⟨trivial, inductionHypothesis⟩
      | char character => exact proper_consChar character inductionHypothesis

end Wrap
end Galley
