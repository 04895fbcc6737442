import Galley.Proofs.Markers
import Galley.Wrap

/-!
# Wrapping keeps the ink

Wrapping cuts a line into pieces and puts all of them but blanks on lines again, in
their order.  The filler is followed piece by piece: each piece adds its ink to what the
filler holds.
-/

namespace Galley
namespace Wrap

open Text

/-! ## Pieces -/

theorem spell_consChar (character : Char) (pieces : List Piece) :
    Piece.spell (consChar character pieces) = character :: Piece.spell pieces := by
  unfold consChar
  split
  · split <;> simp [Piece.text]
  · split
    · split <;> simp [Piece.text]
    · simp [Piece.text]

/-- The pieces of a list of symbols spell it. -/
theorem spell_piecesOfSymbols (symbols : List Symbol) :
    Piece.spell (piecesOfSymbols symbols) = Symbol.spell symbols := by
  induction symbols with
  | nil => rfl
  | cons symbol rest inductionHypothesis =>
      cases symbol with
      | marker marker => simp [piecesOfSymbols, Piece.text, Symbol.text, inductionHypothesis]
      | char character =>
          rw [piecesOfSymbols, spell_consChar, inductionHypothesis]
          rfl

/-- The pieces of a line spell it. -/
theorem spell_pieces (markers : Bool) (line : List Char) :
    Piece.spell (pieces markers line) = line := by
  unfold pieces
  rw [spell_piecesOfSymbols]
  split
  · exact Marker.spell_symbols line
  · induction line with
    | nil => rfl
    | cons character rest inductionHypothesis =>
        rw [List.map_cons, Symbol.spell_cons, inductionHypothesis]
        rfl

/-- Runs of blanks are blank. -/
def SpacesBlank (pieces : List Piece) : Prop :=
  ∀ text, Piece.space text ∈ pieces → ink text = []

theorem spacesBlank_consChar (character : Char) {pieces : List Piece} (blank : SpacesBlank pieces) :
    SpacesBlank (consChar character pieces) := by
  unfold consChar
  split
  · rename_i present
    split
    · rename_i text rest
      intro other listed
      rcases List.mem_cons.mp listed with same | later
      · obtain rfl : other = character :: text := by simpa using same
        rw [ink_cons, if_pos present, blank text (by simp)]
        rfl
      · exact blank other (by simp [later])
    · intro other listed
      rcases List.mem_cons.mp listed with same | later
      · obtain rfl : other = [character] := by simpa using same
        rw [ink_cons, if_pos present]
        rfl
      · exact blank other later
  · split
    · split <;> intro other listed <;> exact blank other (by simpa using listed)
    · intro other listed
      exact blank other (by simpa using listed)

theorem spacesBlank_pieces (markers : Bool) (line : List Char) :
    SpacesBlank (pieces markers line) := by
  unfold pieces
  generalize (if markers then Marker.symbols line else line.map Symbol.char) = symbols
  induction symbols with
  | nil => intro text present; cases present
  | cons symbol rest inductionHypothesis =>
      cases symbol with
      | marker marker =>
          intro text present
          exact inductionHypothesis text (by simpa [piecesOfSymbols] using present)
      | char character => exact spacesBlank_consChar character inductionHypothesis

/-- Blanks among pieces that hold neither words nor wide characters can be deleted. -/
theorem ink_spell_filter_isMarker
    {pieces : List Piece}
    (blank : SpacesBlank pieces)
    (loose : ∀ piece ∈ pieces, piece.isInk = false) :
    ink (Piece.spell (pieces.filter Piece.isMarker)) = ink (Piece.spell pieces) := by
  induction pieces with
  | nil => rfl
  | cons piece rest inductionHypothesis =>
      have below := inductionHypothesis
        (fun text present => blank text (by simp [present]))
        fun other present => loose other (by simp [present])
      cases piece with
      | marker text =>
          have kept : Piece.isMarker (.marker text) = true := rfl
          rw [List.filter_cons_of_pos kept, Piece.spell_cons, Piece.spell_cons, ink_append,
            ink_append, below]
      | space text =>
          have dropped : ¬ Piece.isMarker (.space text) = true := by simp [Piece.isMarker]
          rw [List.filter_cons_of_neg dropped, Piece.spell_cons, ink_append, below,
            show ink (Piece.text (.space text)) = [] from blank text (by simp), List.nil_append]
      | word text => simpa [Piece.isInk] using loose (.word text) (by simp)
      | wide character => simpa [Piece.isInk] using loose (.wide character) (by simp)

/-! ## The filler -/

namespace Filler

/-- The ink of all that a filler holds. -/
def ink (filler : Filler) : List Char :=
  Text.ink (filler.finished.flatMap Piece.spell ++ Piece.spell filler.pending)

theorem ink_push (filler : Filler) (piece : Piece) :
    (filler.push piece).ink = filler.ink ++ Text.ink piece.text := by
  simp [ink, push]

/-- A pending line without words holds blanks and markers only. -/
theorem isInk_eq_false_of_not_hasInk {filler : Filler} (none : filler.hasInk = false) :
    ∀ piece ∈ filler.pending, piece.isInk = false := by
  simpa [hasInk] using none

theorem ink_dropSpace {filler : Filler} (blank : SpacesBlank filler.pending)
    (none : filler.hasInk = false) : filler.dropSpace.ink = filler.ink := by
  simp only [ink, dropSpace, ink_append,
    ink_spell_filter_isMarker blank (isInk_eq_false_of_not_hasInk none)]

/-- Cutting a line drops blanks only. -/
theorem ink_cut {line : List Piece} (blank : SpacesBlank line) :
    Text.ink (Piece.spell (cut line).1 ++ Piece.spell (cut line).2) =
      Text.ink (Piece.spell line) := by
  obtain ⟨tail, whole, loose⟩ :=
    exists_dropEndWhile (fun piece : Piece => piece.isSpace || piece.isMarker) line
  unfold cut
  dsimp only
  rw [drop_length_of_append whole]
  have parts : tail = tail.takeWhile Piece.isMarker ++ tail.dropWhile Piece.isMarker :=
    List.takeWhile_append_dropWhile.symm
  rw [drop_length_of_append parts]
  have inTail : ∀ piece ∈ tail.dropWhile Piece.isMarker, piece ∈ tail :=
    fun _ present => (List.dropWhile_sublist _).subset present
  have blankTail : SpacesBlank (tail.dropWhile Piece.isMarker) := fun text present =>
    blank text (whole ▸ List.mem_append_right _ (inTail _ present))
  have looseTail : ∀ piece ∈ tail.dropWhile Piece.isMarker, piece.isInk = false := by
    intro piece present
    have holds := loose piece (inTail piece present)
    cases piece with
    | marker text => rfl
    | space text => rfl
    | word text => simp [Piece.isSpace, Piece.isMarker] at holds
    | wide character => simp [Piece.isSpace, Piece.isMarker] at holds
  have carried := ink_spell_filter_isMarker blankTail looseTail
  rw [ink_append, carried, ← ink_append, ← Piece.spell_append, List.append_assoc, ← parts, ← whole]

theorem ink_breakLine {filler : Filler} (blank : SpacesBlank filler.pending) :
    filler.breakLine.ink = filler.ink := by
  have cutInk := ink_cut blank
  simp only [ink_append] at cutInk
  simp [ink, breakLine, cutInk]

/-- Only markers are carried over a break. -/
theorem spacesBlank_breakLine (filler : Filler) : SpacesBlank filler.breakLine.pending := by
  intro text present
  have kept := (List.mem_filter.mp present).2
  cases kept

theorem spacesBlank_dropSpace (filler : Filler) : SpacesBlank filler.dropSpace.pending := by
  intro text present
  have kept := (List.mem_filter.mp present).2
  cases kept

theorem spacesBlank_push {filler : Filler} {piece : Piece} (blank : SpacesBlank filler.pending)
    (piece_blank : ∀ text, piece = .space text → Text.ink text = []) :
    SpacesBlank (filler.push piece).pending := by
  intro text present
  rcases List.mem_append.mp present with before | last
  · exact blank text before
  · exact piece_blank text (List.mem_singleton.mp last).symm

/-- A filler holds some ink, and its pending line has proper runs of blanks. -/
structure Holds (filler : Filler) (shown : List Char) : Prop where
  /-- What it holds. -/
  ink : filler.ink = shown
  /-- Runs of blanks are blank. -/
  blank : SpacesBlank filler.pending

namespace Holds

variable {filler : Filler} {shown : List Char}

theorem push (holds : Holds filler shown) {piece : Piece}
    (piece_blank : ∀ text, piece = .space text → Text.ink text = []) :
    Holds (filler.push piece) (shown ++ Text.ink piece.text) :=
  ⟨by rw [ink_push, holds.ink], spacesBlank_push holds.blank piece_blank⟩

theorem breakLine (holds : Holds filler shown) : Holds filler.breakLine shown :=
  ⟨by rw [ink_breakLine holds.blank, holds.ink], spacesBlank_breakLine filler⟩

theorem dropSpace (holds : Holds filler shown) (none : filler.hasInk = false) :
    Holds filler.dropSpace shown :=
  ⟨by rw [ink_dropSpace holds.blank none, holds.ink], spacesBlank_dropSpace filler⟩

theorem addSpace (holds : Holds filler shown) (budget : Nat) {text : List Char}
    (blank : Text.ink text = []) : Holds (filler.addSpace budget text) shown := by
  unfold Filler.addSpace
  split
  · exact holds
  · split
    · split
      · exact holds.breakLine
      · exact holds.dropSpace (by simpa using ‹¬ filler.hasInk = true›)
    · have proper : ∀ other, Piece.space text = .space other → Text.ink other = [] := by
        rintro other same
        cases same
        exact blank
      have pushed := holds.push proper
      rwa [show Text.ink (Piece.text (.space text)) = [] from blank, List.append_nil] at pushed

/-- The characters of a long word are added one after the other. -/
theorem addParts (holds : Holds filler shown) (budget : Nat) (word : List Char) :
    Holds (word.foldl (Filler.addPart budget) filler) (shown ++ Text.ink word) := by
  induction word generalizing filler shown with
  | nil => simpa using holds
  | cons character rest inductionHypothesis =>
      have proper : ∀ other, Piece.word [character] = .space other → Text.ink other = [] :=
        fun other same => by cases same
      have added : Holds (filler.addPart budget character)
          (shown ++ Text.ink (Piece.text (.word [character]))) := by
        unfold Filler.addPart
        dsimp only
        split
        · exact holds.breakLine.push proper
        · exact holds.push proper
      have all := inductionHypothesis added
      rwa [List.append_assoc, ← ink_append] at all

theorem addInk (holds : Holds filler shown) (budget : Nat) {piece : Piece}
    (proper : ∀ text, piece = .space text → Text.ink text = []) :
    Holds (filler.addInk budget piece) (shown ++ Text.ink piece.text) := by
  unfold Filler.addInk
  split
  · exact holds.push proper
  · have fresh : Holds (if filler.hasInk then filler.breakLine else filler.dropSpace) shown := by
      split
      · exact holds.breakLine
      · exact holds.dropSpace (by simpa using ‹¬ filler.hasInk = true›)
    dsimp only
    split
    · exact fresh.push proper
    · exact fresh.addParts budget piece.text

/-- A piece adds its ink. -/
theorem add (holds : Holds filler shown) (budget : Nat) (piece : Piece)
    (proper : ∀ text, piece = .space text → Text.ink text = []) :
    Holds (filler.add budget piece) (shown ++ Text.ink piece.text) := by
  cases piece with
  | marker text => exact holds.push proper
  | space text =>
      have blank : Text.ink (Piece.text (.space text)) = [] := proper text rfl
      rw [blank, List.append_nil]
      exact holds.addSpace budget (proper text rfl)
  | word text => exact holds.addInk budget proper
  | wide character => exact holds.addInk budget proper

/-- All pieces add their ink, one after the other. -/
theorem addAll (holds : Holds filler shown) (budget : Nat) {pieces : List Piece}
    (blank : SpacesBlank pieces) :
    Holds (pieces.foldl (Filler.add budget) filler) (shown ++ Text.ink (Piece.spell pieces)) := by
  induction pieces generalizing filler shown with
  | nil => simpa using holds
  | cons piece rest inductionHypothesis =>
      have added := holds.add budget piece fun text same => blank text (by simp [same])
      have all := inductionHypothesis added fun text present => blank text (by simp [present])
      rwa [List.append_assoc, ← ink_append, ← Piece.spell_cons] at all

end Holds

theorem flatten_attach {lines : List (List Piece)} (started : lines ≠ []) (extra : List Piece) :
    (attach lines extra).flatten = lines.flatten ++ extra := by
  induction lines with
  | nil => exact absurd rfl started
  | cons line others inductionHypothesis =>
      cases others with
      | nil => simp [attach]
      | cons next rest =>
          have unfolded : attach (line :: next :: rest) extra =
              line :: attach (next :: rest) extra :=
            rfl
          rw [unfolded, List.flatten_cons, inductionHypothesis (by simp), ← List.append_assoc,
            ← List.flatten_cons]

theorem flatMap_spell_attach {lines : List (List Piece)} (started : lines ≠ [])
    (extra : List Piece) :
    (attach lines extra).flatMap Piece.spell = lines.flatMap Piece.spell ++ Piece.spell extra := by
  have spelled (texts : List (List Piece)) : texts.flatMap Piece.spell =
      Piece.spell texts.flatten := by
    rw [Piece.spell, List.flatten_eq_flatMap, List.flatMap_assoc]
    rfl
  rw [spelled, spelled, flatten_attach started, Piece.spell_append]

/-- Trimming the end of a line of pieces drops blanks. -/
theorem ink_trimEnd {line : List Piece} (blank : SpacesBlank line) :
    Text.ink (Piece.spell (trimEnd line)) = Text.ink (Piece.spell line) := by
  obtain ⟨tail, whole, spaces⟩ := exists_dropEndWhile Piece.isSpace line
  have dropped : Text.ink (Piece.spell tail) = [] := by
    rw [Piece.spell, ink_flatMap, List.flatMap_eq_nil_iff]
    intro piece present
    have space := spaces piece present
    cases piece with
    | space text => exact blank text (whole ▸ List.mem_append_right _ present)
    | marker text => cases space
    | word text => cases space
    | wide character => cases space
  have parts := congrArg (fun pieces => Text.ink (Piece.spell pieces)) whole
  simp only [Piece.spell_append, ink_append, dropped, List.append_nil] at parts
  exact parts.symm

/-- The lines of a filler show what it holds. -/
theorem Holds.lines {filler : Filler} {shown : List Char} (holds : Holds filler shown) :
    Text.ink (filler.lines.flatMap Piece.spell) = shown := by
  rw [← holds.ink]
  unfold Filler.lines Filler.ink
  split
  · rw [List.flatMap_append, ink_append, ink_append]
    simp only [List.flatMap_cons, List.flatMap_nil, List.append_nil, ink_trimEnd holds.blank]
  · rename_i started
    have more : filler.finished ≠ [] := by
      intro none
      simp [none] at started
    rw [flatMap_spell_attach more]

end Filler

/-- The lines of a hard line show its ink. -/
theorem ink_wrapLine (markers : Bool) (budget : Nat) (line : List Char) :
    (wrapLine markers budget line).flatMap ink = ink line := by
  have start : Filler.Holds {} [] := ⟨rfl, fun text present => by cases present⟩
  have filled := (start.addAll budget (spacesBlank_pieces markers line)).lines
  rw [spell_pieces, List.nil_append, ink_flatMap] at filled
  rw [wrapLine, List.flatMap_map, fill, filled]

/-- Wrapping keeps the ink of a text. -/
theorem ink_wrap (markers : Bool) (width : Int) (text : List Char) :
    ink (wrap markers width text) = ink text := by
  rw [wrap, ink_unlines, List.flatMap_assoc, ← flatMap_ink_lines text]
  simp only [ink_wrapLine]

end Wrap
end Galley
