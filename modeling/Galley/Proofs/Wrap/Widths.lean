import Galley.Proofs.Wrap.Marked

/-!
# Widths of wrapped lines

No line of a filler is wider than its budget, markers not counted, unless it is a single
character.  The pending line is followed piece by piece; once a line is finished, a
pending line without words has no columns, so that a character that does not fit stands
by itself.
-/

namespace Galley
namespace Columns

/-- Leaving out characters makes no text wider. -/
theorem ofText_le_of_sublist {text whole : List Char} (part : text.Sublist whole) :
    ofText text ≤ ofText whole := by
  induction part with
  | slnil => exact Nat.le_refl _
  | cons character _ inductionHypothesis =>
      rw [ofText_cons]
      omega
  | cons_cons character _ inductionHypothesis =>
      rw [ofText_cons, ofText_cons]
      omega

/-- A text of one character at most takes two columns at most. -/
theorem ofText_le_two {text : List Char} (short : text.length ≤ 1) : ofText text ≤ 2 := by
  match text with
  | [] => simp
  | [character] =>
      rcases ofChar_eq_one_or_two character with one | two <;> simp [*]
  | _ :: _ :: _ => simp at short

/-- A run of spaces takes a column for each. -/
@[simp] theorem ofText_replicate_space (count : Nat) :
    ofText (List.replicate count ' ') = count := by
  induction count with
  | zero => rfl
  | succ fewer inductionHypothesis =>
      have space : ofChar ' ' = 1 := rfl
      rw [List.replicate_succ, ofText_cons, inductionHypothesis, space, Nat.add_comm]

end Columns

namespace Wrap

open Piece

/-- A text fits a budget, or it is a single character, which no break can make
narrower. -/
def Fits (budget : Nat) (text : List Char) : Prop :=
  Columns.ofText text ≤ budget ∨ text.length ≤ 1

namespace Fits

variable {budget : Nat} {text whole : List Char}

theorem nil : Fits budget [] := Or.inl (Nat.zero_le budget)

/-- A part of what fits does. -/
theorem part (fits : Fits budget whole) (inside : text.Sublist whole) : Fits budget text :=
  fits.imp (Nat.le_trans (Columns.ofText_le_of_sublist inside)) (Nat.le_trans inside.length_le)

/-- Where there is room for any character, what fits is within the budget. -/
theorem ofText_le (fits : Fits budget text) (room : 2 ≤ budget) : Columns.ofText text ≤ budget :=
  fits.elim id fun short => Nat.le_trans (Columns.ofText_le_two short) room

end Fits

namespace Piece

/-- The width of pieces is that of their text without the markers. -/
theorem ofText_spell_bare (pieces : List Piece) :
    Columns.ofText (spell (bare pieces)) = width pieces := by
  induction pieces with
  | nil => rfl
  | cons piece rest inductionHypothesis =>
      cases piece with
      | marker text => simp [columns, inductionHypothesis]
      | space text => simp [columns, inductionHypothesis]
      | word text => simp [columns, inductionHypothesis]
      | wide character => simp [columns, inductionHypothesis]

/-- The filler measures a hard line as its text without the markers is measured. -/
theorem width_pieces (line : List Char) : width (pieces true line) = Columns.ofMarked line := by
  rw [← ofText_spell_bare, ← chars_expand, Wrap.pieces, if_pos rfl, expand_piecesOfSymbols,
    Columns.ofMarked, Marker.erase_eq_chars]

theorem spell_bare_sublist {pieces whole : List Piece} (part : pieces.Sublist whole) :
    (spell (bare pieces)).Sublist (spell (bare whole)) :=
  Filler.spell_sublist (part.filter _)

/-- Markers apart, pieces fit a budget. -/
def Fit (budget : Nat) (pieces : List Piece) : Prop :=
  Fits budget (spell (bare pieces))

theorem Fit.part {budget : Nat} {pieces whole : List Piece} (fit : Fit budget whole)
    (inside : pieces.Sublist whole) : Fit budget pieces :=
  Fits.part fit (spell_bare_sublist inside)

theorem fit_of_bare {budget : Nat} {pieces : List Piece} (none : bare pieces = []) :
    Fit budget pieces := by
  rw [Fit, none]
  exact Fits.nil

theorem fit_of_width {budget : Nat} {pieces : List Piece} (within : width pieces ≤ budget) :
    Fit budget pieces :=
  Or.inl (by rwa [ofText_spell_bare])

end Piece

namespace Filler

/-- Nothing but markers is carried over a break. -/
theorem bare_breakLine (filler : Filler) : bare filler.breakLine.pending = [] :=
  bare_filter_isMarker _

theorem bare_dropSpace (filler : Filler) : bare filler.dropSpace.pending = [] :=
  bare_filter_isMarker _

theorem hasInk_push (filler : Filler) (piece : Piece) :
    (filler.push piece).hasInk = (filler.hasInk || piece.isInk) := by
  simp [hasInk, push]

theorem attach_nil (lines : List (List Piece)) : attach lines [] = lines := by
  induction lines with
  | nil => rfl
  | cons line others inductionHypothesis =>
      cases others with
      | nil => simp [attach]
      | cons next rest => exact congrArg (line :: ·) inductionHypothesis

/-- The lines of a filler fit a budget, and nothing but markers is carried over a
break. -/
structure Narrow (budget : Nat) (filler : Filler) : Prop where
  /-- Finished lines fit. -/
  finished : ∀ line ∈ filler.finished, Fit budget line
  /-- The pending line fits. -/
  pending : Fit budget filler.pending
  /-- Behind a break, a pending line without words has no blanks. -/
  idle : filler.finished ≠ [] → filler.hasInk = false → bare filler.pending = []

namespace Narrow

variable {budget : Nat} {filler : Filler}

theorem start : Narrow budget {} :=
  ⟨by simp, fit_of_bare rfl, fun some => absurd rfl some⟩

theorem marker (narrow : Narrow budget filler) (text : List Char) :
    Narrow budget (filler.push (.marker text)) := by
  have pending : bare (filler.push (.marker text)).pending = bare filler.pending := by simp [push]
  refine ⟨narrow.finished, ?_, fun some none => ?_⟩
  · rw [Fit, pending]
    exact narrow.pending
  · rw [pending]
    refine narrow.idle some ?_
    rw [hasInk, ← any_isInk_bare, pending, any_isInk_bare] at none
    exact none

/-- A piece that fits behind the pending line, or stands on a line by itself, is added
to it. -/
theorem push (narrow : Narrow budget filler) {piece : Piece}
    (fit : Fit budget (filler.pending ++ [piece]))
    (ink : filler.finished ≠ [] → (filler.push piece).hasInk = true) :
    Narrow budget (filler.push piece) := by
  refine ⟨narrow.finished, fit, fun some none => ?_⟩
  rw [ink some] at none
  cases none

/-- A finished line is a part of the pending line. -/
theorem breakLine (narrow : Narrow budget filler) : Narrow budget filler.breakLine := by
  obtain ⟨body, attached, dropped, whole, -, -, -, cutLine⟩ := exists_cut filler.pending
  have part : (cut filler.pending).1.Sublist filler.pending := by
    rw [cutLine, whole]
    exact List.sublist_append_left _ _
  have none := bare_breakLine filler
  exact ⟨List.forall_mem_append.mpr
    ⟨narrow.finished, List.forall_mem_singleton.mpr (narrow.pending.part part)⟩,
    fit_of_bare none, fun _ _ => none⟩

theorem dropSpace (narrow : Narrow budget filler) : Narrow budget filler.dropSpace :=
  ⟨narrow.finished, fit_of_bare (bare_dropSpace filler), fun _ _ => bare_dropSpace filler⟩

theorem addSpace (narrow : Narrow budget filler) (text : List Char) :
    Narrow budget (filler.addSpace budget text) := by
  unfold Filler.addSpace
  split
  · exact narrow
  · rename_i begun
    split
    · split
      · exact narrow.breakLine
      · exact narrow.dropSpace
    · rename_i room
      refine narrow.push (fit_of_width ?_) fun some => ?_
      · simpa [used, columns, Piece.text] using room
      · have ink : filler.hasInk = true := by simpa [some] using begun
        rw [hasInk_push, ink, Bool.true_or]

/-- A character is added to a line where it fits, and else stands on a line by itself. -/
theorem addPart (narrow : Narrow budget filler)
    (bare_of_idle : filler.hasInk = false → bare filler.pending = []) (character : Char) :
    Narrow budget (filler.addPart budget character) := by
  have single {ready : Filler} (none : bare ready.pending = []) :
      Fit budget (ready.pending ++ [.word [character]]) := by
    rw [Fit, bare_append, none]
    exact Or.inr (Nat.le_refl 1)
  have ink (ready : Filler) : (ready.push (.word [character])).hasInk = true := by
    rw [hasInk_push]
    exact Bool.or_true _
  unfold Filler.addPart
  dsimp only
  split
  · exact narrow.breakLine.push (single (bare_breakLine filler)) fun _ => ink _
  · rename_i room
    refine narrow.push ?_ fun _ => ink _
    cases begun : filler.hasInk with
    | false => exact single (bare_of_idle begun)
    | true =>
        rw [begun, Bool.true_and, decide_eq_true_eq, Nat.not_lt] at room
        exact fit_of_width (by simpa [used, columns, Piece.text] using room)

/-- The characters of a long word are added one after the other. -/
theorem addParts (narrow : Narrow budget filler)
    (bare_of_idle : filler.hasInk = false → bare filler.pending = []) (word : List Char) :
    Narrow budget (word.foldl (Filler.addPart budget) filler) := by
  induction word generalizing filler with
  | nil => exact narrow
  | cons character rest inductionHypothesis =>
      refine inductionHypothesis (narrow.addPart bare_of_idle character) fun none => ?_
      unfold Filler.addPart at none
      rw [hasInk_push] at none
      simp [isInk] at none

theorem addInk (narrow : Narrow budget filler) {piece : Piece} (ink : piece.isInk = true) :
    Narrow budget (filler.addInk budget piece) := by
  have inked (ready : Filler) : (ready.push piece).hasInk = true := by
    rw [hasInk_push, ink, Bool.or_true]
  unfold Filler.addInk
  split
  · rename_i room
    exact narrow.push (fit_of_width (by simpa [used] using room)) fun _ => inked _
  · -- Both ways to make room leave no columns on the pending line.
    have fresh : Narrow budget (if filler.hasInk then filler.breakLine else filler.dropSpace) ∧
        bare (if filler.hasInk then filler.breakLine else filler.dropSpace).pending = [] := by
      split
      · exact ⟨narrow.breakLine, bare_breakLine filler⟩
      · exact ⟨narrow.dropSpace, bare_dropSpace filler⟩
    obtain ⟨narrowFresh, none⟩ := fresh
    dsimp only
    split
    · rename_i fits
      refine narrowFresh.push (fit_of_width ?_) fun _ => inked _
      rw [width_append, ← width_bare, none]
      simpa using fits
    · exact narrowFresh.addParts (fun _ => none) piece.text

theorem add (narrow : Narrow budget filler) (piece : Piece) :
    Narrow budget (filler.add budget piece) := by
  cases piece with
  | marker text => exact narrow.marker text
  | space text => exact narrow.addSpace text
  | word text => exact narrow.addInk rfl
  | wide character => exact narrow.addInk rfl

theorem addAll (narrow : Narrow budget filler) (pieces : List Piece) :
    Narrow budget (pieces.foldl (Filler.add budget) filler) := by
  induction pieces generalizing filler with
  | nil => exact narrow
  | cons piece rest inductionHypothesis => exact inductionHypothesis (narrow.add piece)

/-- What is left over at the end holds markers only, so that no line gets wider by it. -/
theorem lines (narrow : Narrow budget filler) : ∀ line ∈ filler.lines, Fit budget line := by
  unfold Filler.lines
  split
  · refine List.forall_mem_append.mpr ⟨narrow.finished, List.forall_mem_singleton.mpr ?_⟩
    exact narrow.pending.part (Text.dropEndWhile_sublist Piece.isSpace filler.pending)
  · rename_i leftOver
    simp only [Bool.or_eq_true, not_or, List.isEmpty_iff, Bool.not_eq_true] at leftOver
    have none := narrow.idle leftOver.2 leftOver.1
    have same : (attach filler.finished filler.pending).map bare = filler.finished.map bare := by
      rw [map_bare_attach, none, attach_nil]
    intro line present
    obtain ⟨other, listed, equal⟩ : ∃ other ∈ filler.finished, bare other = bare line := by
      simpa [same] using List.mem_map_of_mem (f := bare) present
    rw [Fit, ← equal]
    exact narrow.finished other listed

end Narrow

/-! ## Lines without markers -/

/-- A piece is added by some of three moves, so that what they keep it keeps. -/
theorem add_preserves {motive : Filler → Prop} {allowed : Piece → Prop}
    (part : ∀ piece, allowed piece → piece.isInk = true →
      ∀ character ∈ piece.text, allowed (.word [character]))
    (push : ∀ filler piece, allowed piece → motive filler → motive (filler.push piece))
    (breakLine : ∀ filler, motive filler → motive filler.breakLine)
    (dropSpace : ∀ filler, motive filler → motive filler.dropSpace)
    (budget : Nat) {piece : Piece} (given : allowed piece) {filler : Filler}
    (before : motive filler) : motive (filler.add budget piece) := by
  have addPart (filler : Filler) (character : Char) (given : allowed (.word [character]))
      (before : motive filler) : motive (filler.addPart budget character) := by
    unfold addPart
    dsimp only
    split
    · exact push _ _ given (breakLine filler before)
    · exact push _ _ given before
  have addParts (word : List Char) (given : ∀ character ∈ word, allowed (.word [character]))
      (filler : Filler) (before : motive filler) :
      motive (word.foldl (Filler.addPart budget) filler) := by
    induction word generalizing filler with
    | nil => exact before
    | cons character rest inductionHypothesis =>
        obtain ⟨first, others⟩ := List.forall_mem_cons.mp given
        exact inductionHypothesis others _ (addPart filler character first before)
  have addInk (piece : Piece) (given : allowed piece) (ink : piece.isInk = true) :
      motive (filler.addInk budget piece) := by
    unfold Filler.addInk
    split
    · exact push _ _ given before
    · have fresh : motive (if filler.hasInk then filler.breakLine else filler.dropSpace) := by
        split
        · exact breakLine filler before
        · exact dropSpace filler before
      dsimp only
      split
      · exact push _ _ given fresh
      · exact addParts piece.text (part piece given ink) _ fresh
  cases piece with
  | marker text => exact push _ _ given before
  | space text =>
      rw [add, addSpace]
      split
      · exact before
      · split
        · split
          · exact breakLine filler before
          · exact dropSpace filler before
        · exact push _ _ given before
  | word text => exact addInk _ given rfl
  | wide character => exact addInk _ given rfl

/-- No line of a filler holds a marker. -/
structure Unmarked (filler : Filler) : Prop where
  /-- Finished lines hold none. -/
  finished : ∀ line ∈ filler.finished, bare line = line
  /-- The pending line holds none. -/
  pending : bare filler.pending = filler.pending

namespace Unmarked

theorem add {filler : Filler} (unmarked : Unmarked filler) (budget : Nat) {piece : Piece}
    (shown : piece.isMarker = false) : Unmarked (filler.add budget piece) := by
  have part : ∀ piece : Piece, piece.isMarker = false → piece.isInk = true →
      ∀ character ∈ piece.text, (Piece.word [character]).isMarker = false := fun _ _ _ _ _ => rfl
  refine add_preserves (motive := Unmarked) part ?_ ?_ ?_ budget shown unmarked
  · intro filler piece shown unmarked
    refine ⟨unmarked.finished, ?_⟩
    rw [push, bare_append, unmarked.pending, bare_cons shown, bare_nil]
  · intro filler unmarked
    have same := cut_bare filler.pending
    rw [unmarked.pending] at same
    refine ⟨List.forall_mem_append.mpr ⟨unmarked.finished, List.forall_mem_singleton.mpr ?_⟩, ?_⟩
    · exact (congrArg Prod.fst same).symm
    · have carried : filler.breakLine.pending = [] := congrArg Prod.snd same
      rw [carried, bare_nil]
  · intro filler unmarked
    refine ⟨unmarked.finished, ?_⟩
    have none : filler.dropSpace.pending = [] := by
      rw [dropSpace, ← unmarked.pending, bare, List.filter_filter]
      simp
    rw [none, bare_nil]

theorem lines {filler : Filler} (unmarked : Unmarked filler) :
    ∀ line ∈ filler.lines, bare line = line := by
  unfold Filler.lines
  split
  · refine List.forall_mem_append.mpr ⟨unmarked.finished, List.forall_mem_singleton.mpr ?_⟩
    have part := Text.dropEndWhile_sublist Piece.isSpace filler.pending
    exact List.filter_eq_self.mpr fun piece present =>
      List.filter_eq_self.mp unmarked.pending piece (part.subset present)
  · have finished : filler.finished.map bare = filler.finished :=
      (List.map_congr_left unmarked.finished).trans (List.map_id _)
    have same : (attach filler.finished filler.pending).map bare =
        attach filler.finished filler.pending := by
      rw [map_bare_attach, finished, unmarked.pending]
    exact List.map_inj_left.mp (same.trans (List.map_id _).symm)

end Unmarked

end Filler

/-- The lines of any pieces fit the budget they are filled for. -/
theorem fit_fill (budget : Nat) (pieces : List Piece) :
    ∀ line ∈ fill budget pieces, Fit budget line :=
  (Filler.Narrow.start.addAll pieces).lines

/-- Pieces without markers are put on lines without markers. -/
theorem bare_of_mem_fill (budget : Nat) {pieces : List Piece}
    (shown : ∀ piece ∈ pieces, piece.isMarker = false) :
    ∀ line ∈ fill budget pieces, bare line = line := by
  have all (filler : Filler) (unmarked : filler.Unmarked) :
      (pieces.foldl (Filler.add budget) filler).Unmarked := by
    induction pieces generalizing filler with
    | nil => exact unmarked
    | cons piece rest inductionHypothesis =>
        obtain ⟨first, others⟩ := List.forall_mem_cons.mp shown
        exact inductionHypothesis others _ (unmarked.add budget first)
  exact (all {} ⟨by simp, rfl⟩).lines

/-- Where markers are not told from other text, no piece is one. -/
theorem isMarker_of_mem_pieces (line : List Char) :
    ∀ piece ∈ pieces false line, piece.isMarker = false := by
  have expanded : expand (pieces false line) = line.map .char := expand_piecesOfSymbols _
  intro piece present
  cases piece with
  | marker text =>
      have listed : Symbol.marker text ∈ expand (pieces false line) :=
        List.mem_flatMap.mpr ⟨_, present, by simp [Piece.symbols]⟩
      rw [expanded] at listed
      simp at listed
  | space text => rfl
  | word text => rfl
  | wide character => rfl

/-- Every line of a wrapped hard line fits the budget. -/
theorem fits_wrapLine (budget : Nat) (line : List Char) :
    ∀ laid ∈ wrapLine false budget line, Fits budget laid := by
  refine List.forall_mem_map.mpr fun laid present => ?_
  have fit := fit_fill budget _ laid present
  rwa [Fit, bare_of_mem_fill budget (isMarker_of_mem_pieces line) laid present] at fit

end Wrap
end Galley
