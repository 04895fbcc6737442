import Galley.Proofs.Wrap.Drafts
import Galley.Proofs.Wrap.Runs

/-!
# Wrapping again

A line that fits its budget is wrapped into itself, without the blanks at its end.
Since all lines of a wrapped text fit, and no blanks stand at their ends, wrapping such
a text again changes nothing.
-/

namespace Galley
namespace Wrap

open Piece Text

/-! ## Lines that fit -/

namespace Draft

variable {budget : Nat} {draft : Draft}

/-- On the first line, a piece that fits joins what is pending, whether it shows
anything or not. -/
theorem add_of_room (first : draft.finished = []) {piece : Piece} (shown : piece.isMarker = false)
    (room : Columns.ofText (draft.pending ++ piece.text) ≤ budget) :
    draft.add budget piece = draft.push piece.text := by
  cases piece with
  | marker text => cases shown
  | space text => exact (if_neg (by simp [first])).trans (if_neg (Nat.not_lt_of_le room))
  | word text => exact if_pos room
  | wide character => exact if_pos room

/-- So do all pieces of a line that fits. -/
theorem addAll_of_room (first : draft.finished = []) {pieces : List Piece}
    (shown : ∀ piece ∈ pieces, piece.isMarker = false)
    (room : Columns.ofText (draft.pending ++ spell pieces) ≤ budget) :
    pieces.foldl (Draft.add budget) draft = draft.push (spell pieces) := by
  induction pieces generalizing draft with
  | nil => simp [push]
  | cons piece rest inductionHypothesis =>
      obtain ⟨here, others⟩ := List.forall_mem_cons.mp shown
      rw [spell_cons, ← List.append_assoc] at room
      have narrow : Columns.ofText (draft.pending ++ piece.text) ≤ budget := by
        rw [Columns.ofText_append (draft.pending ++ piece.text)] at room
        omega
      have below : rest.foldl (Draft.add budget) (draft.push piece.text) =
          (draft.push piece.text).push (spell rest) := inductionHypothesis first others room
      rw [List.foldl_cons, add_of_room first here narrow, below, spell_cons]
      simp [push]

end Draft

section Lines

variable {budget : Nat} {line : List Char}

theorem wrapLine_of_within (within : Columns.ofText line ≤ budget) :
    wrapLine false budget line = [Text.trimEnd line] := by
  have spelled := spell_pieces false line
  have filled : (pieces false line).foldl (Draft.add budget) {} = Draft.push {} line := by
    rw [Draft.addAll_of_room rfl (isMarker_of_mem_pieces line) (by rwa [spelled]), spelled]
  rw [wrapLine_eq_lines, filled]
  simp [Draft.lines, Draft.push]

/-- A single character stands on its line, however narrow that is, unless it is blank. -/
theorem wrapLine_of_single (budget : Nat) (character : Char) :
    wrapLine false budget [character] = [Text.trimEnd [character]] := by
  rcases Nat.lt_or_ge budget (Columns.ofText [character]) with wide | within
  · rw [wrapLine_eq_lines, pieces_cons, pieces_nil, consChar_nil, List.foldl_cons, List.foldl_nil]
    have full : ¬ Columns.ofText (Draft.pending {} ++ [character]) ≤ budget := Nat.not_le_of_lt wide
    cases blank : isBlank character with
    | true =>
        have dropped : Draft.add budget {} (single character) = {} := by
          simp only [single, blank, if_true]
          exact if_pos wide
        rw [dropped, trimEnd_of_blank (by simpa [allBlank] using blank)]
        rfl
    | false =>
        have held : Draft.add budget {} (single character) = Draft.push {} [character] := by
          have parted : Draft.addInk budget {} [character] = Draft.push {} [character] :=
            (if_neg full).trans (if_neg full)
          unfold single
          rw [blank, if_neg Bool.false_ne_true]
          split <;> exact parted
        rw [held]
        simp [Draft.lines, Draft.push]
  · exact wrapLine_of_within within

/-- A line that fits, or that no break can make narrower, is only trimmed. -/
theorem wrapLine_of_fits (fits : Fits budget line) :
    wrapLine false budget line = [Text.trimEnd line] := by
  rcases fits with within | short
  · exact wrapLine_of_within within
  · match line with
    | [] => exact wrapLine_of_within (Nat.zero_le budget)
    | [character] => exact wrapLine_of_single budget character
    | _ :: _ :: _ => simp at short

end Lines

/-! ## Texts whose lines fit -/

/-- A text whose lines fit is only trimmed, line by line. -/
theorem wrap_of_fits {width : Int} {text : List Char}
    (fits : ∀ line ∈ lines text, Fits (budget width) line) :
    wrap false width text = unlines ((lines text).map Text.trimEnd) := by
  have each : (lines text).flatMap (wrapLine false (budget width)) =
      (lines text).flatMap fun line => [Text.trimEnd line] :=
    List.flatMap_congr fun line listed => wrapLine_of_fits (fits line listed)
  rw [wrap, each, ← List.map_eq_flatMap]

/-- Every line of a wrapped text fits and is trimmed. -/
theorem settled_of_mem_wrap {width : Int} {text laid : List Char}
    (present : laid ∈ lines (wrap false width text)) :
    Fits (budget width) laid ∧ Text.trimEnd laid = laid := by
  rw [lines_wrap] at present
  obtain ⟨line, -, listed⟩ := List.mem_flatMap.mp present
  exact ⟨fits_wrapLine _ line laid listed, trimEnd_of_mem_wrapLine listed⟩

/-- Wrapping a wrapped text again changes nothing, and of a text whose lines all fit
only the blanks at the ends of lines are dropped. -/
theorem wrap_idempotent (width : Int) (text : List Char) :
    wrap false width (wrap false width text) = wrap false width text ∧
      ((∀ line ∈ lines text, (Columns.ofText line : Int) ≤ max 1 width) →
        wrap false width text = unlines ((lines text).map Text.trimEnd)) := by
  constructor
  · have settled (laid : List Char) (present : laid ∈ lines (wrap false width text)) :
        Fits (budget width) laid ∧ Text.trimEnd laid = laid := settled_of_mem_wrap present
    have kept : (lines (wrap false width text)).map Text.trimEnd = lines (wrap false width text) :=
      (List.map_congr_left fun laid present => (settled laid present).2).trans (List.map_id _)
    rw [wrap_of_fits fun laid present => (settled laid present).1, kept, unlines_lines]
  · intro narrow
    refine wrap_of_fits fun line listed => Or.inl ?_
    have within := narrow line listed
    unfold budget
    omega

/-- Lines with blanks at their ends, an indented one among them. -/
def paddedLines : List Char := "ab  \n \n cé ".toList

theorem wrap_idempotent_paddedLines :
    (∀ line ∈ lines paddedLines, (Columns.ofText line : Int) ≤ max 1 5) ∧
      wrap false 5 paddedLines = "ab\n\n cé".toList ∧
      unlines ((lines paddedLines).map Text.trimEnd) = "ab\n\n cé".toList := by
  have narrow : ∀ line ∈ lines paddedLines, (Columns.ofText line : Int) ≤ max 1 5 := by
    decide +kernel
  have trimmed : unlines ((lines paddedLines).map Text.trimEnd) = "ab\n\n cé".toList := by
    decide +kernel
  exact ⟨narrow, ((wrap_idempotent 5 paddedLines).2 narrow).trans trimmed, trimmed⟩

end Wrap
end Galley
