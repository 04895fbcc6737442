import Galley.Proofs.Text.Trimming
import Galley.Proofs.Wrap.Widths

/-!
# Ends of wrapped lines

Without markers, no line that a text is wrapped into has blanks at its end.  A line is
finished behind a piece that shows something, and such a piece has no blanks.
-/

namespace Galley
namespace Wrap

open Piece Text

/-- A piece that is no marker and holds what its sort says. -/
def Solid (piece : Piece) : Prop :=
  piece.isMarker = false ∧ Proper piece

/-- The characters of a word or a wide character are not blank, and there are some. -/
theorem unblank_of_isInk {piece : Piece} (proper : Proper piece) (ink : piece.isInk = true) :
    piece.text ≠ [] ∧ ∀ character ∈ piece.text, isBlank character = false := by
  cases piece with
  | marker text => cases ink
  | space text => cases ink
  | word text => exact proper
  | wide character => exact ⟨by simp [Piece.text], List.forall_mem_singleton.mpr proper⟩

/-- The parts of a long word are solid. -/
theorem solid_part {piece : Piece} (solid : Solid piece) (ink : piece.isInk = true) :
    ∀ character ∈ piece.text, Solid (.word [character]) := by
  obtain ⟨-, shown⟩ := unblank_of_isInk solid.2 ink
  exact fun character present =>
    ⟨rfl, by simp, List.forall_mem_singleton.mpr (shown character present)⟩

/-- Pieces that are dropped up to one that shows something leave no blanks at the end. -/
theorem trimEnd_spell {test : Piece → Bool} (loose : ∀ piece, piece.isSpace = true →
    test piece = true)
    {pieces : List Piece} (solid : ∀ piece ∈ pieces, Solid piece) :
    Text.trimEnd (spell (dropEndWhile test pieces)) = spell (dropEndWhile test pieces) := by
  rcases all_or_exists_last test pieces with pass | ⟨front, piece, back, rfl, stops, pass⟩
  · rw [dropEndWhile_of_all pass]
    rfl
  · obtain ⟨shown, proper⟩ := solid piece (by simp)
    have ink : piece.isInk = true := by
      cases piece with
      | marker text => cases shown
      | space text =>
          rw [loose _ rfl] at stops
          cases stops
      | word text => rfl
      | wide character => rfl
    obtain ⟨some, unblank⟩ := unblank_of_isInk proper ink
    obtain ⟨character, rest, same⟩ := List.exists_cons_of_ne_nil some
    have inked : allBlank piece.text = false := by
      rw [same, allBlank, List.all_cons, unblank character (by simp [same]), Bool.false_and]
    rw [dropEndWhile_of_last front stops pass, spell_append, spell_cons, spell_nil,
      List.append_nil, trimEnd_append_of_shown _ inked, trimEnd_of_unblank unblank]

namespace Filler

/-- Finished lines have no blanks at their end, and pending pieces hold what their sort
says. -/
structure Ended (filler : Filler) : Prop where
  /-- Finished lines are trimmed. -/
  finished : ∀ line ∈ filler.finished, Text.trimEnd (spell line) = spell line
  /-- Pending pieces are solid. -/
  pending : ∀ piece ∈ filler.pending, Solid piece

namespace Ended

variable {filler : Filler}

theorem push (ended : Ended filler) {piece : Piece} (solid : Solid piece) :
    Ended (filler.push piece) :=
  ⟨ended.finished, List.forall_mem_append.mpr
    ⟨ended.pending, List.forall_mem_singleton.mpr solid⟩⟩

theorem dropSpace (ended : Ended filler) : Ended filler.dropSpace :=
  ⟨ended.finished, fun piece present => ended.pending piece (List.mem_filter.mp present).1⟩

/-- Without markers a line is finished behind its last piece that shows something. -/
theorem breakLine (ended : Ended filler) : Ended filler.breakLine := by
  obtain ⟨body, attached, dropped, whole, kept, markers, -, cutLine⟩ := exists_cut filler.pending
  have solid := ended.pending
  rw [whole] at solid
  obtain ⟨front, droppedSolid⟩ := List.forall_mem_append.mp solid
  obtain ⟨-, attachedSolid⟩ := List.forall_mem_append.mp front
  obtain rfl : attached = [] := List.eq_nil_iff_forall_not_mem.mpr fun piece present => by
    have marker := markers piece present
    rw [(attachedSolid piece present).1] at marker
    cases marker
  have trimmed : Text.trimEnd (spell body) = spell body := by
    rw [kept]
    exact trimEnd_spell (fun piece space => by simp [space]) ended.pending
  unfold Filler.breakLine
  rw [cutLine, List.append_nil]
  exact ⟨List.forall_mem_append.mpr ⟨ended.finished, List.forall_mem_singleton.mpr trimmed⟩,
    fun piece present => droppedSolid piece (List.mem_filter.mp present).1⟩

theorem addAll (ended : Ended filler) (budget : Nat) {pieces : List Piece}
    (solid : ∀ piece ∈ pieces, Solid piece) :
    Ended (pieces.foldl (Filler.add budget) filler) := by
  induction pieces generalizing filler with
  | nil => exact ended
  | cons piece rest inductionHypothesis =>
      obtain ⟨first, others⟩ := List.forall_mem_cons.mp solid
      have step : Ended (filler.add budget piece) :=
        add_preserves (motive := Ended) (fun _ => solid_part) (fun _ _ given before =>
          before.push given) (fun _ => breakLine) (fun _ => dropSpace) budget first ended
      exact inductionHypothesis step others

/-- Behind a break, nothing is left over at the end. -/
theorem lines (ended : Ended filler) {budget : Nat} (narrow : Narrow budget filler) :
    ∀ line ∈ filler.lines, Text.trimEnd (spell line) = spell line := by
  unfold Filler.lines
  split
  · refine List.forall_mem_append.mpr ⟨ended.finished, List.forall_mem_singleton.mpr ?_⟩
    exact trimEnd_spell (fun piece space => space) ended.pending
  · rename_i leftOver
    simp only [Bool.or_eq_true, not_or, List.isEmpty_iff, Bool.not_eq_true] at leftOver
    have unmarked : bare filler.pending = filler.pending :=
      List.filter_eq_self.mpr fun piece present => by simp [(ended.pending piece present).1]
    rw [← unmarked, narrow.idle leftOver.2 leftOver.1, attach_nil]
    exact ended.finished

end Ended

end Filler

/-- Every line of a wrapped hard line is trimmed. -/
theorem trimEnd_of_mem_wrapLine {budget : Nat} {line laid : List Char}
    (present : laid ∈ wrapLine false budget line) : Text.trimEnd laid = laid := by
  obtain ⟨filled, listed, rfl⟩ := List.mem_map.mp present
  have solid (piece : Piece) (inside : piece ∈ pieces false line) : Solid piece :=
    ⟨isMarker_of_mem_pieces line piece inside, proper_pieces false line piece inside⟩
  have start : Filler.Ended {} := ⟨by simp, by simp⟩
  exact (start.addAll budget solid).lines (Filler.Narrow.start.addAll _) filled listed

end Wrap
end Galley
