import Galley.Proofs.Balance
import Galley.Proofs.Wrap.Marked
import Galley.Proofs.Wrap.Widths

/-!
# Wrapping keeps tags

The filler drops blanks only, so the lines that a marked line is wrapped into hold its
markers in their order.  A wrapped text shows the ink and the markers of the text, hard
line by hard line.
-/

namespace Galley
namespace Wrap

open Marker Piece Text

/-! ## Markers among pieces -/

theorem tags_expand_filter (pieces : List Piece) :
    Symbol.tags (expand (pieces.filter Piece.isMarker)) = Symbol.tags (expand pieces) := by
  induction pieces with
  | nil => rfl
  | cons piece rest inductionHypothesis =>
      cases piece with
      | marker text =>
          have kept : Piece.isMarker (.marker text) = true := rfl
          rw [List.filter_cons_of_pos kept, expand_cons, expand_cons, Symbol.tags_append,
            Symbol.tags_append, inductionHypothesis]
      | _ =>
          rw [List.filter_cons_of_neg (by simp [Piece.isMarker]), inductionHypothesis]
          simp [Piece.symbols]

/-- Pieces other than markers have none. -/
theorem tags_symbols {piece : Piece} (shown : piece.isMarker = false) :
    Symbol.tags piece.symbols = [] := by
  cases piece with
  | marker text => cases shown
  | _ => simp [Piece.symbols]

theorem tags_expand_of_isSpace {pieces : List Piece}
    (spaces : ∀ piece ∈ pieces, piece.isSpace = true) : Symbol.tags (expand pieces) = [] := by
  induction pieces with
  | nil => rfl
  | cons piece rest inductionHypothesis =>
      obtain ⟨first, others⟩ := List.forall_mem_cons.mp spaces
      have apart : piece.isMarker = false := by
        cases piece with
        | marker text => cases first
        | _ => rfl
      rw [expand_cons, Symbol.tags_append, tags_symbols apart, inductionHypothesis others,
        List.nil_append]

namespace Filler

/-! ## Markers of a filler -/

/-- The markers of all that a filler holds, in order. -/
def tags (filler : Filler) : List (List Char) :=
  Symbol.tags (expand (filler.finished.flatten ++ filler.pending))

theorem tags_push (filler : Filler) (piece : Piece) :
    (filler.push piece).tags = filler.tags ++ Symbol.tags piece.symbols := by
  simp [tags, push]

theorem tags_breakLine (filler : Filler) : filler.breakLine.tags = filler.tags := by
  obtain ⟨body, attached, dropped, whole, -, -, -, cutLine⟩ := exists_cut filler.pending
  unfold tags breakLine
  rw [cutLine]
  dsimp only
  rw [whole]
  simp [tags_expand_filter]

theorem tags_dropSpace (filler : Filler) : filler.dropSpace.tags = filler.tags := by
  simp [tags, dropSpace, tags_expand_filter]

/-- A piece adds its markers. -/
theorem tags_add (budget : Nat) (filler : Filler) (piece : Piece) :
    (filler.add budget piece).tags = filler.tags ++ Symbol.tags piece.symbols := by
  cases shown : piece.isMarker with
  | true =>
      cases piece with
      | marker text => exact tags_push filler _
      | _ => cases shown
  | false =>
      rw [tags_symbols shown, List.append_nil]
      have part : ∀ piece : Piece, piece.isMarker = false → piece.isInk = true →
          ∀ character ∈ piece.text, (Piece.word [character]).isMarker = false :=
            fun _ _ _ _ _ => rfl
      refine add_preserves (motive := fun other => other.tags = filler.tags) part ?_ ?_ ?_ budget
        shown rfl
      · intro other piece shown same
        rw [tags_push, tags_symbols shown, List.append_nil, same]
      · exact fun other same => (tags_breakLine other).trans same
      · exact fun other same => (tags_dropSpace other).trans same

theorem tags_addAll (budget : Nat) (pieces : List Piece) (filler : Filler) :
    (pieces.foldl (add budget) filler).tags = filler.tags ++ Symbol.tags (expand pieces) := by
  induction pieces generalizing filler with
  | nil => simp
  | cons piece rest inductionHypothesis =>
      rw [List.foldl_cons, inductionHypothesis, tags_add, expand_cons, Symbol.tags_append,
        List.append_assoc]

/-- The lines of a filler hold its markers. -/
theorem tags_lines (filler : Filler) : Symbol.tags (expand filler.lines.flatten) = filler.tags := by
  unfold lines tags
  split
  · obtain ⟨tail, whole, spaces⟩ := exists_dropEndWhile Piece.isSpace filler.pending
    have parts : trimEnd filler.pending ++ tail = filler.pending := whole.symm
    have pending := congrArg (fun pieces => Symbol.tags (expand pieces)) parts
    simp only [expand_append, Symbol.tags_append, tags_expand_of_isSpace spaces, List.append_nil]
      at pending
    simp [pending]
  · rename_i started
    have some : filler.finished ≠ [] := by
      intro none
      simp [none] at started
    rw [flatten_attach some]

/-- The lines of a filler that tracks another are legible. -/
theorem Tracks.lines_legible {read : List Symbol} {marked plain : Filler}
    (tracks : Tracks read marked plain) (legible : Legible read) :
    ∀ line ∈ marked.lines, Legible (expand line) := by
  have pending := tracks.pending_legible [] (by simpa using legible)
  rw [List.append_nil] at pending
  unfold Filler.lines
  cases ended : marked.hasInk || marked.finished.isEmpty with
  | true =>
      obtain ⟨tail, whole, -⟩ := exists_dropEndWhile Piece.isSpace marked.pending
      have parts : trimEnd marked.pending ++ tail = marked.pending := whole.symm
      have trimmed : Legible (expand (trimEnd marked.pending)) :=
        pending.part ⟨[], expand tail, by rw [List.nil_append, ← expand_append, parts]⟩
      exact List.forall_mem_append.mpr
        ⟨tracks.finished_legible, List.forall_mem_singleton.mpr trimmed⟩
  | false =>
      obtain ⟨noInk, -⟩ : marked.hasInk = false ∧ marked.finished.isEmpty = false := by
        simpa using ended
      exact legible_attach tracks.finished_legible pending
        (opens_of_loose (loose_of_no_ink tracks.proper (tracks.isMarker legible) noInk))

end Filler

/-! ## Lines -/

/-- The lines that a marked line is wrapped into hold its markers. -/
theorem all_wrapLine (budget : Nat) (line : List Char) :
    (wrapLine true budget line).flatMap all = all line := by
  have legible := (tracks_pieces budget line).lines_legible (legible_symbols line)
  have kept := Filler.tags_lines ((pieces true line).foldl (Filler.add budget) {})
  have expanded : expand (pieces true line) = Marker.symbols line :=
    expand_piecesOfSymbols (Marker.symbols line)
  have start : Filler.tags {} = [] := rfl
  rw [Filler.tags_addAll, start, List.nil_append, expanded] at kept
  rw [wrapLine, fill, List.flatMap_map, all_eq_tags, ← kept]
  generalize Filler.lines _ = filled at legible
  induction filled with
  | nil => rfl
  | cons first rest inductionHypothesis =>
      obtain ⟨here, others⟩ := List.forall_mem_cons.mp legible
      rw [List.flatMap_cons, inductionHypothesis others, List.flatten_cons, expand_append,
        Symbol.tags_append, ← spell_expand, all_spell here]

/-! ## Texts -/

theorem flatMap_all_lines (text : List Char) : (lines text).flatMap all = all text := by
  rw [← all_unlines, unlines_lines]

/-- Wrapping keeps the markers of a text. -/
theorem all_wrap (width : Int) (text : List Char) : all (wrap true width text) = all text := by
  rw [wrap, all_unlines, List.flatMap_assoc, ← flatMap_all_lines text]
  simp only [all_wrapLine]

/-- Wrapping a marked text loses nothing but blanks: the ink stays, and so do the
markers, each of them whole on one line.  The lines come in groups, one for each hard
line, and a group has at least one line and shows what its hard line shows. -/
theorem wrap_lossless (width : Int) (text : List Char) :
    ink (wrap true width text) = ink text ∧
      all (wrap true width text) = all text ∧
      (lines (wrap true width text)).flatMap all = all text ∧
      ∃ groups, groups.flatten = lines (wrap true width text) ∧
        List.Forall₂ (fun line group => group ≠ [] ∧ group.flatMap ink = ink line ∧
          group.flatMap all = all line) (lines text) groups := by
  refine ⟨ink_wrap true width text, all_wrap width text, ?_,
    (lines text).map (wrapLine true (budget width)), ?_, ?_⟩
  · rw [flatMap_all_lines, all_wrap]
  · rw [lines_wrap, List.flatMap_def]
  · apply List.forall₂_map_right_iff.mpr
    apply List.forall₂_same.mpr
    intro line _
    exact ⟨wrapLine_ne_nil true _ line, ink_wrapLine true _ line, all_wrapLine _ line⟩

end Wrap
end Galley
