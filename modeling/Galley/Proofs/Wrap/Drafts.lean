import Galley.Proofs.Wrap.Ends
import Galley.Proofs.Wrap.Tags

/-!
# Drafts

Markers apart, a filler is text: the lines that it has finished, trimmed at their ends,
and the text of its pending line.  This view, a draft, can be filled by itself: where a
line breaks depends on the text alone, neither on the markers nor on how the text of a
line is cut into pieces.
-/

namespace Galley
namespace Wrap

open Marker Piece Text

/-- What a filler holds apart from its markers. -/
structure Draft where
  /-- Finished lines, without blanks at their ends. -/
  finished : List (List Char) := []
  /-- The text of the pending line. -/
  pending : List Char := []
  deriving DecidableEq, Repr

namespace Draft

/-- Whether the pending line shows nothing. -/
def isIdle (draft : Draft) : Bool :=
  allBlank draft.pending

/-- Add text to the pending line. -/
def push (draft : Draft) (text : List Char) : Draft :=
  { draft with pending := draft.pending ++ text }

/-- Finish the pending line. -/
def breakLine (draft : Draft) : Draft :=
  { finished := draft.finished ++ [Text.trimEnd draft.pending], pending := [] }

/-- Begin a new line, or the pending line again where it shows nothing. -/
def renew (draft : Draft) : Draft :=
  if draft.isIdle then { draft with pending := [] } else draft.breakLine

/-- Add a run of blanks. -/
def addSpace (budget : Nat) (draft : Draft) (text : List Char) : Draft :=
  if draft.isIdle && !draft.finished.isEmpty then draft
  else if budget < Columns.ofText (draft.pending ++ text) then draft.renew
  else draft.push text

/-- Add a character of a word that is wider than the budget. -/
def addPart (budget : Nat) (draft : Draft) (character : Char) : Draft :=
  let ready :=
    if !draft.isIdle && budget < Columns.ofText (draft.pending ++ [character]) then draft.breakLine
    else draft
  ready.push [character]

/-- Add a word or a wide character. -/
def addInk (budget : Nat) (draft : Draft) (text : List Char) : Draft :=
  if Columns.ofText (draft.pending ++ text) ≤ budget then draft.push text
  else if Columns.ofText text ≤ budget then draft.renew.push text
  else text.foldl (addPart budget) draft.renew

/-- Add a piece; markers do not count. -/
def add (budget : Nat) (draft : Draft) : Piece → Draft
  | .marker _ => draft
  | .space text => draft.addSpace budget text
  | .word text => draft.addInk budget text
  | .wide character => draft.addInk budget [character]

/-- All lines, the pending one included unless it would stand empty behind others. -/
def lines (draft : Draft) : List (List Char) :=
  if draft.isIdle && !draft.finished.isEmpty then draft.finished
  else draft.finished ++ [Text.trimEnd draft.pending]

end Draft

/-! ## Begun drafts -/

namespace Draft

variable {draft : Draft} {budget : Nat} {text : List Char}

@[simp] theorem isIdle_push (draft : Draft) (text : List Char) :
    (draft.push text).isIdle = (draft.isIdle && allBlank text) := by
  simp [isIdle, push, allBlank]

@[simp] theorem isIdle_breakLine (draft : Draft) : draft.breakLine.isIdle = true := rfl

theorem renew_of_inked (inked : draft.isIdle = false) : draft.renew = draft.breakLine := by
  rw [renew, if_neg (by simp [inked])]

/-- A draft has begun where a line is finished or the pending line shows something;
behind a finished line nothing is pending until ink comes. -/
structure Begun (draft : Draft) : Prop where
  /-- An idle draft has nothing pending. -/
  clear : draft.isIdle = true → draft.pending = []
  /-- An idle draft has finished a line. -/
  finished : draft.isIdle = true → draft.finished ≠ []

theorem Begun.of_inked (inked : draft.isIdle = false) : Begun draft :=
  ⟨fun idle => (Bool.eq_false_iff.mp inked idle).elim,
    fun idle => (Bool.eq_false_iff.mp inked idle).elim⟩

/-- Blanks are skipped behind a break. -/
theorem Begun.addSpace_of_idle (begun : Begun draft) (idle : draft.isIdle = true) :
    draft.addSpace budget text = draft := by
  have finished : draft.finished.isEmpty = false := by simpa using begun.finished idle
  rw [addSpace, if_pos (by simp [idle, finished])]

/-- Blanks that do not fit behind ink make a break. -/
theorem addSpace_of_full (inked : draft.isIdle = false)
    (full : budget < Columns.ofText (draft.pending ++ text)) :
    draft.addSpace budget text = draft.breakLine := by
  rw [addSpace, if_neg (by simp [inked]), if_pos full, renew_of_inked inked]

/-- Blanks that fit behind ink join it. -/
theorem addSpace_of_room (inked : draft.isIdle = false)
    (room : Columns.ofText (draft.pending ++ text) ≤ budget) :
    draft.addSpace budget text = draft.push text := by
  rw [addSpace, if_neg (by simp [inked]), if_neg (Nat.not_lt_of_le room)]

/-- What blanks do to a begun draft. -/
theorem Begun.addSpace_cases (begun : Begun draft) (budget : Nat) (text : List Char) :
    (draft.isIdle = true ∧ draft.addSpace budget text = draft) ∨
      draft.isIdle = false ∧
        (budget < Columns.ofText (draft.pending ++ text) ∧ draft.addSpace budget text =
            draft.breakLine ∨
          Columns.ofText (draft.pending ++ text) ≤ budget ∧
            draft.addSpace budget text = draft.push text) := by
  cases idle : draft.isIdle with
  | true => exact Or.inl ⟨rfl, begun.addSpace_of_idle idle⟩
  | false =>
      rcases Nat.lt_or_ge budget (Columns.ofText (draft.pending ++ text)) with full | room
      · exact Or.inr ⟨rfl, Or.inl ⟨full, addSpace_of_full idle full⟩⟩
      · exact Or.inr ⟨rfl, Or.inr ⟨room, addSpace_of_room idle room⟩⟩

/-- A token that fits on a line joins the pending line or begins a new one. -/
theorem addInk_cases (clear : draft.isIdle = true → draft.pending = [])
    (within : Columns.ofText text ≤ budget) :
    (Columns.ofText (draft.pending ++ text) ≤ budget ∧ draft.addInk budget text = draft.push text) ∨
      draft.isIdle = false ∧ budget < Columns.ofText (draft.pending ++ text) ∧
        draft.addInk budget text = draft.breakLine.push text := by
  unfold addInk
  by_cases room : Columns.ofText (draft.pending ++ text) ≤ budget
  · exact Or.inl ⟨room, if_pos room⟩
  · have inked : draft.isIdle = false := Bool.eq_false_iff.mpr fun idle =>
      room (by rwa [clear idle])
    rw [if_neg room, if_pos within, renew_of_inked inked]
    exact Or.inr ⟨inked, by omega, rfl⟩

theorem Begun.addSpace (begun : Begun draft) (budget : Nat) (text : List Char) :
    Begun (draft.addSpace budget text) := by
  rcases begun.addSpace_cases budget text with ⟨-, same⟩ | ⟨inked, ⟨-, same⟩ | ⟨-, same⟩⟩
  · rwa [same]
  · rw [same]
    exact ⟨fun _ => rfl, fun _ => by simp [breakLine]⟩
  · rw [same]
    exact Begun.of_inked (by simp [inked])

theorem isIdle_addParts {word : List Char} (some : word ≠ [])
    (shown : ∀ character ∈ word, isBlank character = false) (draft : Draft) :
    (word.foldl (addPart budget) draft).isIdle = false := by
  induction word generalizing draft with
  | nil => exact absurd rfl some
  | cons character rest inductionHypothesis =>
      obtain ⟨first, others⟩ := List.forall_mem_cons.mp shown
      rw [List.foldl_cons]
      cases rest with
      | nil =>
          rw [List.foldl_nil, addPart, isIdle_push]
          simp [allBlank, first]
      | cons next more => exact inductionHypothesis (by simp) others _

/-- Behind ink a draft shows something. -/
theorem isIdle_addInk (some : text ≠ []) (shown : ∀ character ∈ text, isBlank character = false)
    (draft : Draft) : (draft.addInk budget text).isIdle = false := by
  have inked := allBlank_of_unblank some shown
  unfold addInk
  split
  · simp [inked]
  · split
    · simp [inked]
    · exact isIdle_addParts some shown _

end Draft

/-! ## Pieces of a pending line -/

theorem allBlank_spell_bare_of_not_isInk {pieces : List Piece}
    (proper : ∀ piece ∈ pieces, Proper piece)
    (none : ∀ piece ∈ pieces, piece.isInk = false) : allBlank (spell (bare pieces)) = true := by
  refine Filler.allBlank_spell_of_isSpace
    (fun piece present => proper piece (List.mem_of_mem_filter present)) fun piece present => ?_
  have ink := none piece (List.mem_of_mem_filter present)
  cases piece with
  | marker text => cases isMarker_of_mem_bare present
  | space text => rfl
  | word text => cases ink
  | wide character => cases ink

/-- A line is blank, markers apart, where none of its pieces is ink. -/
theorem allBlank_spell_bare {pieces : List Piece} (proper : ∀ piece ∈ pieces, Proper piece) :
    allBlank (spell (bare pieces)) = !pieces.any Piece.isInk := by
  cases ink : pieces.any Piece.isInk with
  | false =>
      refine allBlank_spell_bare_of_not_isInk proper fun piece present => ?_
      simpa using List.any_eq_false.mp ink piece present
  | true =>
      obtain ⟨piece, present, shown⟩ := List.any_eq_true.mp ink
      have unmarked : piece ∈ bare pieces :=
        List.mem_filter.mpr ⟨present, by simp [isMarker_of_isInk shown]⟩
      exact Filler.allBlank_spell_of_isInk unmarked (proper piece present) shown

/-- Markers apart, the line that is cut off is the pending line without the blanks at
its end. -/
theorem spell_bare_cut {line : List Piece} (proper : ∀ piece ∈ line, Proper piece) :
    spell (bare (Filler.cut line).1) = Text.trimEnd (spell (bare line)) := by
  obtain ⟨body, attached, dropped, whole, kept, marked, loose, cutLine⟩ := Filler.exists_cut line
  have solid : ∀ piece ∈ bare line, Solid piece := fun piece present =>
    ⟨isMarker_of_mem_bare present, proper piece (List.mem_of_mem_filter present)⟩
  have trimmed : Text.trimEnd (spell (bare body)) = spell (bare body) := by
    rw [kept, bare, ← dropEndWhile_filter (by simp +contextual) line]
    exact trimEnd_spell (fun piece space => by simp [space]) solid
  have blank : allBlank (spell (bare dropped)) = true := by
    refine allBlank_spell_bare_of_not_isInk (fun piece present => proper piece ?_)
      fun piece present => ?_
    · rw [whole]
      exact List.mem_append_right _ present
    · have pass := loose piece (List.mem_append_right _ present)
      cases piece with
      | word text => cases pass
      | wide character => cases pass
      | _ => rfl
  have parts : spell (bare line) = spell (bare body) ++ spell (bare dropped) := by
    rw [whole, bare_append, bare_append, bare_of_isMarker marked, List.append_nil, spell_append]
  rw [cutLine, parts, trimEnd_append_of_blank _ blank, trimmed, bare_append,
    bare_of_isMarker marked, List.append_nil]

/-! ## The draft of a filler -/

namespace Filler

/-- What a filler holds apart from its markers. -/
def draft (filler : Filler) : Draft :=
  { finished := filler.finished.map fun line => spell (bare line),
    pending := spell (bare filler.pending) }

variable {filler : Filler} {piece : Piece} (budget : Nat)

theorem draft_push (shown : piece.isMarker = false) :
    (filler.push piece).draft = filler.draft.push piece.text := by
  simp [draft, push, Draft.push, bare_cons shown]

theorem draft_marker (text : List Char) : (filler.push (.marker text)).draft = filler.draft := by
  simp [draft, push]

theorem isEmpty_draft : filler.draft.finished.isEmpty = filler.finished.isEmpty :=
  List.isEmpty_map

theorem used_eq : filler.used = Columns.ofText filler.draft.pending :=
  (ofText_spell_bare filler.pending).symm

section Pending

variable (proper : ∀ piece ∈ filler.pending, Proper piece)

include proper

theorem isIdle_draft : filler.draft.isIdle = !filler.hasInk :=
  allBlank_spell_bare proper

theorem draft_breakLine : filler.breakLine.draft = filler.draft.breakLine := by
  have none := bare_breakLine filler
  have cut := spell_bare_cut proper
  unfold draft Draft.breakLine
  rw [none]
  simp [breakLine, cut]

theorem draft_renew :
    (if filler.hasInk then filler.breakLine else filler.dropSpace).draft = filler.draft.renew := by
  unfold Draft.renew
  rw [isIdle_draft proper]
  cases filler.hasInk with
  | true => exact draft_breakLine proper
  | false =>
      have none := bare_dropSpace filler
      unfold draft
      rw [if_neg Bool.false_ne_true, none]
      rfl

theorem draft_addSpace (text : List Char) :
    (filler.addSpace budget text).draft = filler.draft.addSpace budget text := by
  unfold addSpace Draft.addSpace
  rw [isIdle_draft proper, isEmpty_draft, used_eq, Columns.ofText_append, Bool.and_comm]
  split
  · rfl
  · split
    · exact draft_renew proper
    · exact draft_push rfl

theorem draft_addPart (character : Char) :
    (filler.addPart budget character).draft = filler.draft.addPart budget character := by
  unfold addPart Draft.addPart
  rw [isIdle_draft proper, Bool.not_not, used_eq, Columns.ofText_append, Columns.ofText_cons,
    Columns.ofText_nil, Nat.add_zero]
  dsimp only
  split
  · rw [draft_push rfl, draft_breakLine proper]
    rfl
  · exact draft_push rfl

end Pending

/-! ## Filling -/

theorem proper_filter_isMarker (pieces : List Piece) :
    ∀ piece ∈ pieces.filter Piece.isMarker, Proper piece := by
  intro piece present
  have marker := (List.mem_filter.mp present).2
  cases piece with
  | marker text => trivial
  | _ => cases marker

theorem proper_push (proper : ∀ piece ∈ filler.pending, Proper piece) (given : Proper piece) :
    ∀ other ∈ (filler.push piece).pending, Proper other :=
  List.forall_mem_append.mpr ⟨proper, List.forall_mem_singleton.mpr given⟩

theorem proper_part {piece : Piece} (given : Proper piece) (ink : piece.isInk = true) :
    ∀ character ∈ piece.text, Proper (.word [character]) := by
  obtain ⟨-, shown⟩ := unblank_of_isInk given ink
  exact fun character present => ⟨by simp, List.forall_mem_singleton.mpr (shown character present)⟩

/-- Pieces are put on the pending line as they are, but for those of a long word. -/
theorem proper_add (proper : ∀ piece ∈ filler.pending, Proper piece) (given : Proper piece) :
    ∀ other ∈ (filler.add budget piece).pending, Proper other :=
  add_preserves (motive := fun filler => ∀ piece ∈ filler.pending, Proper piece)
    (fun _ => proper_part) (fun _ _ given before => proper_push before given)
    (fun _ _ => proper_filter_isMarker _) (fun _ _ => proper_filter_isMarker _) budget given proper

theorem proper_addPart {character : Char} (proper : ∀ piece ∈ filler.pending, Proper piece)
    (given : Proper (.word [character])) :
    ∀ other ∈ (filler.addPart budget character).pending, Proper other := by
  unfold addPart
  dsimp only
  split
  · exact proper_push (proper_filter_isMarker _) given
  · exact proper_push proper given

theorem draft_addParts (proper : ∀ piece ∈ filler.pending, Proper piece) {word : List Char}
    (parts : ∀ character ∈ word, Proper (.word [character])) :
    (word.foldl (addPart budget) filler).draft =
    word.foldl (Draft.addPart budget) filler.draft := by
  induction word generalizing filler with
  | nil => rfl
  | cons character rest inductionHypothesis =>
      obtain ⟨first, others⟩ := List.forall_mem_cons.mp parts
      rw [List.foldl_cons, List.foldl_cons,
        inductionHypothesis (proper_addPart budget proper first) others,
          draft_addPart budget proper]

theorem draft_addInk (proper : ∀ piece ∈ filler.pending, Proper piece) (given : Proper piece)
    (ink : piece.isInk = true) :
    (filler.addInk budget piece).draft = filler.draft.addInk budget piece.text := by
  have shown := isMarker_of_isInk ink
  have columns : piece.columns = Columns.ofText piece.text := by
    cases piece with
    | marker text => cases shown
    | _ => rfl
  have fresh : ∀ other ∈ (if filler.hasInk then filler.breakLine else filler.dropSpace).pending,
      Proper other := by
    split <;> exact proper_filter_isMarker _
  unfold addInk Draft.addInk
  rw [used_eq, columns, Columns.ofText_append]
  dsimp only
  split
  · exact draft_push shown
  · split
    · rw [draft_push shown, draft_renew proper]
    · rw [draft_addParts budget fresh (proper_part given ink), draft_renew proper]

/-- A piece does to the draft what it does to the filler. -/
theorem draft_add (proper : ∀ piece ∈ filler.pending, Proper piece) (given : Proper piece) :
    (filler.add budget piece).draft = filler.draft.add budget piece := by
  cases piece with
  | marker text => exact draft_marker text
  | space text => exact draft_addSpace budget proper text
  | word text => exact draft_addInk budget proper given rfl
  | wide character => exact draft_addInk budget proper given rfl

theorem draft_addAll (proper : ∀ piece ∈ filler.pending, Proper piece) {pieces : List Piece}
    (given : ∀ piece ∈ pieces, Proper piece) :
    (pieces.foldl (add budget) filler).draft = pieces.foldl (Draft.add budget) filler.draft := by
  induction pieces generalizing filler with
  | nil => rfl
  | cons piece rest inductionHypothesis =>
      obtain ⟨first, others⟩ := List.forall_mem_cons.mp given
      rw [List.foldl_cons, List.foldl_cons,
        inductionHypothesis (proper_add budget proper first) others, draft_add budget proper first]

theorem proper_addAll (proper : ∀ piece ∈ filler.pending, Proper piece) {pieces : List Piece}
    (given : ∀ piece ∈ pieces, Proper piece) :
    ∀ piece ∈ (pieces.foldl (add budget) filler).pending, Proper piece := by
  induction pieces generalizing filler with
  | nil => exact proper
  | cons piece rest inductionHypothesis =>
      obtain ⟨first, others⟩ := List.forall_mem_cons.mp given
      exact inductionHypothesis (proper_add budget proper first) others

/-! ## Lines -/

/-- The text of a line, markers and blanks at its end apart. -/
def ended (line : List Piece) : List Char :=
  Text.trimEnd (spell (bare line))

theorem ended_append_of_blank (line : List Piece) {extra : List Piece}
    (blank : allBlank (spell (bare extra)) = true) : ended (line ++ extra) = ended line := by
  rw [ended, bare_append, spell_append, trimEnd_append_of_blank _ blank, ended]

theorem ended_trimEnd {pending : List Piece} (proper : ∀ piece ∈ pending, Proper piece) :
    ended (trimEnd pending) = ended pending := by
  obtain ⟨tail, whole, spaces⟩ := exists_dropEndWhile Piece.isSpace pending
  have blank : allBlank (spell (bare tail)) = true :=
    allBlank_spell_bare_of_not_isInk
      (fun piece present => proper piece (whole ▸ List.mem_append_right _ present))
      fun piece present => isInk_of_isSpace (spaces piece present)
  have parts : trimEnd pending ++ tail = pending := whole.symm
  rw [← ended_append_of_blank _ blank, parts]

theorem map_ended_attach (lines : List (List Piece)) {extra : List Piece}
    (blank : allBlank (spell (bare extra)) = true) :
    (attach lines extra).map ended = lines.map ended := by
  induction lines with
  | nil => rfl
  | cons line others inductionHypothesis =>
      cases others with
      | nil => simp [attach, ended_append_of_blank line blank]
      | cons next rest => exact congrArg (ended line :: ·) inductionHypothesis

/-- Markers and blanks at the ends apart, the lines of a filler are those of its draft. -/
theorem lines_draft (proper : ∀ piece ∈ filler.pending, Proper piece)
    (trimmed : ∀ line ∈ filler.draft.finished, Text.trimEnd line = line) :
    filler.lines.map ended = filler.draft.lines := by
  have finished : filler.finished.map ended = filler.draft.finished :=
    List.map_congr_left fun line present => trimmed _ (List.mem_map_of_mem present)
  have idle := isIdle_draft proper
  unfold lines Draft.lines
  rw [idle, isEmpty_draft, ← Bool.not_or]
  cases begun : filler.hasInk || filler.finished.isEmpty with
  | true =>
      rw [if_pos rfl, Bool.not_true, if_neg Bool.false_ne_true, List.map_append, finished,
        List.map_singleton, ended_trimEnd proper]
      rfl
  | false =>
      rw [Bool.or_eq_false_iff] at begun
      have blank : allBlank (spell (bare filler.pending)) = true := by
        rw [allBlank_spell_bare proper]
        simpa [hasInk] using begun.1
      rw [if_neg Bool.false_ne_true, Bool.not_false, if_pos rfl, map_ended_attach _ blank, finished]

end Filler

namespace Draft

/-- Lines are finished trimmed. -/
def Trimmed (draft : Draft) : Prop :=
  ∀ line ∈ draft.finished, Text.trimEnd line = line

namespace Trimmed

variable {draft : Draft}

theorem breakLine (trimmed : Trimmed draft) : Trimmed draft.breakLine :=
  List.forall_mem_append.mpr ⟨trimmed, List.forall_mem_singleton.mpr (trimEnd_trimEnd _)⟩

theorem renew (trimmed : Trimmed draft) : Trimmed draft.renew := by
  unfold Draft.renew
  split
  · exact trimmed
  · exact trimmed.breakLine

theorem addParts (trimmed : Trimmed draft) (budget : Nat) (word : List Char) :
    Trimmed (word.foldl (addPart budget) draft) := by
  induction word generalizing draft with
  | nil => exact trimmed
  | cons character rest inductionHypothesis =>
      refine inductionHypothesis ?_
      unfold addPart
      dsimp only
      split
      · exact trimmed.breakLine
      · exact trimmed

theorem addInk (trimmed : Trimmed draft) (budget : Nat) (text : List Char) :
    Trimmed (draft.addInk budget text) := by
  unfold Draft.addInk
  split
  · exact trimmed
  · split
    · exact trimmed.renew
    · exact trimmed.renew.addParts budget text

theorem add (trimmed : Trimmed draft) (budget : Nat) (piece : Piece) :
    Trimmed (draft.add budget piece) := by
  cases piece with
  | marker text => exact trimmed
  | space text =>
      rw [Draft.add, addSpace]
      split
      · exact trimmed
      · split
        · exact trimmed.renew
        · exact trimmed
  | word text => exact trimmed.addInk budget text
  | wide character => exact trimmed.addInk budget [character]

theorem addAll (trimmed : Trimmed draft) (budget : Nat) (pieces : List Piece) :
    Trimmed (pieces.foldl (Draft.add budget) draft) := by
  induction pieces generalizing draft with
  | nil => exact trimmed
  | cons piece rest inductionHypothesis => exact inductionHypothesis (trimmed.add budget piece)

end Trimmed

end Draft

/-! ## Wrapped lines -/

/-- The characters of a text that take columns: none of its markers, where they are told
from other text. -/
def measured (markers : Bool) (text : List Char) : List Char :=
  if markers then erase text else text

/-- Of the lines that pieces are put on, all but the markers is measured. -/
theorem measured_spell_of_mem_fill {markers : Bool} {budget : Nat} {line : List Char}
    {laid : List Piece}
    (present : laid ∈ fill budget (pieces markers line)) :
    measured markers (spell laid) = spell (bare laid) := by
  cases markers with
  | true =>
      have legible := (tracks_pieces budget line).lines_legible (legible_symbols line) laid present
      exact erase_spell_pieces legible
  | false =>
      rw [bare_of_mem_fill budget (isMarker_of_mem_pieces line) laid present]
      rfl

/-- Markers and blanks at the ends apart, a line is wrapped into the lines of the draft
of its pieces. -/
theorem map_measured_wrapLine (markers : Bool) (budget : Nat) (line : List Char) :
    (wrapLine markers budget line).map (fun laid => Text.trimEnd (measured markers laid)) =
      ((pieces markers line).foldl (Draft.add budget) {}).lines := by
  have proper := proper_pieces markers line
  have none : ∀ piece ∈ Filler.pending {}, Proper piece := by simp
  have drafted : ((pieces markers line).foldl (Filler.add budget) {}).draft =
      (pieces markers line).foldl (Draft.add budget) {} := Filler.draft_addAll budget none proper
  have start : Draft.Trimmed {} := by simp [Draft.Trimmed]
  have filled := Filler.lines_draft (Filler.proper_addAll budget none proper)
    (drafted ▸ start.addAll budget _)
  rw [← drafted, ← filled, wrapLine, List.map_map]
  exact List.map_congr_left fun laid present =>
    congrArg Text.trimEnd (measured_spell_of_mem_fill present)

/-- Without markers, a line is wrapped into the lines of the draft of its pieces. -/
theorem wrapLine_eq_lines (budget : Nat) (line : List Char) :
    wrapLine false budget line = ((pieces false line).foldl (Draft.add budget) {}).lines := by
  rw [← map_measured_wrapLine]
  symm
  exact (List.map_congr_left fun laid present => trimEnd_of_mem_wrapLine present).trans
    (List.map_id _)

end Wrap
end Galley
