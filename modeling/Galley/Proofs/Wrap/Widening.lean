import Galley.Proofs.Wrap.Budget

/-!
# Wider budgets

The same pieces are filled into two drafts, one with a wider budget than the other.  The
wide draft never gets ahead: it has finished fewer lines, or as many and then its
pending line holds no more.  Hence a wider budget never makes more lines, although it
may leave words whole that the narrow one cuts.
-/

namespace Galley
namespace Wrap

open Piece Text

namespace Draft

variable {narrow wide : Draft} {text : List Char}

/-! ## Finished lines -/

theorem length_breakLine (draft : Draft) :
    draft.breakLine.finished.length = draft.finished.length + 1 := by
  simp [breakLine]

/-- A clear draft that shows nothing is begun again as it stands. -/
theorem renew_of_idle {draft : Draft} (clear : draft.isIdle = true → draft.pending = [])
    (idle : draft.isIdle = true) : draft.renew = draft := by
  rw [renew, if_pos idle, ← clear idle]

theorem clear_renew (draft : Draft) : draft.renew.isIdle = true → draft.renew.pending = [] := by
  unfold renew
  split <;> exact fun _ => rfl

/-- A character of a long word joins the pending line or begins a new one. -/
theorem addPart_cases (budget : Nat) (draft : Draft) (character : Char) :
    (draft.isIdle = false ∧ budget < Columns.ofText (draft.pending ++ [character]) ∧
        draft.addPart budget character = draft.breakLine.push [character]) ∨
      (draft.isIdle = true ∨ Columns.ofText (draft.pending ++ [character]) ≤ budget) ∧
        draft.addPart budget character = draft.push [character] := by
  unfold addPart
  dsimp only
  split
  next full =>
      obtain ⟨inked, wide⟩ : draft.isIdle = false ∧
          budget < Columns.ofText (draft.pending ++ [character]) := by
        simpa using full
      exact Or.inl ⟨inked, wide, rfl⟩
  next room =>
      refine Or.inr ⟨?_, rfl⟩
      by_contra neither
      obtain ⟨inked, wide⟩ := not_or.mp neither
      exact room (by simpa [inked] using wide)

/-- Cutting a long word finishes lines, unless all of it joins the pending line. -/
theorem addParts_cases (budget : Nat) (draft : Draft) (word : List Char) :
    word.foldl (addPart budget) draft = draft.push word ∨
      draft.finished.length < (word.foldl (addPart budget) draft).finished.length := by
  induction word generalizing draft with
  | nil => simp [push]
  | cons character rest inductionHypothesis =>
      rw [List.foldl_cons]
      rcases draft.addPart_cases budget character with ⟨-, -, same⟩ | ⟨-, same⟩
      · refine Or.inr ?_
        have more : draft.finished.length < (draft.breakLine.push [character]).finished.length := by
          simp [push, breakLine]
        rw [same]
        rcases inductionHypothesis (draft.breakLine.push [character]) with pushed | longer
        · rwa [pushed]
        · exact more.trans longer
      · rw [same]
        rcases inductionHypothesis (draft.push [character]) with pushed | longer
        · exact Or.inl (by rw [pushed]; simp [push])
        · exact Or.inr longer

/-! ## Not getting ahead -/

/-- A draft trails another one when it has finished fewer lines, or as many and then its
pending line is no wider. -/
def Trails (wide narrow : Draft) : Prop :=
  wide.finished.length < narrow.finished.length ∨
    wide.finished.length = narrow.finished.length ∧
      Columns.ofText wide.pending ≤ Columns.ofText narrow.pending

namespace Trails

theorem of_length_lt (fewer : wide.finished.length < narrow.finished.length) : wide.Trails narrow :=
  Or.inl fewer

theorem length_le (trails : wide.Trails narrow) :
    wide.finished.length ≤ narrow.finished.length := by
  rcases trails with fewer | ⟨same, -⟩ <;> omega

/-- Where as many lines are finished, the trailing draft shows something only if the
other one does. -/
theorem inked (trails : wide.Trails narrow) (clear : narrow.isIdle = true → narrow.pending = [])
    (shown : wide.isIdle = false) :
    wide.finished.length < narrow.finished.length ∨ narrow.isIdle = false := by
  refine trails.imp_right fun ⟨_, within⟩ => Bool.eq_false_iff.mpr fun idle => ?_
  rw [clear idle, Columns.ofText_nil] at within
  have short := Columns.length_le_ofText wide.pending
  have none : wide.pending = [] := List.length_eq_zero_iff.mp (by omega)
  rw [isIdle, none] at shown
  cases shown

/-- Where text fits the pending line of one draft only, that draft has finished fewer
lines. -/
theorem length_lt_of_full {small large : Nat} (trails : wide.Trails narrow) (le : small ≤ large)
    (room : Columns.ofText (narrow.pending ++ text) ≤ small)
    (full : large < Columns.ofText (wide.pending ++ text)) :
    wide.finished.length < narrow.finished.length := by
  refine trails.resolve_right fun ⟨_, within⟩ => ?_
  rw [Columns.ofText_append] at room full
  omega

/-! ### Single moves -/

theorem push (trails : wide.Trails narrow) (text : List Char) :
    (wide.push text).Trails (narrow.push text) := by
  refine trails.imp_right fun ⟨same, within⟩ => ⟨same, ?_⟩
  simpa [Draft.push] using within

theorem push_narrow (trails : wide.Trails narrow) (text : List Char) :
    wide.Trails (narrow.push text) := by
  refine trails.imp_right fun ⟨same, within⟩ => ⟨same, ?_⟩
  rw [Draft.push, Columns.ofText_append]
  omega

theorem length_lt_breakLine (trails : wide.Trails narrow) :
    wide.finished.length < narrow.breakLine.finished.length := by
  rw [length_breakLine]
  exact Nat.lt_succ_of_le trails.length_le

theorem breakLine (trails : wide.Trails narrow) : wide.breakLine.Trails narrow.breakLine := by
  unfold Trails
  rw [length_breakLine, length_breakLine]
  exact trails.imp Nat.succ_lt_succ fun ⟨same, _⟩ => ⟨congrArg Nat.succ same, Nat.le_refl _⟩

/-- A draft that has finished fewer lines may finish one more. -/
theorem breakLine_of_length_lt (fewer : wide.finished.length < narrow.finished.length) :
    wide.breakLine.Trails narrow := by
  unfold Trails
  rw [length_breakLine]
  exact (Nat.lt_or_eq_of_le fewer).imp_right fun same => ⟨same, Nat.zero_le _⟩

theorem renew_of_length_lt (fewer : wide.finished.length < narrow.finished.length) :
    wide.renew.Trails narrow := by
  unfold renew
  split
  · exact of_length_lt fewer
  · exact breakLine_of_length_lt fewer

theorem renew_narrow (trails : wide.Trails narrow)
    (clear : narrow.isIdle = true → narrow.pending = []) :
    wide.Trails narrow.renew := by
  cases idle : narrow.isIdle with
  | true => rwa [renew_of_idle clear idle]
  | false =>
      rw [renew_of_inked idle]
      exact of_length_lt trails.length_lt_breakLine

theorem renew (trails : wide.Trails narrow) (clear : narrow.isIdle = true → narrow.pending = [])
    (clearWide : wide.isIdle = true → wide.pending = []) : wide.renew.Trails narrow.renew := by
  cases idle : wide.isIdle with
  | true =>
      rw [renew_of_idle clearWide idle]
      exact trails.renew_narrow clear
  | false =>
      rcases trails.inked clear idle with fewer | inked
      · rw [renew_of_inked idle]
        exact renew_narrow (breakLine_of_length_lt fewer) clear
      · rw [renew_of_inked idle, renew_of_inked inked]
        exact trails.breakLine

/-! ### Pieces -/

section Steps

variable {small large : Nat} (le : small ≤ large) (trails : wide.Trails narrow)

include le trails

/-- Blanks are put on both pending lines, dropped, or break a line. -/
theorem addSpace (begun : Begun narrow) (begunWide : Begun wide) (text : List Char) :
    (wide.addSpace large text).Trails (narrow.addSpace small text) := by
  rcases begun.addSpace_cases small text with ⟨idle, same⟩ | ⟨inked, ⟨full, same⟩ | ⟨room, same⟩⟩
  · rw [same]
    rcases begunWide.addSpace_cases large text with
      ⟨-, sameWide⟩ | ⟨shown, ⟨-, sameWide⟩ | ⟨-, sameWide⟩⟩
    · rwa [sameWide]
    all_goals
      have fewer := (trails.inked begun.clear shown).resolve_right (by simp [idle])
      rw [sameWide]
    · exact breakLine_of_length_lt fewer
    · exact of_length_lt fewer
  · rw [same]
    rcases begunWide.addSpace_cases large text with
      ⟨-, sameWide⟩ | ⟨-, ⟨-, sameWide⟩ | ⟨-, sameWide⟩⟩
    · rw [sameWide]
      exact of_length_lt trails.length_lt_breakLine
    · rw [sameWide]
      exact trails.breakLine
    · rw [sameWide]
      exact of_length_lt trails.length_lt_breakLine
  · rw [same]
    rcases begunWide.addSpace_cases large text with
      ⟨-, sameWide⟩ | ⟨-, ⟨fullWide, sameWide⟩ | ⟨-, sameWide⟩⟩
    · rw [sameWide]
      exact trails.push_narrow text
    · rw [sameWide]
      exact push_narrow (breakLine_of_length_lt (trails.length_lt_of_full le room fullWide)) text
    · rw [sameWide]
      exact trails.push text

theorem addPart (clear : narrow.isIdle = true → narrow.pending = []) (character : Char) :
    (wide.addPart large character).Trails (narrow.addPart small character) := by
  rcases narrow.addPart_cases small character with ⟨-, -, same⟩ | ⟨room, same⟩
  · rw [same]
    rcases wide.addPart_cases large character with ⟨-, -, sameWide⟩ | ⟨-, sameWide⟩
    · rw [sameWide]
      exact trails.breakLine.push _
    · rw [sameWide]
      exact of_length_lt trails.length_lt_breakLine
  · rw [same]
    rcases wide.addPart_cases large character with ⟨shown, full, sameWide⟩ | ⟨-, sameWide⟩
    · have fewer : wide.finished.length < narrow.finished.length := by
        rcases trails.inked clear shown with fewer | inked
        · exact fewer
        · exact trails.length_lt_of_full le (room.resolve_left (by simp [inked])) full
      rw [sameWide]
      exact (breakLine_of_length_lt fewer).push _
    · rw [sameWide]
      exact trails.push _

/-- A long word is cut by both budgets. -/
theorem addParts (clear : narrow.isIdle = true → narrow.pending = []) {word : List Char}
    (shown : ∀ character ∈ word, isBlank character = false) :
    (word.foldl (Draft.addPart large) wide).Trails (word.foldl (Draft.addPart small) narrow) := by
  induction word generalizing narrow wide with
  | nil => exact trails
  | cons character rest inductionHypothesis =>
      obtain ⟨here, others⟩ := List.forall_mem_cons.mp shown
      have inked : (narrow.addPart small character).isIdle = false :=
        isIdle_addParts (List.cons_ne_nil character []) (by simpa using here) narrow
      exact inductionHypothesis (trails.addPart le clear character)
        (Begun.of_inked inked).clear others

omit le in
/-- A word that only the narrow budget cuts. -/
theorem addParts_narrow (word : List Char) :
    (wide.push word).Trails (word.foldl (Draft.addPart small) narrow) := by
  rcases narrow.addParts_cases small word with same | longer
  · rw [same]
    exact trails.push word
  · exact of_length_lt (trails.length_le.trans_lt longer)

/-- A token may fit the pending line, a new line or no line at all, for each budget by
itself. -/
theorem addInk (clear : narrow.isIdle = true → narrow.pending = [])
    (clearWide : wide.isIdle = true → wide.pending = [])
    (shown : ∀ character ∈ text, isBlank character = false) :
    (wide.addInk large text).Trails (narrow.addInk small text) := by
  unfold Draft.addInk
  by_cases room : Columns.ofText (narrow.pending ++ text) ≤ small
  · rw [if_pos room]
    by_cases roomWide : Columns.ofText (wide.pending ++ text) ≤ large
    · rw [if_pos roomWide]
      exact trails.push text
    · have fewer := trails.length_lt_of_full le room (Nat.lt_of_not_le roomWide)
      have within : Columns.ofText text ≤ large := by
        rw [Columns.ofText_append] at room
        omega
      rw [if_neg roomWide, if_pos within]
      exact (renew_of_length_lt fewer).push text
  · rw [if_neg room]
    by_cases within : Columns.ofText text ≤ small
    · rw [if_pos within]
      by_cases roomWide : Columns.ofText (wide.pending ++ text) ≤ large
      · have inked : narrow.isIdle = false :=
          Bool.eq_false_iff.mpr fun idle => room (by rwa [clear idle])
        rw [if_pos roomWide, renew_of_inked inked]
        exact of_length_lt trails.length_lt_breakLine
      · rw [if_neg roomWide, if_pos (within.trans le)]
        exact (trails.renew clear clearWide).push text
    · rw [if_neg within]
      by_cases roomWide : Columns.ofText (wide.pending ++ text) ≤ large
      · rw [if_pos roomWide]
        exact (trails.renew_narrow clear).addParts_narrow text
      · rw [if_neg roomWide]
        have renewed := trails.renew clear clearWide
        by_cases withinWide : Columns.ofText text ≤ large
        · rw [if_pos withinWide]
          exact renewed.addParts_narrow text
        · rw [if_neg withinWide]
          exact renewed.addParts le (clear_renew narrow) shown

end Steps

/-! ### Runs -/

section Runs

variable {small large : Nat} (le : small ≤ large)

include le

/-- After a token both drafts have begun. -/
theorem addToken (trails : wide.Trails narrow) (clear : narrow.isIdle = true → narrow.pending = [])
    (clearWide : wide.isIdle = true → wide.pending = []) {piece : Piece} (sorted : OfSort piece)
    (ink : piece.isInk = true) :
    (wide.add large piece).Trails (narrow.add small piece) ∧
      Begun (narrow.add small piece) ∧ Begun (wide.add large piece) := by
  have shown := sorted.not_blank ink
  have added (budget : Nat) (draft : Draft) :
      draft.add budget piece = draft.addInk budget piece.text := by
    cases piece with
    | marker text => cases ink
    | space text => cases ink
    | _ => rfl
  rw [added, added]
  exact ⟨trails.addInk le clear clearWide shown,
    Begun.of_inked (isIdle_addInk sorted.text_ne_nil shown _),
    Begun.of_inked (isIdle_addInk sorted.text_ne_nil shown _)⟩

/-- No piece makes the wide draft get ahead. -/
theorem addAll (trails : wide.Trails narrow) (begun : Begun narrow) (begunWide : Begun wide)
    {pieces : List Piece} (sorted : ∀ piece ∈ pieces, OfSort piece) :
    (pieces.foldl (Draft.add large) wide).Trails (pieces.foldl (Draft.add small) narrow) ∧
      Begun (pieces.foldl (Draft.add small) narrow) ∧
      Begun (pieces.foldl (Draft.add large) wide) := by
  induction pieces generalizing narrow wide with
  | nil => exact ⟨trails, begun, begunWide⟩
  | cons piece rest inductionHypothesis =>
      obtain ⟨first, others⟩ := List.forall_mem_cons.mp sorted
      have step : (wide.add large piece).Trails (narrow.add small piece) ∧
          Begun (narrow.add small piece) ∧ Begun (wide.add large piece) := by
        cases piece with
        | marker text => cases first
        | space text =>
            exact ⟨trails.addSpace le begun begunWide text, begun.addSpace small text,
              begunWide.addSpace large text⟩
        | word text => exact trails.addToken le begun.clear begunWide.clear first rfl
        | wide character => exact trails.addToken le begun.clear begunWide.clear first rfl
      exact inductionHypothesis step.1 step.2.1 step.2.2 others

end Runs

/-- A draft that trails has begun no more lines. -/
theorem count_le (trails : wide.Trails narrow)
    (clear : narrow.isIdle = true → narrow.pending = []) :
    wide.count ≤ narrow.count := by
  have finished := trails.length_le
  unfold count
  cases idle : wide.isIdle with
  | true => simp only [if_true]; omega
  | false =>
      rcases trails.inked clear idle with fewer | inked
      · simp only [Bool.false_eq_true, if_false]
        omega
      · simp only [inked, Bool.false_eq_true, if_false]
        omega

end Trails
end Draft

/-! ## Lines of a wrapped line -/

theorem length_wrapLine_le {small large : Nat} (le : small ≤ large) {line : List Char}
    (begins : ∃ first ∈ line.head?, isBlank first = false) :
    (wrapLine false large line).length ≤ (wrapLine false small line).length := by
  obtain ⟨piece, rest, parts, ink⟩ := exists_pieces_of_begins begins
  have sorted := ofSort_pieces line
  rw [wrapLine_eq_lines, wrapLine_eq_lines, parts] at *
  obtain ⟨first, others⟩ := List.forall_mem_cons.mp sorted
  have start : Draft.Trails {} {} := Or.inr ⟨rfl, Nat.le_refl _⟩
  have clear : Draft.isIdle {} = true → Draft.pending {} = [] := fun _ => rfl
  obtain ⟨trails, begun, begunWide⟩ := start.addToken le clear clear first ink
  obtain ⟨trailsThen, begunThen, begunWideThen⟩ := trails.addAll le begun begunWide others
  rw [List.foldl_cons, List.foldl_cons, begunThen.length_lines, begunWideThen.length_lines]
  exact trailsThen.count_le begunThen.clear

/-- A line that does not begin with a blank is wrapped into no more lines where the
width is greater, whatever words have to be cut. -/
theorem length_lines_wrap_le {line : List Char} (newline : '\n' ∉ line)
    (begins : ∀ first ∈ line.head?, isBlank first = false) {narrow wide : Int}
    (le : narrow ≤ wide) :
    (lines (wrap false wide line)).length ≤ (lines (wrap false narrow line)).length := by
  have budgets : budget narrow ≤ budget wide := by
    unfold budget
    omega
  rw [lines_wrap_of_whole false wide newline, lines_wrap_of_whole false narrow newline]
  cases line with
  | nil => exact Nat.le_refl _
  | cons first rest => exact length_wrapLine_le budgets ⟨first, rfl, begins first rfl⟩

/-- A line with a word that neither of two budgets holds, and one that only the wider of
them holds. -/
def lengthyLine : List Char := "a wonderful éé day".toList

theorem length_lines_wrap_le_lengthyLine :
    '\n' ∉ lengthyLine ∧ (∀ first ∈ lengthyLine.head?, isBlank first = false) ∧
      lines (wrap false 3 lengthyLine) = ["a", "won", "der", "ful", "é", "é", "day"].map
        String.toList ∧
      lines (wrap false 4 lengthyLine) = ["a", "wond", "erfu", "l é", "é", "day"].map
        String.toList ∧
      (lines (wrap false 4 lengthyLine)).length ≤ (lines (wrap false 3 lengthyLine)).length := by
  have newline : '\n' ∉ lengthyLine := by decide +kernel
  have start : lengthyLine.head? = some 'a' := by decide +kernel
  have begins : ∀ first ∈ lengthyLine.head?, isBlank first = false := fun first found => by
    obtain rfl : 'a' = first := Option.some.inj (start.symm.trans found)
    decide
  exact ⟨newline, begins, by decide +kernel, by decide +kernel,
    length_lines_wrap_le newline begins (by decide)⟩

end Wrap
end Galley
