import Galley.Layout.Region
import Galley.Proofs.Text.Ink
import Mathlib.Data.List.SplitBy

/-!
# Lines joined into one

Joining lines, setting words apart and filling a table cell replace blanks by other
blanks.
-/

namespace Galley
namespace Layout

open Text

theorem respaced_joinLinesFrom (afterBreak : Bool) (text : List Char) :
    Respaced text (joinLinesFrom afterBreak text) := by
  induction text generalizing afterBreak with
  | nil => exact .nil
  | cons character rest inductionHypothesis =>
      unfold joinLinesFrom
      split
      · rename_i newline
        subst newline
        exact (inductionHypothesis true).drop (by decide)
      · split
        · rename_i space
          simp only [Bool.and_eq_true, beq_iff_eq] at space
          rw [space.2]
          exact (inductionHypothesis true).drop (by decide)
        · exact (inductionHypothesis false).keep character

/-- Joining lines drops blanks. -/
theorem respaced_joinLines (text : List Char) : Respaced text (joinLines text) :=
  respaced_joinLinesFrom false text

/-- A word in front of words. -/
theorem unwords_cons_cons (word next : List Char) (rest : List (List Char)) :
    unwords (word :: next :: rest) = word ++ ' ' :: unwords (next :: rest) := by
  simp [unwords, List.intercalate_cons_cons]

/-- A character in front of words. -/
theorem unwords_cons_char (character : Char) (word : List Char) (rest : List (List Char)) :
    unwords ((character :: word) :: rest) = character :: unwords (word :: rest) := by
  cases rest with
  | nil => simp [unwords]
  | cons next others => simp [unwords_cons_cons]

/-- Setting the words of a text apart by single spaces replaces blanks. -/
theorem respaced_unwords_words (text : List Char) : Respaced text (unwords (words text)) := by
  induction text with
  | nil => exact .nil
  | cons character rest inductionHypothesis =>
      by_cases blank : isBlank character = true
      · have skipped : words (character :: rest) = words rest := by
          rw [words.eq_def]
          simp [blank]
        rw [skipped]
        exact inductionHypothesis.drop blank
      · cases rest with
        | nil =>
            have alone : words [character] = [[character]] := by
              rw [words.eq_def]
              simp [blank]
            rw [alone]
            exact Respaced.nil.keep character
        | cons next tail =>
            by_cases ends : isBlank next = true
            · have cut : words (character :: next :: tail) =
                  [character] :: words (next :: tail) := by
                rw [words.eq_def]
                simp [blank, ends]
              rw [cut]
              cases later : words (next :: tail) with
              | nil =>
                  rw [later] at inductionHypothesis
                  exact inductionHypothesis.keep character
              | cons word others =>
                  rw [later] at inductionHypothesis
                  rw [unwords_cons_cons]
                  exact (inductionHypothesis.insert ends (by decide)).keep character
            · cases later : words (next :: tail) with
              | nil =>
                  have alone : words (character :: next :: tail) = [[character]] := by
                    rw [words.eq_def]
                    simp [blank, ends, later]
                  rw [alone]
                  rw [later] at inductionHypothesis
                  exact inductionHypothesis.keep character
              | cons word others =>
                  have longer : words (character :: next :: tail) =
                      (character :: word) :: others := by
                    rw [words.eq_def]
                    simp [blank, ends, later]
                  rw [longer, unwords_cons_char]
                  rw [later] at inductionHypothesis
                  exact inductionHypothesis.keep character

/-- The characters of a run of one sort are all blank or all shown. -/
theorem isBlank_eq_of_chain
    {first : Char} {rest : List Char}
    (chain : List.IsChain (fun left right => (isBlank left == isBlank right) = true)
        (first :: rest)) :
    ∀ character ∈ first :: rest, isBlank character = isBlank first := by
  induction rest generalizing first with
  | nil => simp
  | cons next others inductionHypothesis =>
      obtain ⟨same, below⟩ := List.isChain_cons_cons.mp chain
      intro character present
      rcases List.mem_cons.mp present with rfl | later
      · rfl
      · rw [inductionHypothesis below character later]
        exact (beq_iff_eq.mp same).symm

/-- Collapsing the runs of blanks that hold a newline replaces blanks. -/
theorem respaced_collapseBreaks (text : List Char) : Respaced text (collapseBreaks text) := by
  have runs (parts : List (List Char))
      (sorted : ∀ run ∈ parts,
        List.IsChain (fun left right => (isBlank left == isBlank right) = true) run) :
      Respaced parts.flatten
        (parts.flatMap fun run => if run.contains '\n' then [' '] else run) := by
    induction parts with
    | nil => exact .nil
    | cons run others inductionHypothesis =>
        rw [List.flatten_cons, List.flatMap_cons]
        refine Respaced.append ?_ (inductionHypothesis fun other present =>
          sorted other (by simp [present]))
        by_cases broken : run.contains '\n' = true
        · rw [if_pos broken]
          cases run with
          | nil => simp at broken
          | cons first rest =>
              have same := isBlank_eq_of_chain (sorted (first :: rest) (by simp))
              have newline : '\n' ∈ first :: rest := by simpa using broken
              have blank : isBlank first = true := (same '\n' newline).symm.trans (by decide)
              have others : Respaced rest [] := Respaced.drop_all fun character present =>
                (same character (by simp [present])).trans blank
              exact Respaced.blank blank (show allBlank [' '] = true by decide) others
        · rw [if_neg broken]
          exact Respaced.refl run
  have found := runs (text.splitBy fun left right => isBlank left == isBlank right)
    fun run present => List.isChain_of_mem_splitBy present
  rwa [List.flatten_splitBy] at found

theorem newline_not_mem_collapseBreaks (text : List Char) : '\n' ∉ collapseBreaks text := by
  intro present
  obtain ⟨run, -, inside⟩ := List.mem_flatMap.mp present
  split at inside
  · exact absurd (List.mem_singleton.mp inside) (by decide)
  · rename_i whole
    exact whole (by simpa using inside)

end Layout
end Galley
