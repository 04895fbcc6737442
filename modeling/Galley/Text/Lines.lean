/-!
# Lines

Two notions of a line.  Layout cuts at the newline character alone; verbatim content is
cut at every line boundary character, and each piece keeps its boundary.
-/

namespace Galley
namespace Text

/-- The pieces between newline characters; a text without newline is one line. -/
def lines : List Char → List (List Char)
  | [] => [[]]
  | character :: rest =>
      if character = '\n' then [] :: lines rest
      else
        match lines rest with
        | [] => [[character]]
        | line :: others => (character :: line) :: others

/-- Join lines with a newline between neighbours. -/
def unlines : List (List Char) → List Char
  | [] => []
  | [line] => line
  | line :: others => line ++ '\n' :: unlines others

@[simp] theorem lines_nil : lines [] = [[]] := rfl

@[simp] theorem lines_newline (rest : List Char) : lines ('\n' :: rest) = [] :: lines rest := rfl

theorem lines_ne_nil (text : List Char) : lines text ≠ [] := by
  cases text with
  | nil => simp
  | cons character rest =>
      simp only [lines]
      split
      · simp
      · split <;> simp

@[simp] theorem unlines_nil : unlines [] = [] := rfl

@[simp] theorem unlines_singleton (line : List Char) : unlines [line] = line := rfl

theorem unlines_cons {line : List Char} {others : List (List Char)} (more : others ≠ []) :
    unlines (line :: others) = line ++ '\n' :: unlines others := by
  cases others with
  | nil => contradiction
  | cons next rest => rfl

/-- Cutting into lines and joining them again gives the text back. -/
@[simp] theorem unlines_lines (text : List Char) : unlines (lines text) = text := by
  induction text with
  | nil => rfl
  | cons character rest inductionHypothesis =>
      by_cases newline : character = '\n'
      · subst newline
        rw [lines_newline, unlines_cons (lines_ne_nil rest), inductionHypothesis]
        rfl
      · simp only [lines, newline, if_false]
        cases found : lines rest with
        | nil => exact absurd found (lines_ne_nil rest)
        | cons line others =>
            rw [found] at inductionHypothesis
            cases others with
            | nil => simpa using inductionHypothesis
            | cons next remaining =>
                rw [unlines_cons (by simp)] at inductionHypothesis ⊢
                simpa using inductionHypothesis

/-- Characters at which verbatim content is cut into lines. -/
def isLineBoundary (character : Char) : Bool :=
  let code := character.toNat
  (0x0a ≤ code && code ≤ 0x0d) || (0x1c ≤ code && code ≤ 0x1e) || code == 0x85
    || code == 0x2028 || code == 0x2029

/-- The lines of verbatim content, each with its boundary; carriage return and newline
together are one boundary. -/
def boundedLines : List Char → List (List Char)
  | [] => []
  | character :: rest =>
      let closes := isLineBoundary character && !(character == '\r' && rest.head? == some '\n')
      if closes then [character] :: boundedLines rest
      else
        match boundedLines rest with
        | [] => [[character]]
        | line :: others => (character :: line) :: others

/-- Nothing is lost when verbatim content is cut into lines. -/
@[simp] theorem flatten_boundedLines (text : List Char) : (boundedLines text).flatten = text := by
  induction text with
  | nil => rfl
  | cons character rest inductionHypothesis =>
      simp only [boundedLines]
      split
      · simp [inductionHypothesis]
      · cases found : boundedLines rest with
        | nil =>
            rw [found] at inductionHypothesis
            simp at inductionHypothesis
            simp [← inductionHypothesis]
        | cons line others =>
            rw [found] at inductionHypothesis
            simpa using inductionHypothesis

end Text
end Galley
