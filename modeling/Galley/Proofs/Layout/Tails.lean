import Galley.Layout.Region
import Galley.Proofs.Erasure
import Galley.Proofs.Text.Trimming

/-!
# Tails of regions

The tail of a region goes as far back as its last line that shows something, and that
line loses the blanks at its end.  Of a region that shows nothing the first line is
left.
-/

namespace Galley
namespace Layout

open Marker Text

theorem allBlank_unlines {members : List (List Char)}
    (blank : ∀ line ∈ members, allBlank line = true) : allBlank (unlines members) = true := by
  rw [← ink_eq_nil_iff, ink_unlines]
  exact List.flatMap_eq_nil_iff.mpr fun line present => ink_eq_nil_iff.mpr (blank line present)

theorem unlines_append_singleton (front : List (List Char)) (line : List Char) :
    unlines (front ++ [line]) = front.flatMap (· ++ ['\n']) ++ line := by
  rw [unlines_append_right (by simp)]
  rfl

/-- The last line that is not empty of characters loses its end, and lines behind it are
lost. -/
theorem trimEnd_unlines {front back : List (List Char)} {line : List Char}
    (shown : allBlank line = false) (blank : ∀ other ∈ back, allBlank other = true) :
    Text.trimEnd (unlines (front ++ line :: back)) = unlines (front ++ [Text.trimEnd line]) := by
  have parts : front ++ line :: back = (front ++ [line]) ++ back := by simp
  have lost : allBlank (back.flatMap ('\n' :: ·)) = true := by
    refine List.all_eq_true.mpr fun character present => ?_
    obtain ⟨other, listed, inside⟩ := List.mem_flatMap.mp present
    rcases List.mem_cons.mp inside with rfl | later
    · decide
    · exact List.all_eq_true.mp (blank other listed) character later
  rw [parts, unlines_append_left (by simp), trimEnd_append_of_blank _ lost,
    unlines_append_singleton, unlines_append_singleton, trimEnd_append_of_shown _ shown]

/-- Whether a line shows something does not depend on the blanks at its end. -/
@[simp] theorem isBlankLine_trimEnd (debug : Bool) (line : List Char) :
    isBlankLine debug (Text.trimEnd line) = isBlankLine debug line := by
  obtain ⟨tail, whole, blank⟩ := exists_trimEnd line
  have same : isBlankLine debug (Text.trimEnd line ++ tail) =
      isBlankLine debug (Text.trimEnd line) := by
    cases debug with
    | false => simp [isBlankLine, blank]
    | true =>
        simp [isBlankLine, erase_append _ (opens_of_allBlank blank),
          erase_of_unmarked (unmarked_of_allBlank blank), blank]
  rw [← same, whole]

/-- A line of blanks shows nothing, with or without markers. -/
theorem isBlankLine_of_allBlank (debug : Bool) {line : List Char} (blank : allBlank line = true) :
    isBlankLine debug line = true := by
  cases debug with
  | false => exact blank
  | true => rw [isBlankLine, if_pos rfl, erase_of_unmarked (unmarked_of_allBlank blank), blank]

/-- A line that shows something is not all blanks. -/
theorem allBlank_of_shown {debug : Bool} {line : List Char}
    (shown : isBlankLine debug line = false) : allBlank line = false := by
  cases found : allBlank line with
  | false => rfl
  | true =>
      rw [isBlankLine_of_allBlank debug found] at shown
      cases shown

/-- What holds of all lines, and of a trimmed line where it holds of the line, holds
where the lines are cut and the last is trimmed. -/
theorem forall_mem_cut {P : List Char → Prop} {front back : List (List Char)} {line : List Char}
    (each : ∀ other ∈ front ++ line :: back, P other) (trimmed : P line → P (Text.trimEnd line)) :
    ∀ other ∈ front ++ [Text.trimEnd line], P other := by
  obtain ⟨before, rest⟩ := List.forall_mem_append.mp each
  obtain ⟨here, -⟩ := List.forall_mem_cons.mp rest
  exact List.forall_mem_append.mpr ⟨before, List.forall_mem_singleton.mpr (trimmed here)⟩

theorem whole_cut {front back : List (List Char)} {line : List Char}
    (whole : ∀ other ∈ front ++ line :: back, '\n' ∉ other) :
    ∀ other ∈ front ++ [Text.trimEnd line], '\n' ∉ other :=
  forall_mem_cut whole not_mem_trimEnd

theorem isBlankLine_cut {debug : Bool} {front back : List (List Char)} {line : List Char}
    (blank : ∀ other ∈ front ++ line :: back, isBlankLine debug other = true) :
    ∀ other ∈ front ++ [Text.trimEnd line], isBlankLine debug other = true :=
  forall_mem_cut blank fun here => by rw [isBlankLine_trimEnd, here]

/-- Behind a line that shows something the lines that show nothing are dropped. -/
theorem dropBlankTail_of_shown {debug : Bool} (front : List (List Char)) {line : List Char}
    {back : List (List Char)} (shown : isBlankLine debug line = false)
    (blank : ∀ other ∈ back, isBlankLine debug other = true) :
    dropBlankTail debug (front ++ line :: back) = front ++ [line] := by
  cases front with
  | nil => rw [List.nil_append, dropBlankTail, dropEndWhile_of_all blank, List.nil_append]
  | cons first others =>
      rw [List.cons_append, dropBlankTail, dropEndWhile_of_last others shown blank,
        List.cons_append]

/-- Of lines that show nothing the first stays. -/
theorem dropBlankTail_of_blank {debug : Bool} (first : List Char) {rest : List (List Char)}
    (blank : ∀ line ∈ rest, isBlankLine debug line = true) :
    dropBlankTail debug (first :: rest) = [first] := by
  rw [dropBlankTail, dropEndWhile_of_all blank]

/-- Trimming the blanks leaves the last line that shows something, with its end trimmed
or with some lines behind it that show nothing. -/
theorem trimEnd_unlines_of_shown {debug : Bool} {front back : List (List Char)} {line : List Char}
    (whole : ∀ other ∈ front ++ line :: back, '\n' ∉ other)
    (shown : isBlankLine debug line = false)
    (blank : ∀ other ∈ back, isBlankLine debug other = true) :
    ∃ kept behind, Text.trimEnd (unlines (front ++ line :: back)) =
        unlines (front ++ kept :: behind) ∧
      (∀ other ∈ front ++ kept :: behind, '\n' ∉ other) ∧
      Text.trimEnd kept = Text.trimEnd line ∧ isBlankLine debug kept = false ∧
      ∀ other ∈ behind, isBlankLine debug other = true := by
  rcases all_or_exists_last allBlank back with empty | ⟨before, other, after, rfl, full, empty⟩
  · refine ⟨Text.trimEnd line, [], trimEnd_unlines (allBlank_of_shown shown) empty, ?_,
      trimEnd_trimEnd line, ?_, by simp⟩
    · exact whole_cut whole
    · rw [isBlankLine_trimEnd, shown]
  · have parts (last : List Char) (tail : List (List Char)) :
        front ++ line :: (before ++ last :: tail) = (front ++ line :: before) ++ last :: tail := by
      simp
    refine ⟨line, before ++ [Text.trimEnd other], ?_, ?_, rfl, shown, isBlankLine_cut blank⟩
    · rw [parts, trimEnd_unlines full empty, parts]
    · rw [parts] at whole ⊢
      exact whole_cut whole

/-- Trimming cuts lines off, all of which show nothing, and trims the line it stops at. -/
theorem trimTail_of_shown {debug : Bool} {front back : List (List Char)} {line : List Char}
    (whole : ∀ other ∈ front ++ line :: back, '\n' ∉ other)
    (shown : isBlankLine debug line = false)
    (blank : ∀ other ∈ back, isBlankLine debug other = true) :
    trimTail debug (unlines (front ++ line :: back)) = unlines (front ++ [Text.trimEnd line]) := by
  obtain ⟨kept, behind, trimmed, keptWhole, same, shows, rest⟩ :=
    trimEnd_unlines_of_shown whole shown blank
  rw [trimTail, trimmed, lines_unlines (by simp) keptWhole, dropBlankTail_of_shown front shows rest,
    trimEnd_unlines (allBlank_of_shown shows) (by simp), same]

/-- Of lines that show nothing the first is left. -/
theorem trimTail_of_blank {debug : Bool} {first : List Char} {rest : List (List Char)}
    (whole : ∀ other ∈ first :: rest, '\n' ∉ other)
    (blank : ∀ other ∈ first :: rest, isBlankLine debug other = true) :
    trimTail debug (unlines (first :: rest)) = Text.trimEnd first := by
  rcases all_or_exists_last allBlank (first :: rest) with
    empty | ⟨before, other, after, parts, full, empty⟩
  · rw [trimTail, trimEnd_of_blank (allBlank_unlines empty),
      trimEnd_of_blank (empty first (by simp))]
    rfl
  · rw [parts] at whole blank ⊢
    rw [trimTail, trimEnd_unlines full empty, lines_unlines (by simp) (whole_cut whole)]
    cases before with
    | nil =>
        obtain ⟨rfl, -⟩ := List.cons.inj parts
        rw [List.nil_append, dropBlankTail_of_blank _ (by simp), unlines_singleton, trimEnd_trimEnd]
    | cons piece others =>
        obtain ⟨rfl, -⟩ := List.cons.inj parts
        have tailBlank : ∀ line ∈ others ++ [Text.trimEnd other], isBlankLine debug line = true :=
          (List.forall_mem_cons.mp (isBlankLine_cut blank)).2
        rw [List.cons_append, dropBlankTail_of_blank _ tailBlank, unlines_singleton]

/-- Without markers, trimming the tail is trimming the end. -/
theorem trimTail_false (text : List Char) : trimTail false text = Text.trimEnd text := by
  have whole : ∀ line ∈ lines text, '\n' ∉ line := fun line => not_mem_of_mem_lines
  have split := unlines_lines text
  rcases all_or_exists_last allBlank (lines text) with
    blank | ⟨front, line, back, parts, shown, blank⟩
  · have nothing := allBlank_unlines blank
    rw [split] at nothing
    rw [trimTail, trimEnd_of_blank nothing]
    rfl
  · have shows : isBlankLine false line = false := shown
    have lost : ∀ other ∈ back, isBlankLine false other = true := blank
    rw [parts] at whole split
    rw [← split, trimTail_of_shown whole shows lost, trimEnd_unlines shown blank]

end Layout
end Galley
