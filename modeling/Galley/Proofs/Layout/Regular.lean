import Galley.Proofs.Layout.Tails

/-!
# Regular lines

The lines of a marked region are regular when erasing their markers commutes with
trimming their ends, and when the first line that shows something stands behind the
indentation.  A region is sealed when, in addition, nothing is left to trim at its end.
Trimming the tail of a region seals it, with and without markers alike.
-/

namespace Galley
namespace Layout

open Marker Text

/-- No blanks stand before the markers at the end of a line: it may be trimmed before or
after its markers are erased. -/
def Neat (line : List Char) : Prop :=
  erase (Text.trimEnd line) = Text.trimEnd (erase line)

/-- Nothing is left to trim once the markers of a line are erased. -/
def Trimmed (line : List Char) : Prop :=
  Text.trimEnd (erase line) = erase line

theorem isBlankLine_erase (line : List Char) :
    isBlankLine false (erase line) = isBlankLine true line := rfl

theorem isBlankLine_of_erase_eq {line other : List Char} (same : erase line = erase other) :
    isBlankLine true line = isBlankLine true other := by
  rw [← isBlankLine_erase, ← isBlankLine_erase, same]

theorem neat_of_unmarked {line : List Char} (unmarked : Unmarked line) : Neat line := by
  obtain ⟨tail, whole, -⟩ := exists_dropEndWhile isBlank line
  have front : Unmarked (Text.trimEnd line) := unmarked.part ⟨[], tail, whole.symm⟩
  rw [Neat, erase_of_unmarked front, erase_of_unmarked unmarked]

theorem Trimmed.of_erase_eq {line other : List Char} (trimmed : Trimmed line)
    (same : erase other = erase line) : Trimmed other := by
  rw [Trimmed, same, trimmed]

/-- A trimmed line has no blanks at its end, before or behind markers. -/
theorem Trimmed.trimEnd_eq {line : List Char} (trimmed : Trimmed line) :
    Text.trimEnd line = line := by
  obtain ⟨tail, whole, blanks⟩ := exists_dropEndWhile isBlank line
  have all : allBlank tail = true := List.all_eq_true.mpr blanks
  cases tail with
  | nil =>
      rw [List.append_nil] at whole
      exact whole.symm
  | cons character rest =>
      have opens : Opens (character :: rest) :=
        opens_of_blank (Or.inl (blanks character (by simp))) rest
      have erased : erase line = erase (Text.trimEnd line) ++ (character :: rest) := by
        conv_lhs => rw [whole]
        rw [erase_append _ opens, erase_of_unmarked (unmarked_of_allBlank all)]
        rfl
      have shorter := trimmed
      rw [Trimmed, erased, trimEnd_append_of_blank _ all] at shorter
      obtain ⟨lost, parts, -⟩ := exists_dropEndWhile isBlank (erase (Text.trimEnd line))
      have sizes := congrArg List.length parts
      have sizes' := congrArg List.length shorter
      rw [Text.trimEnd] at sizes'
      simp only [List.length_append, List.length_cons] at sizes sizes'
      omega

theorem Trimmed.neat {line : List Char} (trimmed : Trimmed line) : Neat line := by
  rw [Neat, trimmed.trimEnd_eq]
  exact trimmed.symm

/-- A neat line is trimmed once its end is. -/
theorem Neat.trimmed_trimEnd {line : List Char} (neat : Neat line) :
    Trimmed (Text.trimEnd line) := by
  rw [Trimmed, neat, trimEnd_trimEnd]

/-- Lines, each with a newline behind it. -/
def close (lines : List (List Char)) : List Char :=
  lines.flatMap (· ++ ['\n'])

@[simp] theorem close_nil : close [] = [] := rfl

@[simp] theorem close_append (first second : List (List Char)) :
    close (first ++ second) = close first ++ close second := by
  simp [close]

theorem close_singleton (line : List Char) : close [line] = line ++ ['\n'] := by
  simp [close]

theorem close_cons (line : List Char) (rest : List (List Char)) :
    close (line :: rest) = line ++ '\n' :: close rest := by
  simp [close]

theorem unlines_closed (lines : List (List Char)) : unlines (lines ++ [[]]) = close lines := by
  rw [unlines_append_singleton, List.append_nil]
  rfl

theorem unlines_append_newline (front : List (List Char)) (line : List Char) :
    unlines (front ++ [line]) ++ ['\n'] = close (front ++ [line]) := by
  rw [unlines_append_singleton, close_append, close_singleton, List.append_assoc]
  rfl

/-- The lines of a marked region at an indentation. -/
structure Regular (indent : Nat) (lines : List (List Char)) : Prop where
  /-- Lines hold no newline. -/
  whole : ∀ line ∈ lines, '\n' ∉ line
  /-- Lines that show something are neat. -/
  neat : ∀ line ∈ lines, isBlankLine true line = false → Neat line
  /-- A first line that shows nothing is neat and does not begin with a space. -/
  head : ∀ line ∈ lines.head?, isBlankLine true line = true → Neat line ∧ line.head? ≠ some ' '
  /-- The first line that shows something is indented. -/
  margin : ∀ line, lines.find? (fun other => !isBlankLine true other) = some line →
    spaces indent <+: line

namespace Regular

variable {indent : Nat} {lines : List (List Char)}

theorem nil : Regular indent [] :=
  ⟨by simp, by simp, by simp, by simp⟩

theorem append {others : List (List Char)} (left : Regular indent lines)
    (right : Regular indent others) : Regular indent (lines ++ others) := by
  refine ⟨fun line present => ?_, fun line present => ?_, fun line present => ?_,
    fun line found => ?_⟩
  · exact (List.mem_append.mp present).elim (left.whole line) (right.whole line)
  · exact (List.mem_append.mp present).elim (left.neat line) (right.neat line)
  · cases lines with
    | nil => exact right.head line present
    | cons first rest => exact left.head line present
  · rw [List.find?_append] at found
    cases before : lines.find? fun other => !isBlankLine true other with
    | some first =>
        rw [before, Option.some_or] at found
        obtain rfl := Option.some.inj found
        exact left.margin first before
    | none =>
        rw [before, Option.none_or] at found
        exact right.margin line found

/-- A line that shows something at its indentation is regular by itself. -/
theorem singleton {line : List Char} (whole : '\n' ∉ line) (neat : Neat line)
    (shown : isBlankLine true line = false) (margin : spaces indent <+: line) :
    Regular indent [line] := by
  refine ⟨by simpa using whole, by simpa using fun _ => neat, ?_, ?_⟩
  · simp [shown]
  · simpa [shown] using margin

/-- So is a line of markers. -/
theorem singleton_blank {line : List Char} (whole : '\n' ∉ line) (neat : Neat line)
    (blank : isBlankLine true line = true) (start : line.head? ≠ some ' ') :
    Regular indent [line] := by
  refine ⟨by simpa using whole, by simp [blank], ?_, ?_⟩
  · simpa [blank] using ⟨neat, start⟩
  · simp [blank]

end Regular

theorem spaces_prefix_trimEnd {indent : Nat} {line : List Char} (shown : allBlank line = false)
    (margin : spaces indent <+: line) : spaces indent <+: Text.trimEnd line := by
  obtain ⟨rest, rfl⟩ := margin
  have restShown : allBlank rest = false := by
    have blank : (spaces indent).all isBlank = true :=
      List.all_eq_true.mpr fun character present => by
        rw [List.eq_of_mem_replicate present]
        decide
    simpa [allBlank, blank] using shown
  rw [trimEnd_append_of_shown _ restShown]
  exact List.prefix_append _ _

/-- Lines that end a region are regular up to the last that shows something, once it is
trimmed. -/
theorem Regular.cut {indent : Nat} {front back : List (List Char)} {line : List Char}
    (regular : Regular indent (front ++ line :: back)) (shown : isBlankLine true line = false) :
    Regular indent (front ++ [Text.trimEnd line]) := by
  have neat : Neat line := regular.neat line (by simp) shown
  have shownTrimmed : isBlankLine true (Text.trimEnd line) = false := by
    rw [isBlankLine_trimEnd, shown]
  refine ⟨whole_cut regular.whole, forall_mem_cut regular.neat fun _ _ => neat.trimmed_trimEnd.neat,
    fun other present => ?_, fun other found => ?_⟩
  · cases front with
    | nil =>
        obtain rfl : Text.trimEnd line = other := by simpa using present
        intro blank
        rw [shownTrimmed] at blank
        cases blank
    | cons first rest => exact regular.head other present
  · have margin := regular.margin
    rw [List.find?_append] at margin found
    cases before : front.find? fun other => !isBlankLine true other with
    | some first =>
        rw [before, Option.some_or] at margin found
        exact margin other found
    | none =>
        rw [before, Option.none_or, List.find?_cons_of_pos (by simp [shownTrimmed])] at found
        rw [before, Option.none_or, List.find?_cons_of_pos (by simp [shown])] at margin
        obtain rfl := Option.some.inj found
        exact spaces_prefix_trimEnd (allBlank_of_shown shown) (margin line rfl)

/-! ## Regions with and without markers -/

/-- A marked region is laid out like a plain one, and both are trimmed. -/
def Sealed (indent : Nat) (marked plain : List Char) : Prop :=
  ∃ front last, marked = close (front ++ [last]) ∧ plain = close ((front ++ [last]).map erase) ∧
    Regular indent (front ++ [last]) ∧ Trimmed last

theorem newline_not_mem_erased {texts : List (List Char)} (whole : ∀ line ∈ texts, '\n' ∉ line) :
    ∀ line ∈ texts.map erase, '\n' ∉ line :=
  List.forall_mem_map.mpr fun line present newline => whole line present (mem_of_mem_erase newline)

theorem isBlankLine_erased {texts : List (List Char)}
    (blank : ∀ line ∈ texts, isBlankLine true line = true) :
    ∀ line ∈ texts.map erase, isBlankLine false line = true :=
  List.forall_mem_map.mpr fun line present => by
    rw [isBlankLine_erase]
    exact blank line present

theorem sealed_trimTail_of_shown {indent : Nat} {front back : List (List Char)} {line : List Char}
    (regular : Regular indent (front ++ line :: back)) (shown : isBlankLine true line = false)
    (blank : ∀ other ∈ back, isBlankLine true other = true) :
    Sealed indent (trimTail true (unlines (front ++ line :: back)) ++ ['\n'])
      (trimTail false (unlines ((front ++ line :: back).map erase)) ++ ['\n']) := by
  have neat : Neat line := regular.neat line (by simp) shown
  have plainWhole := newline_not_mem_erased regular.whole
  rw [List.map_append, List.map_cons] at plainWhole ⊢
  rw [trimTail_of_shown regular.whole shown blank,
    trimTail_of_shown plainWhole (by rw [isBlankLine_erase, shown]) (isBlankLine_erased blank),
    unlines_append_newline, unlines_append_newline]
  refine ⟨front, Text.trimEnd line, rfl, ?_, regular.cut shown, neat.trimmed_trimEnd⟩
  rw [List.map_append, List.map_singleton, neat]

theorem sealed_trimTail_of_blank {indent : Nat} {first : List Char} {rest : List (List Char)}
    (regular : Regular indent (first :: rest))
    (blank : ∀ line ∈ first :: rest, isBlankLine true line = true) :
    Sealed indent (trimTail true (unlines (first :: rest)) ++ ['\n'])
      (trimTail false (unlines ((first :: rest).map erase)) ++ ['\n']) := by
  have firstBlank : isBlankLine true first = true := blank first (by simp)
  have plainWhole := newline_not_mem_erased regular.whole
  have plainBlank := isBlankLine_erased blank
  rw [List.map_cons] at plainWhole plainBlank ⊢
  obtain ⟨neat, start⟩ := regular.head first (by simp) firstBlank
  rw [trimTail_of_blank regular.whole blank, trimTail_of_blank plainWhole plainBlank]
  refine ⟨[], Text.trimEnd first, (close_singleton _).symm, ?_, ?_, neat.trimmed_trimEnd⟩
  · rw [List.nil_append, List.map_singleton, neat, close_singleton]
  refine Regular.singleton_blank (not_mem_trimEnd (regular.whole first (by simp)))
    neat.trimmed_trimEnd.neat (by rw [isBlankLine_trimEnd, firstBlank]) ?_
  intro begins
  obtain ⟨tail, parts, -⟩ := exists_dropEndWhile isBlank first
  have parts' : first = Text.trimEnd first ++ tail := parts
  cases found : Text.trimEnd first with
  | nil =>
      rw [found] at begins
      cases begins
  | cons character others =>
      rw [parts', found] at start
      rw [found] at begins
      exact start (by simpa using begins)

/-- Trimming the tail of a region seals it. -/
theorem sealed_trimTail {indent : Nat} {lines : List (List Char)} (nonempty : lines ≠ [])
    (regular : Regular indent lines) :
    Sealed indent (trimTail true (unlines lines) ++ ['\n'])
      (trimTail false (unlines (lines.map erase)) ++ ['\n']) := by
  rcases all_or_exists_last (isBlankLine true) lines with
    blank | ⟨front, line, back, rfl, shown, blank⟩
  · obtain ⟨first, rest, rfl⟩ := List.exists_cons_of_ne_nil nonempty
    exact sealed_trimTail_of_blank regular blank
  · exact sealed_trimTail_of_shown regular shown blank

end Layout
end Galley
