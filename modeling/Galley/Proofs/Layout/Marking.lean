import Galley.Layout.Render
import Galley.Proofs.Layout.Regular

/-!
# Tags around regions

Tags are put behind the indentation of the first line of a region and before its last
newline.  There they change neither what the lines show nor how they are trimmed, so a
sealed region stays sealed.
-/

namespace Galley
namespace Layout

open Marker Text

theorem isMarker_opening {tagClass : List Char} {kind : Kind}
    (classed : tagClass = blockClass ∨ tagClass = spanClass) (known : kind.isKnown = true) :
    IsMarker (opening tagClass kind.name.toList) ∧
    IsMarker (closing tagClass kind.name.toList) := by
  have named : kind.name.toList ≠ [] ∧ kind.name.toList.all isNameChar = true := by
    cases kind with
    | foreign name => cases known
    | _ => decide
  have proper := List.all_eq_true.mp named.2
  exact ⟨⟨tagClass, _, classed, named.1, proper, Or.inl rfl⟩,
    ⟨tagClass, _, classed, named.1, proper, Or.inr rfl⟩⟩

/-! ## Spaces before a text -/

theorem erase_spaces_append (count : Nat) (rest : List Char) :
    erase (spaces count ++ rest) = spaces count ++ erase rest :=
  erase_append_left (fun present => absurd (List.eq_of_mem_replicate present) (by decide)) rest

theorem allBlank_spaces (count : Nat) : allBlank (spaces count) = true :=
  List.all_eq_true.mpr fun character present => by
    rw [List.eq_of_mem_replicate present]
    decide

theorem newline_not_mem_spaces (count : Nat) : '\n' ∉ spaces count :=
  fun newline => absurd (List.eq_of_mem_replicate newline) (by decide)

theorem isBlankLine_spaces_append (count : Nat) (rest : List Char) :
    isBlankLine true (spaces count ++ rest) = isBlankLine true rest := by
  rw [← isBlankLine_erase, erase_spaces_append, isBlankLine, if_neg (by simp), allBlank,
    List.all_append]
  have blank : (spaces count).all isBlank = true := allBlank_spaces count
  rw [blank, Bool.true_and]
  rfl

/-- Behind spaces a line that shows something is as neat as before. -/
theorem neat_spaces_append_iff (count : Nat) {line : List Char}
    (shown : isBlankLine true line = false) : Neat (spaces count ++ line) ↔ Neat line := by
  have shownErased : allBlank (erase line) = false := shown
  rw [Neat, Neat, trimEnd_append_of_shown _ (allBlank_of_shown shown), erase_spaces_append,
    erase_spaces_append, trimEnd_append_of_shown _ shownErased, List.append_cancel_left_eq]

/-- The indentation of a line and what stands behind it. -/
theorem exists_margin (line : List Char) :
    ∃ count rest, line = spaces count ++ rest ∧ rest.head? ≠ some ' ' ∧
      line.takeWhile (· == ' ') = spaces count ∧ line.dropWhile (· == ' ') = rest := by
  have taken : line.takeWhile (· == ' ') = spaces (line.takeWhile (· == ' ')).length := by
    refine List.eq_replicate_iff.mpr ⟨rfl, fun character present => ?_⟩
    simpa using List.mem_takeWhile_imp present
  refine ⟨_, _, ?_, ?_, taken, rfl⟩
  · rw [← taken, List.takeWhile_append_dropWhile]
  · have stops := List.head?_dropWhile_not (· == ' ') line
    intro begins
    rw [begins] at stops
    simp at stops

/-! ## Marking -/

/-- Put a text behind the indentation of another. -/
def insert (text region : List Char) : List Char :=
  region.takeWhile (· == ' ') ++ text ++ region.dropWhile (· == ' ')

/-- What is put behind the indentation of a region stands on its first line. -/
theorem insert_close (text line : List Char) (rest : List (List Char)) :
    insert text (close (line :: rest)) = close (insert text line :: rest) := by
  obtain ⟨count, behind, rfl, start, taken, dropped⟩ := exists_margin line
  have spaced : ∀ character ∈ spaces count, (character == ' ') = true :=
    fun character present => by
      rw [List.eq_of_mem_replicate present]
      rfl
  have stop : ∀ tail, (behind ++ '\n' :: tail).takeWhile (· == ' ') = [] ∧
      (behind ++ '\n' :: tail).dropWhile (· == ' ') = behind ++ '\n' :: tail := by
    intro tail
    cases behind with
    | nil => simp
    | cons character others =>
        have apart : ¬ (character == ' ') = true := by simpa using start
        exact ⟨List.takeWhile_cons_of_neg apart, List.dropWhile_cons_of_neg apart⟩
  rw [close_cons, close_cons, insert, insert, taken, dropped,
    List.append_assoc (spaces count) behind ('\n' :: close rest),
    List.takeWhile_append_of_pos spaced, List.dropWhile_append_of_pos spaced,
    (stop (close rest)).1, (stop (close rest)).2]
  simp

/-- What is put before the last newline of a region stands on its last line. -/
theorem dropLast_close_append (front : List (List Char)) (last text : List Char) :
    (close (front ++ [last])).dropLast ++ text ++ ['\n'] = close (front ++ [last ++ text]) := by
  rw [close_append, close_append, close_singleton, close_singleton, ← List.append_assoc,
    List.dropLast_concat]
  simp

/-- The tags of a block are put behind the indentation of a closed region and before its
last newline. -/
theorem tag_closed {node : Node} (block : (node.isSpan && node.kind != .inlineCode) = false)
    (front : List (List Char)) (last : List Char) :
    tag node (close (front ++ [last])) =
      (insert (opening blockClass node.kind.name.toList) (close (front ++ [last]))).dropLast ++
        closing blockClass node.kind.name.toList ++ ['\n'] := by
  have ended : close (front ++ [last]) = (close front ++ last) ++ ['\n'] := by
    rw [close_append, close_singleton, List.append_assoc]
  obtain ⟨count, rest, whole, -, taken, dropped⟩ := exists_margin (close (front ++ [last]))
  have final : rest.getLast? = some '\n' := by
    have ends := congrArg List.getLast? (whole.symm.trans ended)
    rw [List.getLast?_append, List.getLast?_concat] at ends
    cases found : rest.getLast? with
    | some character =>
        rw [found] at ends
        simpa using ends
    | none =>
        rw [found, Option.none_or] at ends
        have space := List.eq_of_mem_replicate (List.mem_of_getLast? ends)
        cases space
  have nonempty : rest ≠ [] := by
    rintro rfl
    cases final
  unfold tag insert
  dsimp only
  rw [block, if_neg (by simp), taken, dropped, if_pos final,
    List.dropLast_append_of_ne_nil nonempty]
  simp [enclose]

section Insert

variable {text line : List Char} {indent : Nat}

theorem erase_insert (tags : Tags text) (line : List Char) :
    erase (insert text line) = erase line := by
  obtain ⟨count, rest, whole, -, taken, dropped⟩ := exists_margin line
  rw [insert, taken, dropped, List.append_assoc, erase_spaces_append, tags.erase_append, whole,
    erase_spaces_append]

/-- Tags may be put before a neat line. -/
theorem neat_append (tags : Tags text) (neat : Neat line) : Neat (text ++ line) := by
  rw [Neat, tags.erase_append]
  cases found : allBlank line with
  | false => rw [trimEnd_append_of_shown _ found, tags.erase_append, neat]
  | true =>
      have kept : Text.trimEnd text = text := by
        obtain ⟨tail, parts, blanks⟩ := exists_dropEndWhile isBlank text
        cases tail with
        | nil =>
            rw [List.append_nil] at parts
            exact parts.symm
        | cons character others =>
            have apart := tags.not_blank character (by rw [parts]; simp)
            rw [blanks character (by simp)] at apart
            cases apart
      have alone := tags.erase_append []
      rw [List.append_nil, erase_nil] at alone
      rw [trimEnd_append_of_blank _ found, kept, alone,
        erase_of_unmarked (unmarked_of_allBlank found), trimEnd_of_blank found]

theorem neat_insert (tags : Tags text) (shown : isBlankLine true line = false) (neat : Neat line) :
    Neat (insert text line) := by
  obtain ⟨count, rest, rfl, -, taken, dropped⟩ := exists_margin line
  rw [isBlankLine_spaces_append] at shown
  rw [neat_spaces_append_iff count shown] at neat
  have erased : isBlankLine true (text ++ rest) = false := by
    rw [isBlankLine_of_erase_eq (tags.erase_append rest), shown]
  rw [insert, taken, dropped, List.append_assoc, neat_spaces_append_iff count erased]
  exact neat_append tags neat

theorem neat_insert_of_start (tags : Tags text) (neat : Neat line) (start : line.head? ≠ some ' ') :
    Neat (insert text line) ∧ (insert text line).head? ≠ some ' ' := by
  obtain ⟨count, rest, rfl, other, taken, dropped⟩ := exists_margin line
  cases count with
  | succ fewer => exact absurd rfl start
  | zero =>
      have inserted : insert text (spaces 0 ++ rest) = text ++ rest := by
        rw [insert, taken, dropped]
        rfl
      rw [inserted]
      exact ⟨neat_append tags neat, tags.head?_ne other⟩

theorem margin_insert (text : List Char) (margin : spaces indent <+: line) :
    spaces indent <+: insert text line := by
  obtain ⟨rest, rfl⟩ := margin
  have blanks : ∀ character ∈ spaces indent, (character == ' ') = true :=
    fun character present => by
    rw [List.eq_of_mem_replicate present]
    rfl
  rw [insert, List.takeWhile_append_of_pos blanks, List.append_assoc, List.append_assoc]
  exact List.prefix_append _ _

theorem not_newline_insert (tags : Tags text) (whole : '\n' ∉ line) : '\n' ∉ insert text line := by
  obtain ⟨count, rest, rfl, -, taken, dropped⟩ := exists_margin line
  rw [insert, taken, dropped]
  simp only [List.mem_append, not_or] at whole ⊢
  exact ⟨⟨whole.1, tags.not_newline⟩, whole.2⟩

/-- Tags may be put into the first line of a region. -/
theorem Regular.insert {rest : List (List Char)} (regular : Regular indent (line :: rest))
    (tags : Tags text) : Regular indent (Layout.insert text line :: rest) := by
  have same := isBlankLine_of_erase_eq (erase_insert tags line)
  obtain ⟨whole, wholeRest⟩ := List.forall_mem_cons.mp regular.whole
  obtain ⟨neat, neatRest⟩ := List.forall_mem_cons.mp regular.neat
  refine ⟨List.forall_mem_cons.mpr ⟨not_newline_insert tags whole, wholeRest⟩,
    List.forall_mem_cons.mpr ⟨fun shown => ?_, neatRest⟩, fun other present blank => ?_,
    fun other found => ?_⟩
  · rw [same] at shown
    exact neat_insert tags shown (neat shown)
  · obtain rfl : Layout.insert text line = other := by simpa using present
    rw [same] at blank
    obtain ⟨before, start⟩ := regular.head line (by simp) blank
    exact neat_insert_of_start tags before start
  · have margin := regular.margin
    cases shows : isBlankLine true line with
    | false =>
        rw [List.find?_cons_of_pos (by simp [same, shows])] at found
        rw [List.find?_cons_of_pos (by simp [shows])] at margin
        obtain rfl := Option.some.inj found
        exact margin_insert text (margin line rfl)
    | true =>
        rw [List.find?_cons_of_neg (by simp [same, shows])] at found
        rw [List.find?_cons_of_neg (by simp [shows])] at margin
        exact margin other found

/-- Tags may be put at the end of the last line of a trimmed region. -/
theorem Regular.append_tags {front : List (List Char)} (regular : Regular indent (front ++ [line]))
    (trimmed : Trimmed line) (tags : Tags text) : Regular indent (front ++ [line ++ text]) := by
  have erased := tags.erase_append_right line
  have same := isBlankLine_of_erase_eq erased
  have neat : Neat (line ++ text) := (trimmed.of_erase_eq erased).neat
  refine ⟨fun other present => ?_, fun other present shown => ?_, fun other present blank => ?_,
    fun other found => ?_⟩
  · rcases List.mem_append.mp present with inside | last
    · exact regular.whole other (by simp [inside])
    · rw [List.mem_singleton.mp last, List.mem_append, not_or]
      exact ⟨regular.whole line (by simp), tags.not_newline⟩
  · rcases List.mem_append.mp present with inside | last
    · exact regular.neat other (by simp [inside]) shown
    · rw [List.mem_singleton.mp last]
      exact neat
  · cases front with
    | cons first rest => exact regular.head other present blank
    | nil =>
        obtain rfl : line ++ text = other := by simpa using present
        rw [same] at blank
        refine ⟨neat, ?_⟩
        cases line with
        | nil =>
            have alone : (text ++ []).head? ≠ some ' ' := tags.head?_ne (by simp)
            simpa using alone
        | cons character others => exact (regular.head _ (by simp) blank).2
  · have margin := regular.margin
    rw [List.find?_append] at found margin
    cases before : front.find? fun piece => !isBlankLine true piece with
    | some first =>
        rw [before, Option.some_or] at found margin
        exact margin other found
    | none =>
        rw [before, Option.none_or] at found margin
        cases shows : isBlankLine true line with
        | false =>
            rw [List.find?_cons_of_pos (by simp [same, shows])] at found
            rw [List.find?_cons_of_pos (by simp [shows])] at margin
            obtain rfl := Option.some.inj found
            exact (margin line rfl).trans (List.prefix_append _ _)
        | true =>
            rw [List.find?_cons_of_neg (by simp [same, shows])] at found
            cases found

end Insert

/-! ## Tagging sealed regions -/

namespace Sealed

variable {indent : Nat} {marked plain text : List Char}

theorem insert (stands : Sealed indent marked plain) (tags : Tags text) :
    Sealed indent (Layout.insert text marked) plain := by
  obtain ⟨front, last, rfl, rfl, regular, trimmed⟩ := stands
  cases front with
  | nil =>
      refine ⟨[], Layout.insert text last, insert_close text last [], ?_, regular.insert tags,
        trimmed.of_erase_eq (erase_insert tags last)⟩
      simp [erase_insert tags last]
  | cons first rest =>
      refine ⟨Layout.insert text first :: rest, last, insert_close text first (rest ++ [last]), ?_,
        regular.insert tags, trimmed⟩
      simp [erase_insert tags first]

theorem append_tags (stands : Sealed indent marked plain) (tags : Tags text) :
    Sealed indent (marked.dropLast ++ text ++ ['\n']) plain := by
  obtain ⟨front, last, rfl, rfl, regular, trimmed⟩ := stands
  refine ⟨front, last ++ text, dropLast_close_append front last text, ?_,
    regular.append_tags trimmed tags, trimmed.of_erase_eq (tags.erase_append_right last)⟩
  simp [tags.erase_append_right last]

/-- A region that shows nothing but tags waits for the next region. -/
theorem tag_nil {node : Node} (block : (node.isSpan && node.kind != .inlineCode) = false) :
    Layout.tag node [] = enclose blockClass node.kind.name.toList [] := by
  simp [Layout.tag, block]

/-- The tags of a block are put into its region. -/
theorem tag (stands : Sealed indent marked plain) {node : Node} (known : node.kind.isKnown = true)
    (block : (node.isSpan && node.kind != .inlineCode) = false) :
    Sealed indent (Layout.tag node marked) plain := by
  obtain ⟨opened, closed⟩ := isMarker_opening (Or.inl rfl) known
  have both := (stands.insert (Tags.of_isMarker opened)).append_tags (Tags.of_isMarker closed)
  obtain ⟨front, last, rfl, -⟩ := stands
  rwa [tag_closed block]

end Sealed

/-! ## Margins -/

/-- A smaller margin is kept as well. -/
theorem Regular.mono {indent smaller : Nat} {lines : List (List Char)}
    (regular : Regular indent lines) (less : smaller ≤ indent) : Regular smaller lines := by
  refine ⟨regular.whole, regular.neat, regular.head, fun line found => ?_⟩
  obtain ⟨rest, whole⟩ := regular.margin line found
  refine ⟨spaces (indent - smaller) ++ rest, ?_⟩
  rw [← whole, ← List.append_assoc, spaces, spaces, List.replicate_append_replicate, spaces]
  congr
  omega

theorem Sealed.mono {indent smaller : Nat} {marked plain : List Char}
    (stands : Sealed indent marked plain) (less : smaller ≤ indent) :
    Sealed smaller marked plain := by
  obtain ⟨front, last, rfl, rfl, regular, trimmed⟩ := stands
  exact ⟨front, last, rfl, rfl, regular.mono less, trimmed⟩

theorem Sealed.append {indent : Nat} {marked plain marked' plain' : List Char}
    (left : Sealed indent marked plain) (right : Sealed indent marked' plain') :
    Sealed indent (marked ++ marked') (plain ++ plain') := by
  obtain ⟨front, last, rfl, rfl, regular, -⟩ := left
  obtain ⟨front', last', rfl, rfl, regular', trimmed⟩ := right
  have joined (lines lines' : List (List Char)) (line line' : List Char) :
      close (lines ++ [line] ++ lines' ++ [line']) =
        close (lines ++ [line]) ++ close (lines' ++ [line']) := by
    rw [List.append_assoc _ lines', close_append]
  refine ⟨front ++ [last] ++ front', last', (joined ..).symm, ?_, ?_, trimmed⟩
  · simp only [List.map_append, List.map_singleton, joined]
  · rw [List.append_assoc _ front']
    exact regular.append regular'

/-! ## Regions with waiting tags -/

/-- Tags may be put before the first line of a region whose margin does not matter. -/
theorem Regular.prepend {line text : List Char} {rest : List (List Char)}
    (regular : Regular 0 (line :: rest)) (tags : Tags text) :
    Regular 0 ((text ++ line) :: rest) := by
  have same := isBlankLine_of_erase_eq (tags.erase_append line)
  obtain ⟨whole, wholeRest⟩ := List.forall_mem_cons.mp regular.whole
  obtain ⟨neat, neatRest⟩ := List.forall_mem_cons.mp regular.neat
  refine ⟨List.forall_mem_cons.mpr ⟨?_, wholeRest⟩,
    List.forall_mem_cons.mpr ⟨fun shown => ?_, neatRest⟩, fun other present blank => ?_,
    fun other _ => List.nil_prefix⟩
  · rw [List.mem_append, not_or]
    exact ⟨tags.not_newline, whole⟩
  · rw [same] at shown
    exact neat_append tags (neat shown)
  · obtain rfl : text ++ line = other := by simpa using present
    rw [same] at blank
    obtain ⟨before, start⟩ := regular.head line (by simp) blank
    exact ⟨neat_append tags before, tags.head?_ne start⟩

/-- A marked region is laid out like a plain one.  Where the margin does not matter,
tags may wait behind its last newline. -/
def Laid (indent : Nat) (marked plain : List Char) : Prop :=
  ∃ lines tags, marked = close lines ++ tags ∧ plain = close (lines.map erase) ∧
    Regular indent lines ∧ Tags tags ∧ (tags = [] ∨ indent = 0)

theorem Sealed.laid {indent : Nat} {marked plain : List Char}
    (stands : Sealed indent marked plain) :
    Laid indent marked plain := by
  obtain ⟨front, last, rfl, rfl, regular, -⟩ := stands
  exact ⟨front ++ [last], [], by simp, rfl, regular, Tags.nil, Or.inl rfl⟩

namespace Laid

variable {indent : Nat} {marked plain : List Char}

theorem nil : Laid indent [] [] :=
  ⟨[], [], rfl, rfl, Regular.nil, Tags.nil, Or.inl rfl⟩

/-- Tags wait for the next region. -/
theorem of_tags {text : List Char} (tags : Tags text) : Laid 0 text [] :=
  ⟨[], text, rfl, rfl, Regular.nil, tags, Or.inr rfl⟩

theorem append {marked' plain' : List Char} (left : Laid indent marked plain)
    (right : Laid indent marked' plain') : Laid indent (marked ++ marked') (plain ++ plain') := by
  obtain ⟨lines, tags, rfl, rfl, regular, isTags, free⟩ := left
  obtain ⟨lines', tags', rfl, rfl, regular', isTags', free'⟩ := right
  rcases free with rfl | rfl
  · exact ⟨lines ++ lines', tags', by simp, by simp, regular.append regular', isTags', free'⟩
  · cases lines' with
    | nil => exact ⟨lines, tags ++ tags',
        by simp, by simp, regular, isTags.append isTags', Or.inr rfl⟩
    | cons line rest =>
        refine ⟨lines ++ (tags ++ line) :: rest, tags', ?_, ?_,
          regular.append (regular'.prepend isTags), isTags', Or.inr rfl⟩
        · simp [close_cons]
        · simp [isTags.erase_append]

/-- A region is a list of regular lines, the last of which holds the waiting tags. -/
theorem exists_lines (laid : Laid indent marked plain) :
    ∃ front last, marked = unlines (front ++ [last]) ∧
    plain = unlines ((front ++ [last]).map erase) ∧
      Regular indent (front ++ [last]) := by
  obtain ⟨lines, tags, rfl, rfl, regular, isTags, -⟩ := laid
  have alone := isTags.erase_append []
  rw [List.append_nil, erase_nil] at alone
  have neat : Neat tags := by
    have bare : Unmarked [] := unmarked_of_allBlank rfl
    have before := neat_append isTags (neat_of_unmarked bare)
    rwa [List.append_nil] at before
  have start : (tags ++ []).head? ≠ some ' ' := isTags.head?_ne (by simp)
  rw [List.append_nil] at start
  refine ⟨lines, tags, (unlines_append_singleton _ _).symm, ?_,
    regular.append (Regular.singleton_blank isTags.not_newline neat ?_ start)⟩
  · rw [List.map_append, List.map_singleton, alone, unlines_closed]
  · rw [isBlankLine, if_pos rfl, alone]
    rfl

/-- Erasing the markers of the marked region gives the plain one. -/
theorem erase_eq (laid : Laid indent marked plain) : erase marked = plain := by
  obtain ⟨front, last, rfl, rfl, -⟩ := laid.exists_lines
  exact erase_unlines _

/-- Trimming the tail of a region seals it. -/
theorem trimTail (laid : Laid indent marked plain) :
    Sealed indent (Layout.trimTail true marked ++ ['\n'])
      (Layout.trimTail false plain ++ ['\n']) := by
  obtain ⟨front, last, rfl, rfl, regular⟩ := laid.exists_lines
  exact sealed_trimTail (by simp) regular

end Laid

end Layout
end Galley
