import Galley.Proofs.Layout.Marking

/-!
# Bullets, rules and verbatim content

Regions that hang under a bullet, stand between rules or hold verbatim content are
sealed, and are built alike with and without markers.
-/

namespace Galley
namespace Layout

open Marker Text

variable {indent inner : Nat}

/-- Behind a first line that shows something any neat lines may stand. -/
theorem Regular.of_shown {line : List Char} {rest : List (List Char)} (whole : '\n' ∉ line)
    (neat : Neat line) (shown : isBlankLine true line = false) (margin : spaces indent <+: line)
    (wholeRest : ∀ other ∈ rest, '\n' ∉ other)
    (neatRest : ∀ other ∈ rest, isBlankLine true other = false → Neat other) :
    Regular indent (line :: rest) := by
  refine ⟨List.forall_mem_cons.mpr ⟨whole, wholeRest⟩,
    List.forall_mem_cons.mpr ⟨fun _ => neat, neatRest⟩, by simp [shown], ?_⟩
  simpa [shown] using margin

/-! ## Hanging under a bullet -/

theorem find?_not_eq (test : α → Bool) (items : List α) :
    items.find? (fun item => !test item) = (items.dropWhile test).head? := by
  induction items with
  | nil => rfl
  | cons item rest inductionHypothesis =>
      cases holds : test item with
      | true =>
          rw [List.find?_cons_of_neg (by simp [holds]), List.dropWhile_cons_of_pos holds,
            inductionHypothesis]
      | false =>
          rw [List.find?_cons_of_pos (by simp [holds]),
            List.dropWhile_cons_of_neg (by simp [holds]), List.head?_cons]

theorem erase_bullet {bullet : List Char} (unmarked : Unmarked bullet) (rest : List Char) :
    erase (spaces indent ++ bullet ++ ' ' :: rest) =
      spaces indent ++ bullet ++ ' ' :: erase rest := by
  have opens : Opens (' ' :: rest) := opens_of_blank (Or.inl (by decide)) rest
  rw [List.append_assoc, erase_spaces_append, erase_append _ opens, erase_of_unmarked unmarked,
    erase_cons (by decide), List.append_assoc]

/-- Some spaces of an indentation are taken away. -/
theorem drop_margin (rest : List Char) :
    (spaces inner ++ rest).drop (min ((spaces inner ++ rest).takeWhile (· == ' ')).length inner) =
      rest := by
  have blanks : ∀ character ∈ spaces inner, (character == ' ') = true := fun character present => by
    rw [List.eq_of_mem_replicate present]
    rfl
  have size : (spaces inner).length = inner := List.length_replicate
  rw [List.takeWhile_append_of_pos blanks, List.length_append, size, Nat.min_eq_right (by omega),
    List.drop_append_of_le_length (by omega)]
  simp [List.drop_of_length_le (Nat.le_of_eq size)]

theorem newline_not_mem_margin {bullet : List Char} (whole : '\n' ∉ bullet) :
    '\n' ∉ spaces indent ++ bullet := by
  rw [List.mem_append, not_or]
  exact ⟨newline_not_mem_spaces indent, whole⟩

/-- A bullet alone is a regular line. -/
theorem Regular.bullet {bullet : List Char} (unmarked : Unmarked bullet) (whole : '\n' ∉ bullet)
    (shown : allBlank bullet = false) : Regular indent [spaces indent ++ bullet] := by
  have bulletShown : isBlankLine true bullet = false := by
    rw [isBlankLine, if_pos rfl, erase_of_unmarked unmarked, shown]
  refine Regular.singleton (newline_not_mem_margin whole) ?_ ?_ (List.prefix_append _ _)
  · exact (neat_spaces_append_iff indent bulletShown).mpr (neat_of_unmarked unmarked)
  · rw [isBlankLine_spaces_append, bulletShown]

/-- A neat line that shows something is neat behind a bullet. -/
theorem Neat.hung {bullet behind : List Char} (neat : Neat behind) (unmarked : Unmarked bullet)
    (shown : isBlankLine true behind = false) :
    Neat (spaces indent ++ bullet ++ ' ' :: behind) := by
  have trim (text : List Char) (inked : allBlank text = false) :
      Text.trimEnd (spaces indent ++ bullet ++ ' ' :: text) =
        spaces indent ++ bullet ++ ' ' :: Text.trimEnd text := by
    have parts := trimEnd_append_of_shown (spaces indent ++ bullet ++ [' ']) inked
    simpa using parts
  have erasedShown : allBlank (erase behind) = false := shown
  rw [Neat, erase_bullet unmarked, trim _ (allBlank_of_shown shown), trim _ erasedShown,
    erase_bullet unmarked, neat]

/-- A line shows the bullet that it stands behind. -/
theorem shown_hung {bullet : List Char} (unmarked : Unmarked bullet)
    (shown : allBlank bullet = false) (behind : List Char) :
    isBlankLine true (spaces indent ++ bullet ++ ' ' :: behind) = false := by
  have none : bullet.all isBlank = false := shown
  rw [← isBlankLine_erase, erase_bullet unmarked, isBlankLine, if_neg (by simp), allBlank,
    List.all_append, List.all_append, none, Bool.and_false, Bool.false_and]

/-- Of a regular region whose blank lines are dropped at the front, the first line
stands behind the indentation, and the region is regular with a bullet in its place. -/
theorem Regular.hung {texts rest : List (List Char)} {first bullet : List Char}
    (regular : Regular inner texts)
    (dropped : texts.dropWhile (isBlankLine true) = first :: rest) (unmarked : Unmarked bullet)
    (whole : '\n' ∉ bullet) (shown : allBlank bullet = false) :
    ∃ behind, first = spaces inner ++ behind ∧
      Regular indent ((spaces indent ++ bullet ++ ' ' :: behind) :: rest) := by
  have suffix : first :: rest <:+ texts := dropped ▸ List.dropWhile_suffix _
  have shows : isBlankLine true first = false := by
    have stops := List.head?_dropWhile_not (isBlankLine true) texts
    rw [dropped] at stops
    simpa using stops
  have found : texts.find? (fun other => !isBlankLine true other) = some first := by
    rw [find?_not_eq, dropped, List.head?_cons]
  obtain ⟨behind, rfl⟩ := regular.margin first found
  have behindShows : isBlankLine true behind = false := by
    rw [← isBlankLine_spaces_append inner, shows]
  have neat : Neat behind := (neat_spaces_append_iff inner behindShows).mp
    (regular.neat _ (suffix.subset (by simp)) shows)
  have later : ∀ other ∈ rest, other ∈ texts := fun other present =>
    suffix.subset (List.mem_cons_of_mem _ present)
  refine ⟨behind, rfl, Regular.of_shown ?_ (neat.hung unmarked behindShows)
    (shown_hung unmarked shown behind) ?_
    (fun other present => regular.whole other (later other present))
    fun other present => regular.neat other (later other present)⟩
  · have behindWhole := regular.whole _ (suffix.subset (List.mem_cons_self ..))
    have bulletWhole : '\n' ∉ spaces indent ++ bullet := newline_not_mem_margin whole
    simp only [List.mem_append, List.mem_cons, not_or] at bulletWhole behindWhole ⊢
    exact ⟨bulletWhole, by decide, behindWhole.2⟩
  · rw [List.append_assoc]
    exact List.prefix_append _ _

/-- Hanging a region under a bullet and trimming its tail seals it. -/
theorem sealed_hang {marked plain bullet : List Char} (laid : Laid inner marked plain)
    (unmarked : Unmarked bullet) (whole : '\n' ∉ bullet) (shown : allBlank bullet = false) :
    Sealed indent (trimTail true (hang true bullet indent inner marked) ++ ['\n'])
      (trimTail false (hang false bullet indent inner plain) ++ ['\n']) := by
  obtain ⟨front, last, rfl, rfl, regular⟩ := laid.exists_lines
  have nonempty : front ++ [last] ≠ [] := by simp
  generalize front ++ [last] = texts at regular nonempty
  have markedLines : lines (unlines texts) = texts := lines_unlines nonempty regular.whole
  have plainLines : lines (unlines (texts.map erase)) = texts.map erase :=
    lines_unlines (by simpa using nonempty) (newline_not_mem_erased regular.whole)
  have commute : (isBlankLine false ∘ erase) = isBlankLine true := rfl
  rw [hang, hang, markedLines, plainLines, List.dropWhile_map, commute]
  cases dropped : texts.dropWhile (isBlankLine true) with
  | nil =>
      have alone : erase (spaces indent ++ bullet) = spaces indent ++ bullet := by
        rw [erase_spaces_append, erase_of_unmarked unmarked]
      have bare : Regular indent [spaces indent ++ bullet] := Regular.bullet unmarked whole shown
      have stands := sealed_trimTail (by simp) bare
      simpa [alone] using stands
  | cons first rest =>
      obtain ⟨behind, rfl, hung⟩ := regular.hung dropped unmarked whole shown
      have erased := erase_spaces_append inner behind
      rw [List.map_cons, erased]
      dsimp only
      rw [drop_margin, drop_margin, ← erase_bullet unmarked, ← List.map_cons]
      exact sealed_trimTail (by simp) hung

/-! ## Rules -/

theorem whole_rule (width indent : Nat) : '\n' ∉ rule width indent := by
  rw [rule, List.mem_append, not_or]
  exact ⟨newline_not_mem_spaces indent, fun present =>
    absurd (List.eq_of_mem_replicate present) (by decide)⟩

theorem unmarked_rule (width indent : Nat) : Unmarked (rule width indent) := by
  refine unmarked_of_not_mem fun present => ?_
  rcases List.mem_append.mp present with space | dash
  · exact absurd (List.eq_of_mem_replicate space) (by decide)
  · exact absurd (List.eq_of_mem_replicate dash) (by decide)

/-- A rule with dashes shows them up to its end. -/
theorem trimmed_rule {width : Nat} (positive : 0 < width) (indent : Nat) :
    Trimmed (rule width indent) ∧ isBlankLine true (rule width indent) = false := by
  obtain ⟨fewer, rfl⟩ := Nat.exists_eq_add_of_lt positive
  have ends : rule (0 + fewer + 1) indent =
      spaces indent ++ List.replicate fewer '-' ++ ['-'] := by
    rw [rule, Nat.zero_add, List.replicate_succ', List.append_assoc]
  constructor
  · rw [Trimmed, erase_of_unmarked (unmarked_rule _ _), ends, Text.trimEnd,
      dropEndWhile_append_singleton]
    simp [show isBlank '-' = false by decide]
  · rw [isBlankLine, if_pos rfl, erase_of_unmarked (unmarked_rule _ _), ends]
    simp [allBlank, show isBlank '-' = false by decide]

/-- Unmarked lines between rules are sealed. -/
theorem sealed_between {width : Nat} (positive : 0 < width) {marked : List (List Char)}
    (whole : ∀ line ∈ marked, '\n' ∉ line)
    (neat : ∀ line ∈ marked, isBlankLine true line = false → Neat line) :
    Sealed indent (close (rule width indent :: marked ++ [rule width indent]))
      (close (rule width indent :: marked.map erase ++ [rule width indent])) := by
  obtain ⟨trimmed, shown⟩ := trimmed_rule positive indent
  have erased : erase (rule width indent) = rule width indent :=
    erase_of_unmarked (unmarked_rule width indent)
  refine ⟨rule width indent :: marked, rule width indent, rfl, by simp [erased], ?_, trimmed⟩
  refine Regular.of_shown (whole_rule width indent) trimmed.neat shown
    (List.prefix_append _ _) ?_ ?_
  · intro line present
    rcases List.mem_append.mp present with inside | last
    · exact whole line inside
    · rw [List.mem_singleton.mp last]
      exact whole_rule width indent
  · intro line present shows
    rcases List.mem_append.mp present with inside | last
    · exact neat line inside shows
    · rw [List.mem_singleton.mp last]
      exact trimmed.neat

/-- A sealed region between rules is sealed. -/
theorem sealed_quote {width : Nat} (positive : 0 < width) {marked plain : List Char}
    (stands : Sealed inner (marked ++ ['\n']) (plain ++ ['\n'])) :
    Sealed indent
      (rule width indent ++ '\n' :: marked ++ '\n' :: rule width indent ++ ['\n'])
      (rule width indent ++ '\n' :: plain ++ '\n' :: rule width indent ++ ['\n']) := by
  obtain ⟨front, last, markedLines, plainLines, regular, -⟩ := stands
  have framed (text : List Char) (closed : List (List Char))
      (same : text ++ ['\n'] = close closed) :
      rule width indent ++ '\n' :: text ++ '\n' :: rule width indent ++ ['\n'] =
        close (rule width indent :: closed ++ [rule width indent]) := by
    rw [close_append, close_cons, close_singleton, ← same]
    simp
  rw [framed marked _ markedLines, framed plain _ plainLines]
  exact sealed_between positive regular.whole regular.neat

/-- A horizontal rule is sealed. -/
theorem sealed_horizontalRule (maxColumn indent : Nat) :
    Sealed indent (horizontalRule maxColumn indent) (horizontalRule maxColumn indent) := by
  have positive : 0 < max 1 (maxColumn - indent) := by omega
  obtain ⟨trimmed, shown⟩ := trimmed_rule positive indent
  have erased : erase (rule (max 1 (maxColumn - indent)) indent) =
      rule (max 1 (maxColumn - indent)) indent := erase_of_unmarked (unmarked_rule _ _)
  refine ⟨[], rule (max 1 (maxColumn - indent)) indent, ?_, ?_, ?_, trimmed⟩
  · rw [List.nil_append, close_singleton]
    rfl
  · rw [List.nil_append, List.map_singleton, erased, close_singleton]
    rfl
  · exact Regular.singleton (whole_rule _ _) trimmed.neat shown (List.prefix_append _ _)

/-! ## Verbatim content -/

theorem boundedLines_nonempty (content : List Char) : ∀ line ∈ boundedLines content, line ≠ [] := by
  induction content with
  | nil => simp [boundedLines]
  | cons character rest inductionHypothesis =>
      rw [boundedLines]
      split
      · exact List.forall_mem_cons.mpr ⟨by simp, inductionHypothesis⟩
      · split
        · simp
        · rename_i found
          rw [found] at inductionHypothesis
          exact List.forall_mem_cons.mpr ⟨by simp, (List.forall_mem_cons.mp inductionHypothesis).2⟩

/-- Indenting verbatim content makes no marker and keeps the newline at its end. -/
theorem indentVerbatim_closed {content : List Char} (unmarked : Unmarked content)
    (closed : ∃ front, content = front ++ ['\n']) (indent : Nat) :
    Unmarked (indentVerbatim indent content) ∧
      ∃ front, indentVerbatim indent content = front ++ ['\n'] := by
  by_cases unindented : indent = 0
  · rw [indentVerbatim, if_pos unindented]
    exact ⟨unmarked, closed⟩
  · rw [indentVerbatim, if_neg unindented]
    have nonempty := boundedLines_nonempty content
    have whole := flatten_boundedLines content
    generalize boundedLines content = pieces at nonempty whole
    subst whole
    have chunk (line : List Char) (some : line ≠ []) (clear : Unmarked line) :
        Unmarked (if allBlank line then line else spaces indent ++ line) ∧
          ∀ more, Opens ((if allBlank line then line else spaces indent ++ line) ++ more) := by
      obtain ⟨first, others, rfl⟩ := List.exists_cons_of_ne_nil some
      obtain ⟨fewer, rfl⟩ := Nat.exists_eq_succ_of_ne_zero unindented
      split
      · rename_i blank
        have begins : isBlank first = true := List.all_eq_true.mp blank first (by simp)
        exact ⟨clear, fun more => opens_of_blank (Or.inl begins) _⟩
      · exact ⟨clear.blank_append (allBlank_spaces _),
          fun more => opens_of_blank (Or.inl (by decide)) _⟩
    have each : ∀ line ∈ pieces, Unmarked line := fun line present =>
      unmarked.part (List.infix_of_mem_flatten present)
    constructor
    · clear unmarked closed
      induction pieces with
      | nil => exact unmarked_of_not_mem (by simp)
      | cons line rest inductionHypothesis =>
          obtain ⟨some, others⟩ := List.forall_mem_cons.mp nonempty
          obtain ⟨clear, clearRest⟩ := List.forall_mem_cons.mp each
          rw [List.flatMap_cons]
          refine (chunk line some clear).1.append (inductionHypothesis others clearRest) ?_
          cases rest with
          | nil => exact opens_nil
          | cons next more =>
              rw [List.flatMap_cons]
              exact (chunk next (others next (by simp)) (clearRest next (by simp))).2 _
    · obtain ⟨front, ended⟩ := closed
      rcases List.eq_nil_or_concat' pieces with rfl | ⟨init, last, rfl⟩
      · cases front <;> cases ended
      · have some := nonempty last (by simp)
        obtain ⟨start, final, rfl⟩ := (List.eq_nil_or_concat' last).resolve_left some
        rw [List.flatten_append, List.flatten_singleton, ← List.append_assoc] at ended
        obtain ⟨-, newline⟩ := List.append_inj' ended rfl
        rw [List.flatMap_append, List.flatMap_singleton, newline]
        split
        · exact ⟨_, (List.append_assoc _ _ _).symm⟩
        · exact ⟨_, by rw [← List.append_assoc, ← List.append_assoc]⟩

/-- The lines of a text are closed by a newline behind it. -/
theorem close_lines (text : List Char) : close (lines text) = text ++ ['\n'] := by
  obtain ⟨front, last, parts⟩ := (List.eq_nil_or_concat' (lines text)).resolve_left
    (lines_ne_nil text)
  rw [parts, ← unlines_append_newline, ← parts, unlines_lines]

/-- Unmarked content stands line by line between its rules. -/
theorem exists_verbatim (width : Nat) {content : List Char} (unmarked : Unmarked content)
    (indent : Nat) : ∃ texts, verbatim width indent content =
        close (rule width indent :: texts ++ [rule width indent]) ∧
      ∀ line ∈ texts, '\n' ∉ line ∧ Unmarked line := by
  have closed : Unmarked (closeLine content) ∧ ∃ front, closeLine content = front ++ ['\n'] := by
    unfold closeLine
    split
    · rename_i ended
      exact ⟨unmarked, content.dropLast, (List.dropLast_append_getLast? _ ended).symm⟩
    · exact ⟨unmarked.append (unmarked_of_not_mem (by simp)) (opens_newline []), content, rfl⟩
  obtain ⟨clear, front, laid⟩ := indentVerbatim_closed closed.1 closed.2 indent
  refine ⟨lines front, ?_, fun line present => ⟨not_mem_of_mem_lines present, clear.part
    ((infix_of_mem_lines present).trans (laid ▸ (List.prefix_append _ _).isInfix))⟩⟩
  rw [verbatim, laid, close_append, close_cons, close_singleton, close_lines]
  simp

/-- Verbatim content between its rules is sealed. -/
theorem sealed_verbatim {width : Nat} (positive : 0 < width) {content : List Char}
    (unmarked : Unmarked content) (indent : Nat) :
    Sealed indent (verbatim width indent content) (verbatim width indent content) := by
  obtain ⟨texts, framed, each⟩ := exists_verbatim width unmarked indent
  have erased : texts.map erase = texts :=
    List.map_congr_left (fun line present => erase_of_unmarked (each line present).2) |>.trans
      (List.map_id _)
  have stands : Sealed indent _ _ := sealed_between positive
      (fun line present => (each line present).1)
    fun line present _ => neat_of_unmarked (each line present).2
  rwa [erased, ← framed] at stands

/-- Raw content with nothing to trim is sealed, without a margin. -/
theorem sealed_raw {content : List Char} (unmarked : Unmarked content)
    (kept : Text.trimEnd content = content)
    (head : ∀ line ∈ (lines content).head?, line = [] ∨ allBlank line = false) :
    Sealed 0 (content ++ ['\n']) (content ++ ['\n']) := by
  have clear : ∀ line ∈ lines content, Unmarked line := fun line present =>
    unmarked.part (infix_of_mem_lines present)
  have erased : (lines content).map erase = lines content :=
    List.map_congr_left (fun line present => erase_of_unmarked (clear line present)) |>.trans
      (List.map_id _)
  obtain ⟨front, last, parts⟩ := (List.eq_nil_or_concat' (lines content)).resolve_left
    (lines_ne_nil content)
  have closed : content ++ ['\n'] = close (lines content) := (close_lines content).symm
  have lastKept : Text.trimEnd last = last := by
    rw [← unlines_lines content, parts, unlines_append_singleton] at kept
    exact trimEnd_of_append kept
  have lastClear := clear last (by rw [parts]; simp)
  refine ⟨front, last, ?_, ?_, ⟨?_, ?_, ?_, fun line _ => List.nil_prefix⟩, ?_⟩
  · rw [closed, parts]
  · rw [← parts, erased, closed]
  · rw [← parts]
    exact fun line => not_mem_of_mem_lines
  · rw [← parts]
    exact fun line present _ => neat_of_unmarked (clear line present)
  · rw [← parts]
    intro line first blank
    have lineClear := clear line (List.mem_of_mem_head? first)
    rw [isBlankLine, if_pos rfl, erase_of_unmarked lineClear] at blank
    rcases head line first with rfl | shown
    · exact ⟨neat_of_unmarked lineClear, by simp⟩
    · rw [shown] at blank
      cases blank
  · rw [Trimmed, erase_of_unmarked lastClear, lastKept]

end Layout
end Galley
