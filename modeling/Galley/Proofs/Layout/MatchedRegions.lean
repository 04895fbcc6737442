import Galley.Proofs.Layout.MatchedTags
import Galley.Proofs.Layout.Rows

/-!
# Regions with matched tags

Regions of matched lines are put one behind the other.  Trimming the tail of such a
region, hanging it under a bullet and framing it by rules gives a block with matched
tags, and so do code, raw content and the cells of a row.
-/

namespace Galley
namespace Layout

open Marker Text

/-! ## Regions one behind the other -/

/-- Closed lines show something if one of them does. -/
theorem isBlankLine_close_append (texts : List (List Char)) (rest : List Char) :
    isBlankLine true (close texts ++ rest) =
      (!(Start.ofLines texts).shows && isBlankLine true rest) := by
  induction texts with
  | nil => rfl
  | cons line others inductionHypothesis =>
      have newline := (Akin.blank_append (show allBlank ['\n'] = true by decide)
        (close others ++ rest)).blank_eq
      rw [List.singleton_append] at newline
      rw [close_cons, List.append_assoc, List.cons_append,
        isBlankLine_append line (opens_newline _),
        newline, inductionHypothesis, Start.ofLines_cons, Start.shows_append, Start.shows_ofLine,
        Bool.not_or, Bool.not_not, Bool.and_assoc]

theorem MatchedSealed.blank_eq {start : Start} {text : List Char}
    (stands : MatchedSealed start text) :
    isBlankLine true text = !start.shows := by
  obtain ⟨texts, rfl, -, -, -, rfl⟩ := stands
  have closed := isBlankLine_close_append texts []
  rwa [List.append_nil, isBlankLine_of_allBlank true (show allBlank [] = true from rfl),
    Bool.and_true] at closed

namespace MatchedLaid

variable {start : Start} {leads weaker : Prop} {text other : List Char}

theorem mono (laid : MatchedLaid start leads text) (less : weaker → leads) :
    MatchedLaid start weaker text := by
  obtain ⟨texts, tags, rfl, lines, isTags, matched, starts, early⟩ := laid
  exact ⟨texts, tags, rfl, lines, isTags, matched, starts, early ∘ less⟩

/-- Tags wait for the next region. -/
theorem of_tags (isTags : Tags text) (matched : Matched (all text)) :
    MatchedLaid .none leads text :=
  ⟨[], text, rfl, MatchedLines.nil, isTags, matched, rfl, fun _ => leads_nil⟩

theorem nil : MatchedLaid .none leads [] :=
  of_tags Tags.nil Matched.nil

theorem matched (laid : MatchedLaid start leads text) : Matched (all text) := by
  obtain ⟨texts, tags, rfl, lines, -, matched, -⟩ := laid
  rw [all_close_append]
  exact lines.matched.append matched

theorem blank_eq (laid : MatchedLaid start leads text) : isBlankLine true text = !start.shows := by
  obtain ⟨texts, tags, rfl, -, isTags, -, rfl, -⟩ := laid
  have bare := isBlankLine_of_erase_eq (isTags.erase_append [])
  rw [List.append_nil] at bare
  rw [isBlankLine_close_append, bare, isBlankLine_of_allBlank true
    (show allBlank [] = true from rfl),
    Bool.and_true]

/-- Regions may be put one behind the other; waiting tags go before the first line of
the next.  Once a region shows something, it does not matter how the next one starts. -/
theorem append {start' : Start} {leads' : Prop} (left : MatchedLaid start leads text)
    (right : MatchedLaid start' leads' other) :
    MatchedLaid (start.append start') (leads ∧ (start.shows = true ∨ leads')) (text ++ other) := by
  obtain ⟨texts, tags, rfl, lines, isTags, matched, rfl, early⟩ := left
  obtain ⟨texts', tags', rfl, lines', isTags', matched', rfl, early'⟩ := right
  cases texts' with
  | nil =>
      refine ⟨texts, tags ++ tags', by simp, lines, isTags.append isTags', ?_, by simp,
        fun asked => early asked.1⟩
      rw [isTags.all_append]
      exact matched.append matched'
  | cons line rest =>
      have same : Start.ofLines ((tags ++ line) :: rest) = Start.ofLines (line :: rest) :=
        Start.ofLines_congr (by simp [isBlankLine_of_erase_eq (isTags.erase_append line)])
      refine ⟨texts ++ (tags ++ line) :: rest, tags', by simp [close_cons],
        lines.append (lines'.prepend isTags matched), isTags', matched', ?_, fun asked => ?_⟩
      · rw [Start.ofLines_append, same]
      · exact (early asked.1).append lines.matched
          (asked.2.imp_right fun behind => (early' behind).prepend isTags matched)

/-- The lines of a region, the last of which holds the waiting tags. -/
theorem exists_lines (laid : MatchedLaid start leads text) :
    ∃ texts, text = unlines texts ∧ texts ≠ [] ∧ MatchedLines texts ∧
      Start.ofLines texts = start.append .blank ∧ (leads → Leads texts) := by
  obtain ⟨texts, tags, rfl, lines, isTags, matched, rfl, early⟩ := laid
  have blank : Start.ofLines [tags] = .blank := by
    have bare := isBlankLine_of_erase_eq (isTags.erase_append [])
    rw [List.append_nil] at bare
    rw [Start.ofLines_singleton, Start.ofLine, bare]
    rfl
  refine ⟨texts ++ [tags], (unlines_append_singleton texts tags).symm, by simp,
    lines.append (MatchedLines.singleton isTags.not_newline matched), ?_, fun asked => ?_⟩
  · rw [Start.ofLines_append, blank]
  · exact (early asked).append lines.matched (Or.inr (leads_singleton matched))

end MatchedLaid

/-! ## Trimming and hanging -/

/-- Trimming the tail of matched lines drops blank lines with matched markers. -/
theorem MatchedLines.trimTail {texts : List (List Char)} (lines : MatchedLines texts)
    (some : texts ≠ []) :
    MatchedSealed (Start.ofLines texts) (Layout.trimTail true (unlines texts) ++ ['\n']) := by
  rcases all_or_exists_last (isBlankLine true) texts with
    blank | ⟨front, line, back, rfl, shown, blank⟩
  · -- Of lines that show nothing the first is left.
    obtain ⟨first, rest, rfl⟩ := List.exists_cons_of_ne_nil some
    obtain ⟨here, others⟩ := List.forall_mem_cons.mp blank
    have later := lines.tail rest (List.suffix_cons first rest) others
    have starts : Start.ofLines (first :: rest) = Start.ofLine (Text.trimEnd first) := by
      rw [Start.ofLines_cons, Start.ofLine, Start.ofLine, isBlankLine_trimEnd, here]
      exact Start.append_of_not_shows (Start.shows_eq_false_iff.mpr others) (by simp)
    rw [trimTail_of_blank lines.whole blank, starts]
    refine MatchedSealed.singleton (not_mem_trimEnd (lines.whole first (by simp))) ?_
    rw [(Akin.trimEnd first).all_eq]
    exact lines.matched.of_append_right later
  · have behind : Matched (back.flatMap all) := lines.tail back ⟨front ++ [line], by simp⟩ blank
    have trimmedShown : isBlankLine true (Text.trimEnd line) = false := by
      rw [isBlankLine_trimEnd, shown]
    rw [trimTail_of_shown lines.whole shown blank, unlines_append_newline]
    refine ⟨_, rfl, whole_cut lines.whole, ?_, Or.inl ⟨front, _, rfl, trimmedShown⟩, ?_⟩
    · have whole := lines.matched
      rw [List.flatMap_append, List.flatMap_cons, ← List.append_assoc] at whole
      rw [List.flatMap_append, List.flatMap_singleton, (Akin.trimEnd line).all_eq]
      exact whole.of_append_right behind
    · rw [Start.ofLines_append, Start.ofLines_append, Start.ofLines_singleton, Start.ofLines_cons,
        Start.ofLine, Start.ofLine, trimmedShown, shown]
      rfl

theorem MatchedLaid.trimTail {start : Start} {leads : Prop} {text : List Char}
    (laid : MatchedLaid start leads text) :
    MatchedSealed (start.append .blank) (Layout.trimTail true text ++ ['\n']) := by
  obtain ⟨texts, rfl, some, lines, starts, -⟩ := laid.exists_lines
  rw [← starts]
  exact lines.trimTail some

/-- Where the lines at the start that show nothing have matched markers, they may be
dropped. -/
theorem MatchedLines.dropBlankStart {texts : List (List Char)} (lines : MatchedLines texts)
    (leads : Leads texts) : MatchedLines (texts.dropWhile (isBlankLine true)) := by
  have parts : texts.takeWhile (isBlankLine true) ++ texts.dropWhile (isBlankLine true) = texts :=
    List.takeWhile_append_dropWhile
  have dropped : Matched ((texts.takeWhile (isBlankLine true)).flatMap all) :=
    leads _ (List.takeWhile_prefix _) fun line present => List.mem_takeWhile_imp present
  have ends : texts.dropWhile (isBlankLine true) <:+ texts := List.dropWhile_suffix _
  refine ⟨fun line present => lines.whole line (ends.subset present), ?_,
    fun back inside => lines.tail back (inside.trans ends)⟩
  have whole := lines.matched
  rw [← parts, List.flatMap_append] at whole
  exact whole.of_append_left dropped

section Hanging

variable {bullet : List Char} (unmarked : Unmarked bullet) (whole : '\n' ∉ bullet)
  (shown : allBlank bullet = false)

include unmarked in
/-- Behind a bullet a line keeps its markers. -/
theorem all_hung (indent : Nat) (rest : List Char) :
    all (spaces indent ++ bullet ++ ' ' :: rest) = all rest := by
  have space := (Akin.blank_append (show allBlank [' '] = true from rfl) rest).all_eq
  rw [List.append_assoc, (Akin.blank_append (allBlank_spaces indent) _).all_eq,
    all_append bullet (opens_of_blank (Or.inl (by decide)) rest), all_of_unmarked unmarked,
    List.nil_append]
  exact space

include unmarked whole shown

/-- Where nothing is left to hang, the bullet stands alone. -/
theorem matchedSealed_bullet (indent : Nat) :
    MatchedSealed .shown (Layout.trimTail true (spaces indent ++ bullet) ++ ['\n']) := by
  have line : '\n' ∉ spaces indent ++ bullet := newline_not_mem_margin whole
  have margin := Akin.blank_append (allBlank_spaces indent) bullet
  have bare : Matched (all (spaces indent ++ bullet)) := by
    rw [margin.all_eq, all_of_unmarked unmarked]
    exact Matched.nil
  have alone := (MatchedLines.singleton line bare).trimTail (List.cons_ne_nil _ _)
  rw [unlines_singleton, Start.ofLines_singleton, Start.ofLine, margin.blank_eq, isBlankLine,
    if_pos rfl, erase_of_unmarked unmarked, shown] at alone
  exact alone

/-- The bullet takes the place of the indentation of the first line. -/
theorem MatchedLines.hang {first : List Char} {rest : List (List Char)}
    (lines : MatchedLines (first :: rest)) (indent inner : Nat) :
    MatchedSealed .shown
      (Layout.trimTail true (unlines ((spaces indent ++ bullet ++
        ' ' :: first.drop (min (first.takeWhile (· == ' ')).length inner)) :: rest)) ++
          ['\n']) := by
  obtain ⟨count, behind, rfl, -, taken, -⟩ := exists_margin first
  have size : (spaces count).length = count := List.length_replicate
  have cut : (spaces count ++ behind).drop (min count inner) =
      spaces (count - min count inner) ++ behind := by
    rw [List.drop_append_of_le_length (by omega), spaces, List.drop_replicate, spaces]
  have hungShown : isBlankLine true
      (spaces indent ++ bullet ++ ' ' :: (spaces (count - min count inner) ++ behind)) = false :=
    shown_hung unmarked shown _
  have heads : Heads
      ((spaces indent ++ bullet ++ ' ' :: (spaces (count - min count inner) ++ behind)) :: rest) :=
    ⟨_, rest, rfl, hungShown⟩
  rw [taken, size, cut, ← Start.ofLines_eq_shown_iff.mpr heads]
  refine (lines.replace_head ?_ ?_ hungShown).trimTail (by simp)
  · have firstWhole := lines.whole _ (List.mem_cons_self ..)
    simp only [List.mem_append, List.mem_cons, not_or] at firstWhole ⊢
    exact ⟨⟨newline_not_mem_spaces _, whole⟩, by decide, newline_not_mem_spaces _, firstWhole.2⟩
  · rw [all_hung unmarked, (Akin.blank_append (allBlank_spaces _) behind).all_eq,
      (Akin.blank_append (allBlank_spaces _) behind).all_eq]

/-- A region hangs under a bullet without the lines at its start that show nothing, the
markers of which are matched. -/
theorem MatchedLaid.hang {start : Start} {body : List Char} (laid : MatchedLaid start True body)
    (indent inner : Nat) :
    MatchedSealed .shown
      (Layout.trimTail true (Layout.hang true bullet indent inner body) ++ ['\n']) := by
  obtain ⟨texts, rfl, some, lines, -, early⟩ := laid.exists_lines
  have kept := lines.dropBlankStart (early trivial)
  rw [Layout.hang, lines_unlines some lines.whole]
  cases found : texts.dropWhile (isBlankLine true) with
  | nil => exact matchedSealed_bullet unmarked whole shown indent
  | cons first rest =>
      rw [found] at kept
      exact kept.hang unmarked whole shown indent inner

end Hanging

/-! ## Rules and verbatim content -/

/-- Matched lines between rules. -/
theorem matchedSealed_between {width : Nat} (positive : 0 < width) (indent : Nat)
    {texts : List (List Char)} (whole : ∀ line ∈ texts, '\n' ∉ line)
    (matched : Matched (texts.flatMap all)) :
    MatchedSealed .shown (close (rule width indent :: texts ++ [rule width indent])) := by
  have shown := (trimmed_rule positive indent).2
  have ruleWhole := List.forall_mem_singleton.mpr (whole_rule width indent)
  have bare : all (rule width indent) = [] := all_of_unmarked (unmarked_rule width indent)
  refine ⟨_, rfl, ?_, by simpa [bare] using matched, Or.inl ⟨_, _, rfl, shown⟩,
    Start.ofLines_eq_shown_iff.mpr ⟨_, _, rfl, shown⟩⟩
  exact List.forall_mem_cons.mpr ⟨whole_rule width indent,
    List.forall_mem_append.mpr ⟨whole, fun line present => by
      rw [List.mem_singleton.mp present]
      exact whole_rule width indent⟩⟩

/-- A block between rules. -/
theorem MatchedSealed.quote {start : Start} {width : Nat} (positive : 0 < width) {inner : List Char}
    (stands : MatchedSealed start (inner ++ ['\n'])) (indent : Nat) :
    MatchedSealed .shown
      (rule width indent ++ '\n' :: inner ++ '\n' :: rule width indent ++ ['\n']) := by
  obtain ⟨texts, same, whole, matched, -⟩ := stands
  have framed : rule width indent ++ '\n' :: inner ++ '\n' :: rule width indent ++ ['\n'] =
      close (rule width indent :: texts ++ [rule width indent]) := by
    rw [close_append, close_cons, close_singleton, ← same]
    simp
  rw [framed]
  exact matchedSealed_between positive indent whole matched

theorem matchedSealed_verbatim {width : Nat} (positive : 0 < width) {content : List Char}
    (unmarked : Unmarked content) (indent : Nat) :
    MatchedSealed .shown (verbatim width indent content) := by
  obtain ⟨texts, framed, each⟩ := exists_verbatim width unmarked indent
  rw [framed]
  refine matchedSealed_between positive indent (fun line present => (each line present).1) ?_
  have bare : texts.flatMap all = [] := List.flatMap_eq_nil_iff.mpr fun line present =>
    all_of_unmarked (each line present).2
  rw [bare]
  exact Matched.nil

theorem matchedSealed_horizontalRule (maxColumn indent : Nat) :
    MatchedSealed .shown (horizontalRule maxColumn indent) := by
  have positive : 0 < max 1 (maxColumn - indent) := by omega
  have bare : Matched (all (rule (max 1 (maxColumn - indent)) indent)) := by
    rw [all_of_unmarked (unmarked_rule _ _)]
    exact Matched.nil
  have alone := MatchedSealed.singleton (whole_rule (max 1 (maxColumn - indent)) indent) bare
  rw [Start.ofLine, (trimmed_rule positive indent).2] at alone
  exact alone

/-- Raw content is closed by a newline. -/
theorem matchedSealed_raw {content : List Char} (unmarked : Unmarked content)
    (lasts : Lasts (lines content) ∨ (lines content).length = 1) :
    MatchedSealed (Start.ofLines (lines content)) (content ++ ['\n']) := by
  refine ⟨lines content, (close_lines content).symm, fun _ => not_mem_of_mem_lines, ?_, lasts, rfl⟩
  have bare := all_unlines (lines content)
  rw [unlines_lines, all_of_unmarked unmarked] at bare
  rw [← bare]
  exact Matched.nil

/-! ## Rows -/

/-- A cell of a row: a line with matched markers between tags. -/
structure MatchedCell (text : List Char) : Prop where
  /-- Tags stand around the cell. -/
  bracketed : Bracketed text
  /-- The markers are matched. -/
  matched : Matched (all text)
  /-- The cell is a line. -/
  whole : '\n' ∉ text

section Row

variable {separator : List Char} (unmarked : Unmarked separator) {cells : List (List Char)}
  (each : ∀ cell ∈ cells, MatchedCell cell)

include unmarked each

/-- Of cells with separators between them the markers are those of the cells, and
something is shown by a cell or by a separator. -/
theorem intercalate_cells : all (separator.intercalate cells) = cells.flatMap all ∧
    isBlankLine true (separator.intercalate cells) =
      (cells.all (isBlankLine true) && (decide (cells.length ≤ 1) || allBlank separator)) := by
  have separates : isBlankLine true separator = allBlank separator := by
    rw [isBlankLine, if_pos rfl, erase_of_unmarked unmarked]
  induction cells with
  | nil => exact ⟨rfl, rfl⟩
  | cons cell rest inductionHypothesis =>
      obtain ⟨here, others⟩ := List.forall_mem_cons.mp each
      obtain ⟨spread, shows⟩ := inductionHypothesis others
      cases rest with
      | nil => simp
      | cons next more =>
          have opens : Opens (separator.intercalate (next :: more)) :=
            opens_intercalate separator fun other present => (others other present).bracketed
          have parts : separator.intercalate (cell :: next :: more) =
              cell ++ (separator ++ separator.intercalate (next :: more)) := by
            rw [List.intercalate_cons_cons, List.append_assoc]
          rw [parts]
          constructor
          · rw [here.bracketed.all_append, Marker.all_append separator opens,
              all_of_unmarked unmarked, spread, List.nil_append, ← List.flatMap_cons]
          · rw [here.bracketed.isBlankLine_append, isBlankLine_append separator opens,
              shows, separates]
            cases allBlank separator <;> simp

/-- A row is one line with matched markers. -/
theorem matchedSealed_row (whole : '\n' ∉ separator) (indent : Nat) :
    MatchedSealed
      (if cells.all (isBlankLine true) &&
          (decide (cells.length ≤ 1) || allBlank separator) then .blank
        else .shown)
      (rowLine separator indent cells) := by
  obtain ⟨spread, shows⟩ := intercalate_cells unmarked each
  have trimmed := Akin.trimEnd (spaces indent ++ separator.intercalate cells)
  have akin := trimmed.trans (Akin.blank_append (allBlank_spaces indent) _)
  have line : '\n' ∉ separator.intercalate cells :=
    not_mem_intercalate whole fun cell present => (each cell present).whole
  rw [← shows, ← akin.blank_eq]
  refine MatchedSealed.singleton (not_mem_trimEnd ?_) ?_
  · rw [List.mem_append, not_or]
    exact ⟨newline_not_mem_spaces indent, line⟩
  · rw [akin.all_eq, spread]
    exact Matched.flatMap fun cell present => (each cell present).matched

end Row

end Layout
end Galley
