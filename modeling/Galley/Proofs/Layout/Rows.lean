import Galley.Proofs.Layout.Akin

/-!
# Rows with tags

A cell is put on one line.  Where all its lines begin and end with characters that are
not blank, these are its lines with single spaces between them, with tags and without.
A cell begins and ends with its tags, so nothing is read together with a separator, and
a row is erased cell by cell.
-/

namespace Galley
namespace Layout

open Marker Text

/-! ## Cells on one line -/

/-- A line begins and ends with characters that are not blank. -/
structure Tight (line : List Char) : Prop where
  /-- The line is not empty. -/
  nonempty : line ≠ []
  /-- Nothing is trimmed at the start. -/
  starts : ∀ first ∈ line.head?, isBlank first = false
  /-- Nothing is trimmed at the end. -/
  ends : ∀ last ∈ line.getLast?, isBlank last = false

instance : DecidablePred Tight := fun line =>
  decidable_of_iff (line ≠ [] ∧ line.head?.all (!isBlank ·) ∧ line.getLast?.all (!isBlank ·))
    ⟨fun ⟨nonempty, starts, ends⟩ =>
        { nonempty
          starts := by simpa [Option.all_eq_true] using starts
          ends := by simpa [Option.all_eq_true] using ends },
      fun ⟨nonempty, starts, ends⟩ =>
        ⟨nonempty, by simpa [Option.all_eq_true] using starts,
          by simpa [Option.all_eq_true] using ends⟩⟩

namespace Tight

variable {line : List Char}

theorem shown (tight : Tight line) : allBlank line = false := by
  obtain ⟨first, rest, rfl⟩ := List.exists_cons_of_ne_nil tight.nonempty
  have start := tight.starts first rfl
  simp [allBlank, start]

theorem trimEnd_eq (tight : Tight line) : Text.trimEnd line = line :=
  trimEnd_eq_iff.mpr tight.ends

/-- Tags leave a neat line tight. -/
theorem of_erase (neat : Neat line) (tight : Tight (erase line)) : Tight line := by
  have trimmed : Trimmed line := tight.trimEnd_eq
  refine ⟨?_, fun first found => ?_, trimEnd_eq_iff.mp trimmed.trimEnd_eq⟩
  · rintro rfl
    exact tight.nonempty rfl
  · obtain ⟨rest, rfl⟩ := List.head?_eq_some_iff.mp found
    cases blank : isBlank first with
    | false => rfl
    | true =>
        have apart : first ≠ '<' := by
          rintro rfl
          exact absurd blank (by decide)
        rw [← blank]
        refine tight.starts first ?_
        rw [erase_cons apart]
        rfl

end Tight

/-- A text is collapsed part by part, where blanks and other characters meet. -/
theorem collapseBreaks_append {front back : List Char}
    (apart : ∀ last ∈ front.getLast?, ∀ first ∈ back.head?,
        (isBlank last == isBlank first) = false) :
    collapseBreaks (front ++ back) = collapseBreaks front ++ collapseBreaks back := by
  rw [collapseBreaks, List.splitBy_append apart, List.flatMap_append]
  rfl

/-- Only runs with a newline are collapsed. -/
theorem collapseBreaks_of_not_mem {text : List Char} (whole : '\n' ∉ text) :
    collapseBreaks text = text := by
  have kept : ∀ run ∈ text.splitBy fun left right => isBlank left == isBlank right,
      (if run.contains '\n' then [' '] else run) = run := by
    refine fun run present => if_neg fun newline => whole ?_
    rw [← List.flatten_splitBy (fun left right => isBlank left == isBlank right) text]
    exact List.mem_flatten.mpr ⟨run, present, by simpa using newline⟩
  rw [collapseBreaks, List.flatMap_congr kept, List.flatMap_id', List.flatten_splitBy]

section Lines

variable {texts : List (List Char)} (tight : ∀ line ∈ texts, Tight line)

include tight

theorem exists_unlines_cons (nonempty : texts ≠ []) :
    ∃ first rest, unlines texts = first :: rest ∧ isBlank first = false := by
  obtain ⟨line, more, rfl⟩ := List.exists_cons_of_ne_nil nonempty
  have here := tight line (by simp)
  obtain ⟨first, others, rfl⟩ := List.exists_cons_of_ne_nil here.nonempty
  have starts : isBlank first = false := here.starts first rfl
  cases more with
  | nil => exact ⟨first, others, by simp, starts⟩
  | cons next rest => exact ⟨first, _, unlines_cons (by simp), starts⟩

/-- Lines are collapsed to one, with a space for each newline. -/
theorem collapseBreaks_unlines (whole : ∀ line ∈ texts, '\n' ∉ line) :
    collapseBreaks (unlines texts) = unwords texts := by
  induction texts with
  | nil => rfl
  | cons line rest inductionHypothesis =>
      obtain ⟨first, others⟩ := List.forall_mem_cons.mp tight
      obtain ⟨wholeLine, wholeRest⟩ := List.forall_mem_cons.mp whole
      cases rest with
      | nil => simpa [unwords] using collapseBreaks_of_not_mem wholeLine
      | cons next more =>
          have newline : collapseBreaks ['\n'] = [' '] := by decide
          obtain ⟨start, behind, below, shown⟩ := exists_unlines_cons others (by simp)
          have broken : ∀ character ∈ (unlines (next :: more)).head?,
              (isBlank '\n' == isBlank character) = false := by
            rw [below]
            simpa [shown] using (by decide : isBlank '\n' = true)
          rw [unlines_cons (by simp), unwords_cons_cons, ← List.singleton_append,
            collapseBreaks_append fun last found _ start => ?_,
            collapseBreaks_append (by simpa using broken), collapseBreaks_of_not_mem wholeLine,
            newline, inductionHypothesis others wholeRest]
          · rfl
          · obtain rfl : '\n' = _ := by simpa using start
            rw [first.ends last found]
            rfl

/-- The content of a cell is its lines on one line. -/
theorem cellContent_close (whole : ∀ line ∈ texts, '\n' ∉ line) :
    cellContent (close texts) = unwords texts := by
  have trimmed : trim (close texts) = unlines texts := by
    rcases List.eq_nil_or_concat texts with rfl | ⟨front, last, rfl⟩
    · rfl
    · rw [List.concat_eq_append] at tight ⊢
      have final := tight last (by simp)
      obtain ⟨first, rest, found, shown⟩ := exists_unlines_cons tight (by simp)
      have started : trimStart (unlines (front ++ [last]) ++ ['\n']) =
          unlines (front ++ [last]) ++ ['\n'] := by
        rw [found]
        exact List.dropWhile_cons_of_neg (by simp [shown])
      rw [← unlines_append_newline, trim, started, trimEnd_append_of_blank _ (by rfl),
        unlines_append_singleton, trimEnd_append_of_shown _ final.shown, final.trimEnd_eq]
  rw [cellContent, trimmed, collapseBreaks_unlines tight whole]

end Lines

/-- Words are erased one by one. -/
theorem erase_unwords (texts : List (List Char)) :
    erase (unwords texts) = unwords (texts.map erase) := by
  induction texts with
  | nil => rfl
  | cons text rest inductionHypothesis =>
      cases rest with
      | nil => simp [unwords]
      | cons next others =>
          have space : Opens (' ' :: unwords (next :: others)) := opens_of_blank (Or.inl rfl) _
          rw [unwords_cons_cons, erase_append text space, erase_cons (by decide),
            inductionHypothesis]
          exact (unwords_cons_cons ..).symm

/-- A sealed cell with tight lines has the same content with tags and without. -/
theorem erase_cellContent {indent : Nat} {marked plain : List Char}
    (pair : Sealed indent marked plain) (tight : ∀ line ∈ (lines plain).dropLast, Tight line) :
    erase (cellContent marked) = cellContent plain := by
  obtain ⟨front, last, rfl, rfl, regular, -⟩ := pair
  generalize front ++ [last] = texts at regular tight
  have erasedWhole := newline_not_mem_erased regular.whole
  have read : (lines (close (texts.map erase))).dropLast = texts.map erase := by
    rw [← unlines_closed, lines_unlines (by simp) ?_, List.dropLast_concat]
    exact List.forall_mem_append.mpr ⟨erasedWhole, by simp⟩
  rw [read] at tight
  have markedTight : ∀ line ∈ texts, Tight line := by
    intro line present
    have plainTight := tight (erase line) (List.mem_map_of_mem present)
    exact Tight.of_erase (regular.neat line present plainTight.shown) plainTight
  rw [cellContent_close markedTight regular.whole, cellContent_close tight erasedWhole,
    erase_unwords]

/-! ## Tags around cells -/

/-- A text that begins and ends with a marker, so that nothing is read together with
what stands around it. -/
structure Bracketed (text : List Char) : Prop where
  /-- The text begins with a marker. -/
  begins : ∃ marker rest, text = marker ++ rest ∧ IsMarker marker
  /-- The text ends with a marker. -/
  ends : ∃ front marker, text = front ++ marker ∧ IsMarker marker

namespace Bracketed

variable {text : List Char}

theorem opens (bracketed : Bracketed text) (rest : List Char) : Opens (text ++ rest) := by
  obtain ⟨marker, others, rfl, isMarker⟩ := bracketed.begins
  rw [List.append_assoc]
  exact isMarker.opens _

theorem all_append (bracketed : Bracketed text) (rest : List Char) :
    all (text ++ rest) = all text ++ all rest := by
  obtain ⟨front, marker, rfl, isMarker⟩ := bracketed.ends
  have tags := Tags.of_isMarker isMarker
  rw [List.append_assoc, Marker.all_append front (isMarker.opens rest), tags.all_append,
    tags.all_append_right, List.append_assoc]

theorem erase_append (bracketed : Bracketed text) (rest : List Char) :
    erase (text ++ rest) = erase text ++ erase rest := by
  obtain ⟨front, marker, rfl, isMarker⟩ := bracketed.ends
  have tags := Tags.of_isMarker isMarker
  rw [List.append_assoc, Marker.erase_append front (isMarker.opens rest), tags.erase_append,
    tags.erase_append_right]

theorem isBlankLine_append (bracketed : Bracketed text) (rest : List Char) :
    isBlankLine true (text ++ rest) = (isBlankLine true text && isBlankLine true rest) := by
  simp [isBlankLine, bracketed.erase_append, allBlank]

end Bracketed

/-- The tags of a node stand around its text, up to blanks. -/
theorem exists_tag_bracketed {node : Node} (known : node.kind.isKnown = true) (text : List Char) :
    ∃ lead opened body closed tail, tag node text = lead ++ (opened ++ body ++ closed) ++ tail ∧
      allBlank lead = true ∧ allBlank tail = true ∧ IsMarker opened ∧ IsMarker closed := by
  obtain ⟨blockOpened, blockClosed⟩ := isMarker_opening (Or.inl rfl) known
  obtain ⟨spanOpened, spanClosed⟩ := isMarker_opening (Or.inr rfl) known
  have margin : allBlank (text.takeWhile (· == ' ')) = true := by
    obtain ⟨count, rest, -, -, taken, -⟩ := exists_margin text
    rw [taken]
    exact allBlank_spaces count
  unfold tag enclose
  dsimp only
  split
  · exact ⟨[], _, text, _, [], by simp, rfl, rfl, spanOpened, spanClosed⟩
  · split
    · exact ⟨_, _, _, _, ['\n'], rfl, margin, by decide, blockOpened, blockClosed⟩
    · exact ⟨_, _, _, _, [], (List.append_nil _).symm, margin, rfl, blockOpened, blockClosed⟩

/-- A cell keeps the tags around it. -/
theorem bracketed_cellContent {node : Node} (known : node.kind.isKnown = true) (text : List Char) :
    Bracketed (cellContent (tag node text)) := by
  obtain ⟨lead, opened, body, closed, tail, tagged, leadBlank, tailBlank, opens, closes⟩ :=
    exists_tag_bracketed known text
  have openedShown := (Tags.of_isMarker opens).not_blank
  have closedShown := (Tags.of_isMarker closes).not_blank
  obtain ⟨after, bracket, -⟩ := opens.exists_cons
  have started : Text.trimStart (lead ++ (opened ++ body ++ closed) ++ tail) =
      opened ++ body ++ closed ++ tail := by
    have first : ¬ isBlank '<' = true := by decide
    rw [Text.trimStart, List.append_assoc lead,
      List.dropWhile_append_of_pos (List.all_eq_true.mp leadBlank), bracket]
    exact List.dropWhile_cons_of_neg first
  have ended : Text.trimEnd (opened ++ body ++ closed ++ tail) = opened ++ body ++ closed := by
    have shown : allBlank closed = false := by
      obtain ⟨behind, rfl, -⟩ := closes.exists_cons
      rfl
    rw [trimEnd_append_of_blank _ tailBlank, trimEnd_append_of_shown _ shown,
      trimEnd_of_unblank closedShown]
  have respaced := respaced_collapseBreaks (opened ++ body ++ closed)
  rw [List.append_assoc] at respaced
  obtain ⟨rest, whole, inner⟩ := respaced.append_left_inv openedShown
  obtain ⟨front, rfl, -⟩ := inner.append_right_inv closedShown
  rw [cellContent, tagged, Text.trim, started, ended, List.append_assoc, whole]
  exact ⟨⟨opened, _, rfl, opens⟩, ⟨opened ++ front, closed, (List.append_assoc ..).symm, closes⟩⟩

/-! ## Rows -/

theorem opens_intercalate (separator : List Char) {cells : List (List Char)}
    (each : ∀ cell ∈ cells, Bracketed cell) : Opens (separator.intercalate cells) := by
  cases cells with
  | nil => exact opens_nil
  | cons cell rest =>
      have here := each cell (by simp)
      cases rest with
      | nil => simpa using here.opens []
      | cons next more =>
          rw [List.intercalate_cons_cons, List.append_assoc]
          exact here.opens _

/-- A row is erased cell by cell. -/
theorem erase_intercalate {separator : List Char} (unmarked : Unmarked separator)
    {cells : List (List Char)} (each : ∀ cell ∈ cells, Bracketed cell) :
    erase (separator.intercalate cells) = separator.intercalate (cells.map erase) := by
  induction cells with
  | nil => rfl
  | cons cell rest inductionHypothesis =>
      obtain ⟨here, others⟩ := List.forall_mem_cons.mp each
      have below := inductionHypothesis others
      cases rest with
      | nil => simp
      | cons next more =>
          rw [List.intercalate_cons_cons, List.append_assoc, here.erase_append,
            erase_append separator (opens_intercalate separator others),
            erase_of_unmarked unmarked, below, List.map_cons, List.map_cons, List.map_cons,
            List.intercalate_cons_cons, List.append_assoc]

/-- A row with tags is sealed if it has no cells, or if without its tags it shows
something and does not end with blanks. -/
theorem sealed_rowLine {separator : List Char} (unmarked : Unmarked separator)
    (whole : '\n' ∉ separator) {cells : List (List Char)}
    (each : ∀ cell ∈ cells, Bracketed cell ∧ '\n' ∉ cell)
    (ends : cells ≠ [] → allBlank (separator.intercalate (cells.map erase)) = false ∧
      Text.trimEnd (separator.intercalate (cells.map erase)) =
        separator.intercalate (cells.map erase)) (indent : Nat) :
    Sealed indent (rowLine separator indent cells)
      (rowLine separator indent (cells.map erase)) := by
  by_cases empty : cells = []
  · subst empty
    have bare : rowLine separator indent [] = ['\n'] := by
      rw [rowLine, trimEnd_append_of_blank _ (by rfl), trimEnd_of_blank (allBlank_spaces indent)]
      rfl
    have blank : Regular indent [[]] :=
      Regular.singleton_blank (by simp) (neat_of_unmarked (unmarked_of_allBlank rfl)) rfl nofun
    rw [List.map_nil, bare]
    exact ⟨[], [], rfl, rfl, blank, rfl⟩
  · obtain ⟨shown, kept⟩ := ends empty
    have erased : erase (spaces indent ++ separator.intercalate cells) =
        spaces indent ++ separator.intercalate (cells.map erase) := by
      rw [erase_spaces_append, erase_intercalate unmarked fun cell present => (each cell present).1]
    have trimmed : Trimmed (spaces indent ++ separator.intercalate cells) := by
      rw [Trimmed, erased, trimEnd_append_of_shown _ shown, kept]
    have shownLine : isBlankLine true (spaces indent ++ separator.intercalate cells) = false := by
      rw [isBlankLine, if_pos rfl, erased, allBlank_append, shown, Bool.and_false]
    have wholeLine : '\n' ∉ spaces indent ++ separator.intercalate cells := by
      rw [List.mem_append, not_or]
      exact ⟨newline_not_mem_spaces indent,
        not_mem_intercalate whole fun cell present => (each cell present).2⟩
    have regular := Regular.singleton wholeLine trimmed.neat shownLine (List.prefix_append _ _)
    rw [rowLine, rowLine, trimmed.trimEnd_eq, ← erased, trimmed]
    exact ⟨[], _, (close_singleton _).symm, by simp [close_singleton], regular, trimmed⟩

end Layout
end Galley
