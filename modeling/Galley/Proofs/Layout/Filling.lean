import Galley.Proofs.Layout.Framing
import Galley.Proofs.Wrap.Marked

/-!
# Filling regions

Filling a region trims the start of a text, cuts it into lines, trims and indents them,
and trims the tail.  Where a marked text can be wrapped like its erased text, and its
blanks are those that every trimming takes away, the two filled regions are sealed.
-/

namespace Galley
namespace Layout

open Marker Text

/-- The blanks of a text are spaces, tabs and newlines. -/
def PlainBlanks (text : List Char) : Prop :=
  ∀ character ∈ text, isBlank character = true →
    character = ' ' ∨ character = '\t' ∨ character = '\n'

instance : DecidablePred PlainBlanks := fun text =>
  List.decidableBAll (fun character => isBlank character = true →
    character = ' ' ∨ character = '\t' ∨ character = '\n') text

theorem PlainBlanks.mono {text part : List Char} (plain : PlainBlanks text)
    (inside : ∀ character ∈ part, character ∈ text) : PlainBlanks part :=
  fun character present => plain character (inside character present)

/-! ## Trimming the start -/

/-- A marked text is trimmed up to its first character that is not blank. -/
theorem exists_lead (text : List Char) :
    ∃ lead rest, symbols text = lead ++ rest ∧
      trimMarkedStart text = Symbol.spell (lead.filter Symbol.isMarker ++ rest) ∧
      (∀ symbol ∈ lead, (symbol.isMarker || symbol.isBlank) = true) ∧
      ∀ symbol ∈ rest.head?, (symbol.isMarker || symbol.isBlank) = false := by
  refine ⟨_, _, List.takeWhile_append_dropWhile.symm, ?_, fun symbol => List.mem_takeWhile_imp, ?_⟩
  · rw [trimMarkedStart, drop_length_of_append List.takeWhile_append_dropWhile.symm]
  · intro symbol first
    have stops := List.head?_dropWhile_not
      (fun symbol : Symbol => symbol.isMarker || symbol.isBlank) (symbols text)
    rw [first] at stops
    simpa using stops

theorem loose_of_isMarker {symbols kept : List Symbol} (legible : Legible symbols)
    (inside : ∀ symbol ∈ kept, symbol ∈ symbols ∧ symbol.isMarker = true) :
    ∀ symbol ∈ kept, symbol.isBlank = true ∨ ∃ marker, symbol = .marker marker ∧
    IsMarker marker := by
  intro symbol present
  obtain ⟨listed, marked⟩ := inside symbol present
  cases symbol with
  | marker marker => exact Or.inr ⟨marker, rfl, legible.markers marker listed⟩
  | char character => cases marked

/-- What is left of a text trimmed at its start is read back. -/
theorem symbols_trimmedStart {text : List Char} {lead rest : List Symbol}
    (whole : symbols text = lead ++ rest) :
    symbols (Symbol.spell (lead.filter Symbol.isMarker ++ rest)) =
      lead.filter Symbol.isMarker ++ rest := by
  have legible : Legible (lead ++ rest) := whole ▸ legible_symbols text
  refine symbols_spell ((legible.part (List.suffix_append _ _).isInfix).append_left ?_)
  refine loose_of_isMarker legible fun symbol present => ?_
  obtain ⟨listed, marked⟩ := List.mem_filter.mp present
  exact ⟨List.mem_append_left _ listed, marked⟩

theorem chars_filter_isMarker (symbols : List Symbol) :
    Symbol.chars (symbols.filter Symbol.isMarker) = [] :=
  Symbol.chars_of_isMarker fun _ present => (List.mem_filter.mp present).2

/-- Symbols that are markers or blanks have only blank characters. -/
theorem allBlank_chars {symbols : List Symbol}
    (loose : ∀ symbol ∈ symbols, (symbol.isMarker || symbol.isBlank) = true) :
    allBlank (Symbol.chars symbols) = true := by
  induction symbols with
  | nil => rfl
  | cons symbol rest inductionHypothesis =>
      obtain ⟨first, others⟩ := List.forall_mem_cons.mp loose
      have below := inductionHypothesis others
      cases symbol with
      | marker marker => exact below
      | char character =>
          have blank : isBlank character = true := first
          rw [Symbol.chars_char, allBlank, List.all_cons, blank, Bool.true_and]
          exact below

/-- Markers may be erased before or after the start of a text is trimmed. -/
theorem erase_trimMarkedStart (text : List Char) :
    erase (trimMarkedStart text) = Text.trimStart (erase text) := by
  obtain ⟨lead, rest, whole, trimmed, loose, stop⟩ := exists_lead text
  have blanks : ∀ character ∈ Symbol.chars lead, isBlank character = true :=
    List.all_eq_true.mp (allBlank_chars loose)
  rw [trimmed, erase_eq_chars, symbols_trimmedStart whole, Symbol.chars_append,
    chars_filter_isMarker, List.nil_append, erase_eq_chars, whole, Symbol.chars_append,
    Text.trimStart, List.dropWhile_append_of_pos blanks]
  cases rest with
  | nil => rfl
  | cons symbol others =>
      have first := stop symbol (by simp)
      cases symbol with
      | marker marker => cases first
      | char character =>
          have apart : ¬ isBlank character = true := by
            simpa [Symbol.isMarker, Symbol.isBlank] using first
          rw [Symbol.chars_char, List.dropWhile_cons_of_neg apart]

theorem spell_sublist {symbols others : List Symbol} (sublist : symbols.Sublist others) :
    (Symbol.spell symbols).Sublist (Symbol.spell others) :=
  sublist.flatMap Symbol.text

theorem trimMarkedStart_sublist (text : List Char) : (trimMarkedStart text).Sublist text := by
  obtain ⟨lead, rest, whole, trimmed, -, -⟩ := exists_lead text
  have shorter := spell_sublist
    ((List.filter_sublist (p := Symbol.isMarker) (l := lead)).append (List.Sublist.refl rest))
  rwa [← trimmed, ← whole, spell_symbols] at shorter

/-- The lines behind the first line of an end of a text are lines of the text. -/
theorem tail_lines_suffix (front back : List Char) :
    (lines back).tail <:+ (lines (front ++ back)).tail := by
  induction front with
  | nil => exact List.suffix_refl _
  | cons character rest inductionHypothesis =>
      refine inductionHypothesis.trans ?_
      obtain ⟨line, others, found⟩ := List.exists_cons_of_ne_nil (lines_ne_nil (rest ++ back))
      rw [List.cons_append, lines, found]
      split
      · exact List.suffix_cons line others
      · exact List.suffix_refl _

theorem lines_append_of_not_mem {front : List Char} (whole : '\n' ∉ front) (back : List Char) :
    ∃ line others, lines back = line :: others ∧ lines (front ++ back) =
      (front ++ line) :: others := by
  obtain ⟨line, others, found⟩ := List.exists_cons_of_ne_nil (lines_ne_nil back)
  refine ⟨line, others, found, ?_⟩
  induction front with
  | nil => exact found
  | cons character rest inductionHypothesis =>
      obtain ⟨apart, wholeRest⟩ : character ≠ '\n' ∧ '\n' ∉ rest := by
        simpa [eq_comm] using whole
      rw [List.cons_append, lines, if_neg apart, inductionHypothesis wholeRest]
      rfl

/-- Where a text shows something, so does its first line once its start is trimmed; the
other lines are the last lines of the text. -/
theorem lines_trimMarkedStart {text : List Char} (shown : isBlankLine true text = false) :
    ∃ first others, lines (trimMarkedStart text) = first :: others ∧
      allBlank (erase first) = false ∧ others <:+ (lines text).tail := by
  obtain ⟨lead, rest, whole, trimmed, loose, stop⟩ := exists_lead text
  have legible : Legible (lead ++ rest) := whole ▸ legible_symbols text
  have tags : Tags (Symbol.spell (lead.filter Symbol.isMarker)) := by
    refine ⟨(lead.filter Symbol.isMarker).map Symbol.text,
      by simp [Symbol.spell, List.flatMap_def], ?_⟩
    intro marker present
    obtain ⟨symbol, listed, rfl⟩ := List.mem_map.mp present
    obtain ⟨member, marked⟩ := List.mem_filter.mp listed
    cases symbol with
    | marker marker => exact legible.markers marker (List.mem_append_left _ member)
    | char character => cases marked
  obtain ⟨line, others, found, laid⟩ :=
    lines_append_of_not_mem tags.not_newline (Symbol.spell rest)
  refine ⟨_, others, by rw [trimmed, Symbol.spell_append, laid], ?_, ?_⟩
  · rw [tags.erase_append]
    cases rest with
    | nil =>
        have blank : allBlank (erase text) = true := by
          rw [erase_eq_chars, whole, List.append_nil]
          exact allBlank_chars loose
        rw [isBlankLine, if_pos rfl, blank] at shown
        cases shown
    | cons symbol behind =>
        have first := stop symbol (by simp)
        cases symbol with
        | marker marker => cases first
        | char character =>
            have apart : isBlank character = false := by
              simpa [Symbol.isMarker, Symbol.isBlank] using first
            have erased : lines (erase (Symbol.spell (.char character :: behind))) =
                (line :: others).map erase := by rw [lines_erase, found]
            have read : Legible (.char character :: behind) :=
              legible.part (List.suffix_append _ _).isInfix
            have other : character ≠ '\n' := by
              rintro rfl
              exact absurd apart (by decide)
            rw [erase_spell read, Symbol.chars_char, lines, if_neg other] at erased
            split at erased
            · obtain ⟨head, -⟩ := List.cons.inj erased
              simp [← head, allBlank, apart]
            · obtain ⟨head, -⟩ := List.cons.inj erased
              simp [← head, allBlank, apart]
  · have suffix := tail_lines_suffix (Symbol.spell lead) (Symbol.spell rest)
    rwa [← Symbol.spell_append, ← whole, spell_symbols, found] at suffix

/-- Markers at the start part nothing. -/
theorem parted_append_of_isMarker {markers symbols : List Symbol}
    (marked : ∀ symbol ∈ markers, symbol.isMarker = true) (parted : Wrap.Parted symbols) :
    Wrap.Parted (markers ++ symbols) := by
  induction markers with
  | nil => exact parted
  | cons symbol rest inductionHypothesis =>
      obtain ⟨first, others⟩ := List.forall_mem_cons.mp marked
      intro before between after some each within
      rcases List.infix_cons_iff.mp within with starts | later
      · rw [List.cons_prefix_cons] at starts
        rw [← starts.1] at first
        cases first
      · exact inductionHypothesis others before between after some each later

/-- A text that can be wrapped can be wrapped once its start is trimmed. -/
theorem wrappable_trimMarkedStart {text : List Char} (wrappable : Wrap.Wrappable text)
    (shown : isBlankLine true text = false) : Wrap.Wrappable (trimMarkedStart text) := by
  constructor
  · obtain ⟨lead, rest, whole, trimmed, -, -⟩ := exists_lead text
    rw [trimmed, symbols_trimmedStart whole]
    refine parted_append_of_isMarker (fun _ present => (List.mem_filter.mp present).2) ?_
    exact wrappable.parted.part (whole ▸ (List.suffix_append _ _).isInfix)
  · obtain ⟨first, others, found, shows, inside⟩ := lines_trimMarkedStart shown
    rw [found]
    refine List.forall_mem_cons.mpr ⟨fun blank => ?_, fun line present blank => ?_⟩
    · rw [shows] at blank
      cases blank
    · exact wrappable.loose line (List.mem_of_mem_tail (inside.subset present)) blank

/-! ## Trimming the end of a line -/

theorem exists_end (line : List Char) :
    ∃ body tail, symbols line = body ++ tail ∧
      trimMarkedEnd line = Symbol.spell (body ++ tail.filter Symbol.isMarker) ∧
      (∀ symbol ∈ tail, isLooseEnd symbol = true) ∧
      ∀ symbol ∈ body.getLast?, isLooseEnd symbol = false := by
  obtain ⟨tail, whole, loose⟩ := exists_dropEndWhile isLooseEnd (symbols line)
  refine ⟨_, tail, whole, ?_, loose, fun symbol last => ?_⟩
  · rw [trimMarkedEnd, drop_length_of_append whole]
  · have stops := List.head?_dropWhile_not isLooseEnd (symbols line).reverse
    rw [Text.dropEndWhile, List.getLast?_reverse] at last
    rw [last] at stops
    simpa using stops

theorem trimMarkedEnd_sublist (line : List Char) : (trimMarkedEnd line).Sublist line := by
  obtain ⟨body, tail, whole, trimmed, -, -⟩ := exists_end line
  have shorter := spell_sublist
    ((List.Sublist.refl body).append (List.filter_sublist (p := Symbol.isMarker) (l := tail)))
  rwa [← trimmed, ← whole, spell_symbols] at shorter

/-- What is left of a line trimmed at its end is read back. -/
theorem symbols_trimmedEnd {line : List Char} {body tail : List Symbol}
    (whole : symbols line = body ++ tail) :
    symbols (Symbol.spell (body ++ tail.filter Symbol.isMarker)) =
      body ++ tail.filter Symbol.isMarker := by
  have legible : Legible (body ++ tail) := whole ▸ legible_symbols line
  have kept (symbol : Symbol) (present : symbol ∈ tail.filter Symbol.isMarker) :
      symbol ∈ body ++ tail ∧ symbol.isMarker = true :=
    ⟨List.mem_append_right _ (List.mem_filter.mp present).1, (List.mem_filter.mp present).2⟩
  have marked := loose_of_isMarker legible kept
  have markers : Legible (tail.filter Symbol.isMarker ++ []) :=
    Legible.append_left (legible.part (List.nil_infix)) marked
  rw [List.append_nil] at markers
  exact symbols_spell ((legible.part (List.prefix_append _ _).isInfix).append markers
    (opens_of_loose marked))

/-- What may be passed over at the end of a line has only blank characters. -/
theorem allBlank_chars_of_looseEnd {symbols : List Symbol}
    (loose : ∀ symbol ∈ symbols, isLooseEnd symbol = true) :
    allBlank (Symbol.chars symbols) = true := by
  refine allBlank_chars fun symbol present => ?_
  have passed := loose symbol present
  cases symbol with
  | marker marker => rfl
  | char character =>
      rcases Bool.or_eq_true _ _ ▸ passed with space | tab
      · obtain rfl : character = ' ' := by simpa using space
        rfl
      · obtain rfl : character = '\t' := by simpa using tab
        rfl

/-- A line shows something before its end is trimmed if it does so behind. -/
@[simp] theorem isBlankLine_trimMarkedEnd (line : List Char) :
    isBlankLine true (trimMarkedEnd line) = isBlankLine true line := by
  obtain ⟨body, tail, parts, trimmed, loose, -⟩ := exists_end line
  have blank : (Symbol.chars tail).all isBlank = true := allBlank_chars_of_looseEnd loose
  simp only [isBlankLine, if_true, trimmed, erase_eq_chars, symbols_trimmedEnd parts, parts,
    Symbol.chars_append, chars_filter_isMarker, List.append_nil, allBlank, List.all_append, blank,
    Bool.and_true]

/-- Where the blanks of a line are spaces and tabs, its markers may be erased before or
after its end is trimmed. -/
theorem erase_trimMarkedEnd {line : List Char} (plain : PlainBlanks line) (whole : '\n' ∉ line) :
    erase (trimMarkedEnd line) = Text.trimEnd (erase line) := by
  obtain ⟨body, tail, parts, trimmed, loose, stop⟩ := exists_end line
  have blank := allBlank_chars_of_looseEnd loose
  rw [trimmed, erase_eq_chars, symbols_trimmedEnd parts, Symbol.chars_append,
    chars_filter_isMarker, List.append_nil, erase_eq_chars, parts, Symbol.chars_append,
      trimEnd_append_of_blank _ blank]
  rcases List.eq_nil_or_concat' body with rfl | ⟨front, last, rfl⟩
  · rfl
  · have passed := stop last (by simp)
    cases last with
    | marker marker => cases passed
    | char character =>
        have inside : character ∈ erase line := by
          rw [erase_eq_chars, parts]
          simp
        have present := mem_of_mem_erase inside
        have apart : isBlank character = false := by
          cases found : isBlank character with
          | false => rfl
          | true =>
              rcases plain character present found with rfl | rfl | rfl
              · cases passed
              · cases passed
              · exact absurd present whole
        rw [Symbol.chars_append, Symbol.chars_char, Symbol.chars_nil, Text.trimEnd,
          dropEndWhile_append_singleton, apart]
        rfl

/-! ## Filled regions -/

/-- A line of a filled region. -/
def layLine (debug : Bool) (indent : Nat) (line : List Char) : List Char :=
  if isBlankLine debug line then line else spaces indent ++ trimLineEnd debug line

theorem indentLines_unlines (debug : Bool) (indent : Nat) {texts : List (List Char)}
    (some : texts ≠ []) (whole : ∀ line ∈ texts, '\n' ∉ line) :
    indentLines debug indent (unlines texts) = unlines (texts.map (layLine debug indent)) := by
  rw [indentLines, lines_unlines some whole]
  rfl

/-- A line that shows nothing is laid out as it is. -/
theorem layLine_of_blank {line : List Char} (blank : allBlank line = true) (indent : Nat) :
    layLine false indent line = line := if_pos blank

/-- Any other line is indented and trimmed. -/
theorem layLine_of_shown {line : List Char} (shown : allBlank line = false) (indent : Nat) :
    layLine false indent line = Text.trimEnd (spaces indent ++ line) := by
  rw [trimEnd_append_of_shown _ shown]
  exact if_neg (by simp [isBlankLine, shown])

section Lines

variable {indent : Nat} {marked plain : List Char}

/-- Matching lines are laid out alike. -/
theorem erase_layLine (matched : Wrap.Filler.Matches marked plain) (blanks : PlainBlanks marked)
    (whole : '\n' ∉ marked) : erase (layLine true indent marked) = layLine false indent plain := by
  cases shows : isBlankLine true marked with
  | true =>
      have same := matched.blank shows
      have blank : isBlankLine false plain = true := by rw [← same, isBlankLine_erase, shows]
      rw [layLine, layLine, if_pos shows, if_pos blank, same]
  | false =>
      have same : isBlankLine false plain = isBlankLine false (erase marked) := by
        rw [← isBlankLine_trimEnd, ← matched.trimmed, isBlankLine_trimEnd]
      rw [layLine, layLine, shows, same, isBlankLine_erase, shows, if_neg (by simp),
        if_neg (by simp),
        erase_spaces_append, trimLineEnd, trimLineEnd, if_pos rfl, if_neg (by simp),
        erase_trimMarkedEnd blanks whole, matched.trimmed]

@[simp] theorem isBlankLine_layLine (indent : Nat) (line : List Char) :
    isBlankLine true (layLine true indent line) = isBlankLine true line := by
  cases shows : isBlankLine true line with
  | true => rw [layLine, if_pos shows, shows]
  | false =>
      rw [layLine, if_neg (by simp [shows]), isBlankLine_spaces_append, trimLineEnd, if_pos rfl,
        isBlankLine_trimMarkedEnd, shows]

/-- A line that shows something is laid out without blanks at its end. -/
theorem neat_layLine (blanks : PlainBlanks marked) (whole : '\n' ∉ marked)
    (shows : isBlankLine true marked = false) : Neat (layLine true indent marked) := by
  have shown : allBlank (Text.trimEnd (erase marked)) = false := by
    have same := isBlankLine_trimEnd false (erase marked)
    rw [isBlankLine_erase, shows] at same
    exact same
  refine Trimmed.neat ?_
  rw [Trimmed, layLine, if_neg (by simp [shows]), trimLineEnd, if_pos rfl, erase_spaces_append,
    erase_trimMarkedEnd blanks whole, trimEnd_append_of_shown _ shown, trimEnd_trimEnd]

theorem newline_not_mem_layLine {debug : Bool} (whole : '\n' ∉ marked) :
    '\n' ∉ layLine debug indent marked := by
  have kept : '\n' ∉ trimLineEnd debug marked := by
    cases debug with
    | false => exact not_mem_trimEnd whole
    | true => exact fun newline => whole ((trimMarkedEnd_sublist marked).subset newline)
  unfold layLine
  split
  · exact whole
  · rw [List.mem_append, not_or]
    exact ⟨newline_not_mem_spaces indent, kept⟩

end Lines

/-- Lines that stand for others are laid out as a sealed region. -/
theorem sealed_lines {text : List Char} {marked plain : List (List Char)} (indent : Nat)
    (stands : Wrap.Stands text marked plain) (blanks : PlainBlanks text)
    (head : ∀ line ∈ (lines text).head?, allBlank (erase line) = false) :
    Sealed indent (trimTail true (indentLines true indent (unlines marked)) ++ ['\n'])
      (trimTail false (indentLines false indent (unlines plain)) ++ ['\n']) := by
  have some : plain ≠ [] := fun none => stands.nonempty
    (List.length_eq_zero_iff.mp (by rw [stands.matched.length_eq, none, List.length_nil]))
  have each : ∀ line ∈ marked, PlainBlanks line := fun line present =>
    blanks.mono (stands.within line present)
  have erased : plain.map (layLine false indent) =
      (marked.map (layLine true indent)).map erase := by
    have whole := stands.whole
    have matched := stands.matched
    clear stands some
    induction matched with
    | nil => rfl
    | cons first rest inductionHypothesis =>
        obtain ⟨blank, blankRest⟩ := List.forall_mem_cons.mp each
        obtain ⟨wholeFirst, wholeRest⟩ := List.forall_mem_cons.mp whole
        rw [List.map_cons, List.map_cons, List.map_cons, inductionHypothesis blankRest wholeRest,
          erase_layLine first blank wholeFirst]
  rw [indentLines_unlines _ _ stands.nonempty stands.whole,
    indentLines_unlines _ _ some stands.plainWhole, erased]
  obtain ⟨first, rest, rfl⟩ := List.exists_cons_of_ne_nil stands.nonempty
  have firstShows : isBlankLine true first = false := stands.head head first (by simp)
  refine sealed_trimTail (by simp) (Regular.of_shown ?_ ?_ ?_ ?_ ?_ ?_)
  · exact newline_not_mem_layLine (stands.whole first (by simp))
  · exact neat_layLine (each first (by simp)) (stands.whole first (by simp)) firstShows
  · rw [isBlankLine_layLine, firstShows]
  · rw [layLine, if_neg (by simp [firstShows])]
    exact List.prefix_append _ _
  · intro line present
    obtain ⟨other, listed, rfl⟩ := List.mem_map.mp present
    exact newline_not_mem_layLine (stands.whole other (List.mem_cons_of_mem _ listed))
  · intro line present shown
    obtain ⟨other, listed, rfl⟩ := List.mem_map.mp present
    rw [isBlankLine_layLine] at shown
    exact neat_layLine (each other (List.mem_cons_of_mem _ listed))
      (stands.whole other (List.mem_cons_of_mem _ listed)) shown

/-- Filling a region with a text that shows something seals it. -/
theorem sealed_fill (options : Options) (indent : Nat) (wraps : Bool) {text : List Char}
    (shown : isBlankLine true text = false) (blanks : PlainBlanks text)
    (wrappable : wraps = true → options.wraps = true → Wrap.Wrappable text) :
    Sealed indent (fill { options with debug := true } indent wraps text)
      (fill { options with debug := false } indent wraps (erase text)) := by
  have startBlanks : PlainBlanks (trimMarkedStart text) :=
    blanks.mono fun _ present => (trimMarkedStart_sublist text).subset present
  obtain ⟨first, others, found, shows, -⟩ := lines_trimMarkedStart shown
  have head : ∀ line ∈ (lines (trimMarkedStart text)).head?, allBlank (erase line) = false := by
    simpa [found] using shows
  simp only [fill, trimTextStart, if_true, Bool.false_eq_true, if_false, ← erase_trimMarkedStart]
  cases both : wraps && options.wraps with
  | true =>
      obtain ⟨wrap, wrapOption⟩ : wraps = true ∧ options.wraps = true := by simpa using both
      obtain ⟨marked, plain, markedText, plainText, stands⟩ := Wrap.stands_wrap
        ((options.maxColumn : Int) - indent)
        (wrappable_trimMarkedStart (wrappable wrap wrapOption) shown)
      simp only [if_true, markedText, plainText]
      exact sealed_lines indent stands startBlanks head
  | false =>
      have stands := Wrap.stands_lines (trimMarkedStart text)
      have region := sealed_lines indent stands startBlanks head
      rw [unlines_lines, unlines_lines] at region
      exact region

end Layout
end Galley
