import Galley.Proofs.Markers
import Mathlib.Data.List.Infix

/-!
# Erasing markers

A marker is read back wherever it stands, and nothing else is read as one: an opening
bracket stands only at its start.  So a text may be cut before any character that no
marker goes on with, and what is put together from markers and unmarked texts is erased
part by part.
-/

namespace Galley

/-- The characters among symbols. -/
def Symbol.chars (symbols : List Symbol) : List Char :=
  symbols.filterMap fun symbol =>
    match symbol with
    | .marker _ => none
    | .char character => some character

namespace Symbol

@[simp] theorem chars_nil : chars [] = [] := rfl

@[simp] theorem chars_marker (marker : List Char) (rest : List Symbol) :
    chars (.marker marker :: rest) = chars rest := rfl

@[simp] theorem chars_char (character : Char) (rest : List Symbol) :
    chars (.char character :: rest) = character :: chars rest := rfl

@[simp] theorem chars_append (first second : List Symbol) :
    chars (first ++ second) = chars first ++ chars second :=
  List.filterMap_append

@[simp] theorem chars_map_char (text : List Char) : chars (text.map .char) = text := by
  induction text with
  | nil => rfl
  | cons character rest inductionHypothesis => simp [inductionHypothesis]

@[simp] theorem spell_map_char (text : List Char) : spell (text.map .char) = text := by
  induction text with
  | nil => rfl
  | cons character rest inductionHypothesis => simp [inductionHypothesis, Symbol.text]

/-- Markers alone have no characters. -/
theorem chars_of_isMarker {symbols : List Symbol}
    (markers : ∀ symbol ∈ symbols, symbol.isMarker = true) : chars symbols = [] := by
  refine List.filterMap_eq_nil_iff.mpr fun symbol present => ?_
  cases symbol with
  | marker marker => rfl
  | char character => cases markers _ present

end Symbol

namespace Marker

theorem erase_eq_chars (text : List Char) : erase text = Symbol.chars (symbols text) := rfl

/-! ## The form of a marker -/

/-- A marker begins with its only opening bracket. -/
theorem IsMarker.exists_cons {marker : List Char} (isMarker : IsMarker marker) :
    ∃ tail, marker = '<' :: tail ∧ '<' ∉ tail := by
  obtain ⟨tagClass, name, known, -, proper, spelled⟩ := isMarker
  have classed : '<' ∉ tagClass := by
    rcases known with rfl | rfl <;> decide
  have named : '<' ∉ name := fun present => absurd (proper _ present) (by decide)
  rcases spelled with rfl | rfl
  · exact ⟨_, rfl, by simp [classed, named]⟩
  · exact ⟨_, rfl, by simp [classed, named]⟩

/-- What stands behind a marker is found. -/
theorem rest?_append {marker : List Char} (isMarker : IsMarker marker) (rest : List Char) :
    rest? (marker ++ rest) = some rest := by
  obtain ⟨tagClass, name, known, nonempty, proper, spelled⟩ := isMarker
  have taken : (name ++ '>' :: rest).takeWhile isNameChar = name := by
    rw [List.takeWhile_append_of_pos proper]
    simp [show isNameChar '>' = false by decide]
  have dropped : (name ++ '>' :: rest).dropWhile isNameChar = '>' :: rest := by
    rw [List.dropWhile_append_of_pos proper]
    simp [show isNameChar '>' = false by decide]
  have classed : afterClass? (tagClass ++ ':' :: (name ++ '>' :: rest)) =
      some (name ++ '>' :: rest) := by
    rcases known with rfl | rfl
    · simp [afterClass?, blockClass, List.isPrefixOf?]
    · simp [afterClass?, blockClass, spanClass, List.isPrefixOf?]
  have read : ∃ first others, name = first :: others := List.exists_cons_of_ne_nil nonempty
  obtain ⟨first, others, rfl⟩ := read
  rcases spelled with rfl | rfl
  · have whole : opening tagClass (first :: others) ++ rest =
        '<' :: (tagClass ++ ':' :: (first :: others ++ '>' :: rest)) := by simp [opening]
    have unslashed : ['/'].isPrefixOf? (tagClass ++ ':' :: (first :: others ++ '>' :: rest)) =
        none := by
      rcases known with rfl | rfl <;> simp [blockClass, spanClass, List.isPrefixOf?]
    rw [whole, rest?, unslashed, Option.getD_none, classed]
    dsimp only
    rw [taken, dropped]
    rfl
  · have whole : closing tagClass (first :: others) ++ rest =
        '<' :: '/' :: (tagClass ++ ':' :: (first :: others ++ '>' :: rest)) := by simp [closing]
    have slashed :
        ['/'].isPrefixOf? ('/' :: (tagClass ++ ':' :: (first :: others ++ '>' :: rest))) =
        some (tagClass ++ ':' :: (first :: others ++ '>' :: rest)) := by
      simp [List.isPrefixOf?]
    rw [whole, rest?, slashed, Option.getD_some, classed]
    dsimp only
    rw [taken, dropped]
    rfl

theorem length?_append {marker : List Char} (isMarker : IsMarker marker) (rest : List Char) :
    length? (marker ++ rest) = some marker.length := by
  rw [length?, rest?_append isMarker]
  simp

/-- A marker stands at the start of a text exactly where one is read there. -/
theorem exists_append_of_length? {text : List Char} {length : Nat}
    (found : length? text = some length) :
    ∃ marker rest, IsMarker marker ∧ text = marker ++ rest ∧ length = marker.length := by
  obtain ⟨rest, read, rfl⟩ := Option.map_eq_some_iff.mp found
  obtain ⟨marker, isMarker, rfl⟩ := isMarker_of_rest? read
  exact ⟨marker, rest, isMarker, rfl, by simp⟩

/-! ## Reading the parts of a text -/

@[simp] theorem symbols_nil : symbols [] = [] := rfl

@[simp] theorem erase_nil : erase [] = [] := rfl

theorem symbols_cons {character : Char} {rest : List Char}
    (none : length? (character :: rest) = none) :
    symbols (character :: rest) = .char character :: symbols rest := by
  rw [symbols, symbolsAfter, none]
  rfl

theorem symbols_marker {marker : List Char} (isMarker : IsMarker marker) (rest : List Char) :
    symbols (marker ++ rest) = .marker marker :: symbols rest := by
  have found := length?_append isMarker rest
  obtain ⟨tail, rfl, -⟩ := isMarker.exists_cons
  rw [List.cons_append] at found ⊢
  rw [symbols, symbolsAfter, found]
  dsimp only
  rw [symbolsAfter_eq_drop, ← List.cons_append, List.take_left]
  simp

/-- A text goes on with no marker: it is empty, or its first character stands at the
start of a marker or in none. -/
def Opens (text : List Char) : Prop :=
  ∀ character ∈ text.head?, ∀ tail, IsMarker ('<' :: tail) → character ∉ tail

theorem opens_nil : Opens [] := fun _ absent => by cases absent

theorem opens_bracket (rest : List Char) : Opens ('<' :: rest) := by
  intro character present tail isMarker
  obtain rfl : '<' = character := by simpa using present
  obtain ⟨_, same, outside⟩ := isMarker.exists_cons
  cases same
  exact outside

/-- No marker goes on with another. -/
theorem IsMarker.opens {marker : List Char} (isMarker : IsMarker marker) (rest : List Char) :
    Opens (marker ++ rest) := by
  obtain ⟨tail, rfl, -⟩ := isMarker.exists_cons
  exact opens_bracket _

/-- No marker goes on with a blank or with NUL. -/
theorem opens_of_blank {character : Char}
    (apart : Text.isBlank character = true ∨ character = '\x00') (rest : List Char) :
    Opens (character :: rest) := by
  intro other present tail isMarker inside
  obtain rfl : character = other := by simpa using present
  have shown := isMarker.not_blank character (List.mem_cons_of_mem _ inside)
  rcases apart with blank | rfl
  · rw [shown.1] at blank
    cases blank
  · exact shown.2 rfl

theorem opens_of_allBlank {text : List Char} (blank : Text.allBlank text = true) : Opens text := by
  cases text with
  | nil => exact opens_nil
  | cons character rest =>
      exact opens_of_blank (Or.inl (List.all_eq_true.mp blank character (by simp))) rest

theorem opens_newline (rest : List Char) : Opens ('\n' :: rest) :=
  opens_of_blank (Or.inl (by decide)) rest

theorem length?_append_of_opens {character : Char} {front back : List Char} (opens : Opens back) :
    length? (character :: front ++ back) = length? (character :: front) := by
  cases found : length? (character :: front) with
  | some length =>
      obtain ⟨marker, rest, isMarker, whole, rfl⟩ := exists_append_of_length? found
      rw [whole, List.append_assoc, length?_append isMarker]
  | none =>
      cases longer : length? (character :: front ++ back) with
      | none => rfl
      | some length =>
          obtain ⟨marker, rest, isMarker, whole, rfl⟩ := exists_append_of_length? longer
          obtain ⟨tail, rfl, -⟩ := isMarker.exists_cons
          rcases List.append_eq_append_iff.mp whole with ⟨cut, longMarker, inside⟩ | ⟨cut, short, -⟩
          · cases cut with
            | nil =>
                rw [List.append_nil] at longMarker
                have read := length?_append isMarker []
                rw [List.append_nil, longMarker, found] at read
                cases read
            | cons first others =>
                obtain ⟨-, rfl⟩ := List.cons.inj longMarker
                exact absurd (by simp) (opens first (by simp [inside]) _ isMarker)
          · rw [short, length?_append isMarker] at found
            cases found

theorem symbolsAfter_append (skipped : Nat) (front : List Char) {back : List Char}
    (opens : Opens back) (inside : skipped ≤ front.length) :
    symbolsAfter skipped (front ++ back) = symbolsAfter skipped front ++ symbols back := by
  induction front generalizing skipped with
  | nil =>
      obtain rfl : skipped = 0 := by simpa using inside
      rfl
  | cons character rest inductionHypothesis =>
      cases skipped with
      | succ fewer => exact inductionHypothesis fewer (by simpa using inside)
      | zero =>
          have same : length? (character :: rest ++ back) = length? (character :: rest) :=
            length?_append_of_opens opens
          rw [List.cons_append] at same ⊢
          rw [symbolsAfter, symbolsAfter, same]
          cases found : length? (character :: rest) with
          | none => simp [inductionHypothesis 0 (Nat.zero_le _)]
          | some length =>
              obtain ⟨marker, behind, isMarker, whole, rfl⟩ := exists_append_of_length? found
              have size := congrArg List.length whole
              simp only [List.length_cons, List.length_append] at size
              have taken : (character :: (rest ++ back)).take marker.length =
                  (character :: rest).take marker.length := by
                rw [← List.cons_append, whole, List.append_assoc, List.take_left, List.take_left]
              simp only [taken, inductionHypothesis (marker.length - 1) (by omega),
                List.cons_append]

/-- A text may be cut before what goes on with no marker. -/
theorem symbols_append (front : List Char) {back : List Char} (opens : Opens back) :
    symbols (front ++ back) = symbols front ++ symbols back :=
  symbolsAfter_append 0 front opens (Nat.zero_le _)

theorem erase_append (front : List Char) {back : List Char} (opens : Opens back) :
    erase (front ++ back) = erase front ++ erase back := by
  simp only [erase_eq_chars, symbols_append front opens, Symbol.chars_append]

@[simp] theorem erase_marker {marker : List Char} (isMarker : IsMarker marker) (rest : List Char) :
    erase (marker ++ rest) = erase rest := by
  simp only [erase_eq_chars, symbols_marker isMarker, Symbol.chars_marker]

theorem erase_cons {character : Char} (other : character ≠ '<') (rest : List Char) :
    erase (character :: rest) = character :: erase rest := by
  rw [erase_eq_chars, symbols_cons (length?_eq_none_of_ne rest other)]
  rfl

/-- What holds no bracket is kept. -/
theorem erase_append_left {front : List Char} (plain : '<' ∉ front) (back : List Char) :
    erase (front ++ back) = front ++ erase back := by
  induction front with
  | nil => rfl
  | cons character rest inductionHypothesis =>
      obtain ⟨apart, others⟩ : '<' ≠ character ∧ '<' ∉ rest := by simpa using plain
      rw [List.cons_append, erase_cons apart.symm, inductionHypothesis others, List.cons_append]

/-- The symbols of lines, with a newline between neighbours. -/
theorem symbols_unlines (line : List Char) (others : List (List Char)) :
    symbols (Text.unlines (line :: others)) =
      symbols line ++ others.flatMap fun other => .char '\n' :: symbols other := by
  induction others generalizing line with
  | nil => simp
  | cons next rest inductionHypothesis =>
      have newline : length? ('\n' :: Text.unlines (next :: rest)) = none :=
        length?_eq_none_of_ne _ (by decide)
      rw [Text.unlines_cons (by simp), symbols_append line (opens_newline _), symbols_cons newline,
        inductionHypothesis]
      simp

/-- Lines are erased one by one. -/
theorem erase_unlines (lines : List (List Char)) :
    erase (Text.unlines lines) = Text.unlines (lines.map erase) := by
  induction lines with
  | nil => rfl
  | cons line rest inductionHypothesis =>
      cases rest with
      | nil => simp
      | cons next others =>
          rw [Text.unlines_cons (by simp), erase_append line (opens_newline _),
            erase_cons (by decide), inductionHypothesis]
          exact (Text.unlines_cons (by simp)).symm

/-- Erasing adds no characters. -/
theorem mem_of_mem_erase {text : List Char} {character : Char} (present : character ∈ erase text) :
    character ∈ text := by
  obtain ⟨symbol, listed, found⟩ := List.mem_filterMap.mp present
  cases symbol with
  | marker marker => cases found
  | char other =>
      obtain rfl : other = character := by simpa using found
      rw [← spell_symbols text]
      exact List.mem_flatMap.mpr ⟨_, listed, by simp [Symbol.text]⟩

theorem lines_erase (text : List Char) :
    Text.lines (erase text) = (Text.lines text).map erase := by
  have whole : ∀ line ∈ (Text.lines text).map erase, '\n' ∉ line := by
    intro line present newline
    obtain ⟨marked, listed, rfl⟩ := List.mem_map.mp present
    exact Text.not_mem_of_mem_lines listed (mem_of_mem_erase newline)
  have some : (Text.lines text).map erase ≠ [] := by simpa using Text.lines_ne_nil text
  rw [← Text.lines_unlines some whole, ← erase_unlines, Text.unlines_lines]

/-- The symbols of a line stand together among those of the text. -/
theorem symbols_infix_of_mem_lines {text line : List Char} (present : line ∈ Text.lines text) :
    symbols line <:+: symbols text := by
  have whole := Text.unlines_lines text
  cases found : Text.lines text with
  | nil => exact absurd found (Text.lines_ne_nil text)
  | cons first rest =>
      rw [found] at present whole
      rw [← whole, symbols_unlines]
      rcases List.mem_cons.mp present with rfl | later
      · exact (List.prefix_append _ _).isInfix
      · have inside : symbols line <:+: rest.flatMap fun other => .char '\n' :: symbols other := by
          obtain ⟨before, after, rfl⟩ := List.append_of_mem later
          refine ⟨(before.flatMap fun other => .char '\n' :: symbols other) ++ [.char '\n'],
            after.flatMap fun other => .char '\n' :: symbols other, ?_⟩
          simp
        exact inside.trans (List.suffix_append _ _).isInfix

/-! ## Unmarked texts and legible symbols -/

/-- No part of a text is a marker. -/
def Unmarked (text : List Char) : Prop :=
  ∀ marker, IsMarker marker → ¬ marker <:+: text

/-- Symbols are legible when the markers among them are markers, and no run of
characters spells one. -/
structure Legible (symbols : List Symbol) : Prop where
  /-- Marker symbols are markers. -/
  markers : ∀ marker, Symbol.marker marker ∈ symbols → IsMarker marker
  /-- No run of characters is a marker. -/
  runs : ∀ marker, IsMarker marker → ¬ marker.map Symbol.char <:+: symbols

theorem Unmarked.part {text part : List Char} (unmarked : Unmarked text) (inside : part <:+: text) :
    Unmarked part :=
  fun marker isMarker within => unmarked marker isMarker (within.trans inside)

theorem Legible.part {symbols part : List Symbol} (legible : Legible symbols)
    (inside : part <:+: symbols) : Legible part :=
  ⟨fun marker present => legible.markers marker (inside.subset present),
    fun marker isMarker within => legible.runs marker isMarker (within.trans inside)⟩

/-- An unmarked text is read character by character. -/
theorem symbols_of_unmarked {text : List Char} (unmarked : Unmarked text) :
    symbols text = text.map .char := by
  induction text with
  | nil => rfl
  | cons character rest inductionHypothesis =>
      have none : length? (character :: rest) = none := by
        cases found : length? (character :: rest) with
        | none => rfl
        | some length =>
            obtain ⟨marker, behind, isMarker, whole, -⟩ := exists_append_of_length? found
            exact absurd (whole ▸ (List.prefix_append marker behind).isInfix)
              (unmarked marker isMarker)
      have below := inductionHypothesis (unmarked.part (List.suffix_cons character rest).isInfix)
      rw [symbols_cons none, below, List.map_cons]

theorem erase_of_unmarked {text : List Char} (unmarked : Unmarked text) : erase text = text := by
  rw [erase_eq_chars, symbols_of_unmarked unmarked, Symbol.chars_map_char]

/-- Blanks make no marker. -/
theorem unmarked_of_allBlank {text : List Char} (blank : Text.allBlank text = true) :
    Unmarked text := by
  intro marker isMarker within
  obtain ⟨tail, rfl, -⟩ := isMarker.exists_cons
  have bracket := List.all_eq_true.mp blank '<' (within.subset (by simp))
  exact absurd bracket (by decide)

/-- A beginning without bracket is spelled by characters. -/
theorem map_char_prefix {run : List Char} {symbols : List Symbol}
    (markers : ∀ marker, Symbol.marker marker ∈ symbols → IsMarker marker)
    (plain : '<' ∉ run) (starts : run <+: Symbol.spell symbols) :
    run.map Symbol.char <+: symbols := by
  induction run generalizing symbols with
  | nil => exact List.nil_prefix
  | cons character rest inductionHypothesis =>
      obtain ⟨apart, plainRest⟩ : '<' ≠ character ∧ '<' ∉ rest := by simpa using plain
      cases symbols with
      | nil =>
          rw [Symbol.spell_nil, List.prefix_nil] at starts
          cases starts
      | cons symbol others =>
          cases symbol with
          | marker marker =>
              obtain ⟨tail, rfl, -⟩ := (markers marker (by simp)).exists_cons
              rw [Symbol.spell_cons, Symbol.text, List.cons_append, List.cons_prefix_cons] at starts
              exact absurd starts.1.symm apart
          | char first =>
              rw [Symbol.spell_cons, Symbol.text, List.singleton_append,
                List.cons_prefix_cons] at starts
              obtain ⟨rfl, further⟩ := starts
              have below := inductionHypothesis
                (fun marker present => markers marker (List.mem_cons_of_mem _ present)) plainRest
                further
              exact (List.prefix_cons_inj _).mpr below

/-- Legible symbols are read back. -/
theorem symbols_spell {symbols : List Symbol} (legible : Legible symbols) :
    Marker.symbols (Symbol.spell symbols) = symbols := by
  induction symbols with
  | nil => rfl
  | cons symbol rest inductionHypothesis =>
      have below := inductionHypothesis (legible.part (List.suffix_cons symbol rest).isInfix)
      cases symbol with
      | marker marker =>
          rw [Symbol.spell_cons, Symbol.text, symbols_marker (legible.markers marker (by simp)),
            below]
      | char character =>
          have none : length? (character :: Symbol.spell rest) = none := by
            cases found : length? (character :: Symbol.spell rest) with
            | none => rfl
            | some length =>
                obtain ⟨marker, behind, isMarker, whole, -⟩ := exists_append_of_length? found
                obtain ⟨tail, rfl, plain⟩ := isMarker.exists_cons
                obtain ⟨rfl, further⟩ := List.cons.inj whole
                have run := map_char_prefix
                  (fun other present => legible.markers other (List.mem_cons_of_mem _ present))
                  plain ⟨behind, further.symm⟩
                exact absurd ((List.prefix_cons_inj _).mpr run).isInfix
                  (legible.runs _ isMarker)
          rw [Symbol.spell_cons, Symbol.text, List.singleton_append, symbols_cons none, below]

/-- What is read from a text is legible. -/
theorem legible_symbolsAfter (skipped : Nat) (text : List Char) :
    Legible (symbolsAfter skipped text) := by
  refine ⟨fun marker present => isMarker_of_mem_symbolsAfter present, fun marker isMarker => ?_⟩
  induction text generalizing skipped with
  | nil =>
      intro within
      rw [symbolsAfter_nil, List.infix_nil] at within
      obtain ⟨tail, rfl, -⟩ := isMarker.exists_cons
      cases within
  | cons character rest inductionHypothesis =>
      cases skipped with
      | succ fewer => exact inductionHypothesis fewer
      | zero =>
          rw [symbolsAfter]
          cases found : length? (character :: rest) with
          | some length =>
              intro within
              rcases List.infix_cons_iff.mp within with starts | later
              · obtain ⟨tail, rfl, -⟩ := isMarker.exists_cons
                rw [List.map_cons, List.cons_prefix_cons] at starts
                cases starts.1
              · exact inductionHypothesis _ later
          | none =>
              intro within
              rcases List.infix_cons_iff.mp within with starts | later
              · -- A run at the start would have been read as a marker.
                obtain ⟨others, spelled⟩ := starts
                have texts := congrArg Symbol.spell spelled
                rw [Symbol.spell_append, Symbol.spell_map_char, Symbol.spell_cons,
                  spell_symbolsAfter] at texts
                have read := length?_append isMarker (Symbol.spell others)
                rw [texts] at read
                simp [Symbol.text, found] at read
              · exact inductionHypothesis _ later

theorem legible_symbols (text : List Char) : Legible (symbols text) :=
  legible_symbolsAfter 0 text

theorem erase_spell {symbols : List Symbol} (legible : Legible symbols) :
    erase (Symbol.spell symbols) = Symbol.chars symbols := by
  rw [erase_eq_chars, symbols_spell legible]

theorem Legible.append {front back : List Symbol} (left : Legible front) (right : Legible back)
    (opens : Opens (Symbol.spell back)) : Legible (front ++ back) := by
  have read := legible_symbols (Symbol.spell front ++ Symbol.spell back)
  rwa [symbols_append _ opens, symbols_spell left, symbols_spell right] at read

/-- A text that is read character by character is unmarked. -/
theorem unmarked_of_symbols {text : List Char} (read : symbols text = text.map .char) :
    Unmarked text := by
  intro marker isMarker within
  refine (legible_symbols text).runs marker isMarker ?_
  obtain ⟨front, back, rfl⟩ := within
  rw [read]
  exact ⟨front.map .char, back.map .char, by simp⟩

instance : DecidablePred Unmarked := fun text =>
  decidable_of_iff (symbols text = text.map .char) ⟨unmarked_of_symbols, symbols_of_unmarked⟩

theorem Unmarked.append {front back : List Char} (left : Unmarked front) (right : Unmarked back)
    (opens : Opens back) : Unmarked (front ++ back) := by
  refine unmarked_of_symbols ?_
  rw [symbols_append front opens, symbols_of_unmarked left, symbols_of_unmarked right,
    List.map_append]

theorem unmarked_of_not_mem {text : List Char} (plain : '<' ∉ text) : Unmarked text := by
  intro marker isMarker within
  obtain ⟨tail, rfl, -⟩ := isMarker.exists_cons
  exact plain (within.subset (by simp))

theorem infix_of_mem_lines {text line : List Char} (present : line ∈ Text.lines text) :
    line <:+: text := by
  obtain ⟨front, back, whole⟩ := symbols_infix_of_mem_lines present
  refine ⟨Symbol.spell front, Symbol.spell back, ?_⟩
  have spelled := congrArg Symbol.spell whole
  simpa using spelled

/-- What begins with a blank or a marker goes on with no marker. -/
theorem opens_of_loose {symbols : List Symbol}
    (loose : ∀ symbol ∈ symbols, symbol.isBlank = true ∨
      ∃ marker, symbol = .marker marker ∧ IsMarker marker) :
    Opens (Symbol.spell symbols) := by
  cases symbols with
  | nil => exact opens_nil
  | cons symbol rest =>
      rcases loose symbol (by simp) with blank | ⟨marker, rfl, isMarker⟩
      · cases symbol with
        | marker marker => cases blank
        | char character => exact opens_of_blank (Or.inl blank) _
      · obtain ⟨tail, rfl, -⟩ := isMarker.exists_cons
        exact opens_bracket _

/-- Blanks and markers that are put before legible symbols leave them legible. -/
theorem Legible.append_left {front symbols : List Symbol} (legible : Legible symbols)
    (loose : ∀ symbol ∈ front, symbol.isBlank = true ∨
      ∃ marker, symbol = .marker marker ∧ IsMarker marker) :
    Legible (front ++ symbols) := by
  induction front with
  | nil => exact legible
  | cons symbol rest inductionHypothesis =>
      have below := inductionHypothesis fun other present =>
        loose other (List.mem_cons_of_mem symbol present)
      refine ⟨fun marker present => ?_, fun marker isMarker within => ?_⟩
      · rcases List.mem_cons.mp present with same | later
        · rcases loose symbol (by simp) with blank | ⟨other, found, isMarker⟩
          · rw [← same] at blank
            cases blank
          · rw [found] at same
            cases same
            exact isMarker
        · exact below.markers marker later
      · rcases List.infix_cons_iff.mp within with starts | later
        · obtain ⟨tail, rfl, -⟩ := isMarker.exists_cons
          rw [List.map_cons, List.cons_prefix_cons] at starts
          rcases loose symbol (by simp) with blank | ⟨other, found, -⟩
          · rw [← starts.1] at blank
            exact absurd blank (by decide)
          · rw [← starts.1] at found
            cases found
        · exact below.runs marker isMarker later

/-- Blanks before an unmarked text leave it unmarked. -/
theorem Unmarked.blank_append {blanks text : List Char} (unmarked : Unmarked text)
    (blank : Text.allBlank blanks = true) : Unmarked (blanks ++ text) := by
  have legible : Legible (text.map .char) := symbols_of_unmarked unmarked ▸ legible_symbols text
  have longer : Legible (blanks.map .char ++ text.map .char) := by
    refine legible.append_left fun symbol present => ?_
    obtain ⟨character, inside, rfl⟩ := List.mem_map.mp present
    exact Or.inl (List.all_eq_true.mp blank character inside)
  intro marker isMarker within
  refine longer.runs marker isMarker ?_
  obtain ⟨front, back, whole⟩ := within
  rw [← List.map_append, ← whole]
  exact ⟨front.map .char, back.map .char, by simp⟩

/-! ## Runs of markers -/

/-- A text made of markers. -/
def Tags (text : List Char) : Prop :=
  ∃ markers : List (List Char), text = markers.flatten ∧ ∀ marker ∈ markers, IsMarker marker

namespace Tags

variable {text : List Char}

theorem nil : Tags [] := ⟨[], rfl, by simp⟩

theorem of_isMarker {marker : List Char} (isMarker : IsMarker marker) : Tags marker :=
  ⟨[marker], by simp, by simpa using isMarker⟩

theorem append {others : List Char} (left : Tags text) (right : Tags others) :
    Tags (text ++ others) := by
  obtain ⟨markers, rfl, each⟩ := left
  obtain ⟨markers', rfl, each'⟩ := right
  exact ⟨markers ++ markers', by simp,
    fun marker present => (List.mem_append.mp present).elim (each marker) (each' marker)⟩

theorem opens (tags : Tags text) {rest : List Char} (further : Opens rest) :
    Opens (text ++ rest) := by
  obtain ⟨markers, rfl, each⟩ := tags
  cases markers with
  | nil => exact further
  | cons marker others =>
      obtain ⟨tail, rfl, -⟩ := (each marker (by simp)).exists_cons
      exact opens_bracket _

/-- Erasing a text deletes the tags before it. -/
theorem erase_append (tags : Tags text) (rest : List Char) : erase (text ++ rest) = erase rest := by
  obtain ⟨markers, rfl, each⟩ := tags
  induction markers with
  | nil => rfl
  | cons marker others inductionHypothesis =>
      obtain ⟨first, later⟩ := List.forall_mem_cons.mp each
      rw [List.flatten_cons, List.append_assoc, erase_marker first, inductionHypothesis later]

/-- Erasing a text deletes the tags behind it. -/
theorem erase_append_right (tags : Tags text) (front : List Char) :
    erase (front ++ text) = erase front := by
  have opens := tags.opens opens_nil
  rw [List.append_nil] at opens
  have alone := tags.erase_append []
  rw [List.append_nil] at alone
  rw [Marker.erase_append front opens, alone, erase_nil, List.append_nil]

theorem not_blank (tags : Tags text) : ∀ character ∈ text, Text.isBlank character = false := by
  obtain ⟨markers, rfl, each⟩ := tags
  intro character present
  obtain ⟨marker, listed, inside⟩ := List.mem_flatten.mp present
  exact ((each marker listed).not_blank character inside).1

theorem not_newline (tags : Tags text) : '\n' ∉ text :=
  fun newline => absurd (tags.not_blank _ newline) (by decide)

theorem head?_ne (tags : Tags text) {rest : List Char} (other : rest.head? ≠ some ' ') :
    (text ++ rest).head? ≠ some ' ' := by
  cases text with
  | nil => exact other
  | cons character others =>
      intro begins
      obtain rfl : character = ' ' := by simpa using begins
      exact absurd (tags.not_blank ' ' (by simp)) (by decide)

end Tags

end Marker
end Galley
