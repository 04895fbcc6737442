import Galley.Proofs.Wrap.Tracking
import Mathlib.Data.List.Flatten

/-!
# Wrapping marked texts

Wrapping only deletes characters of a line, so its lines hold no newline.  Where markers
part no word and no run of blanks, the lines of a wrapped marked text stand for those of
the wrapped erased text.
-/

namespace Galley
namespace Wrap

open Marker Piece Text

/-! ## Wrapping deletes -/

namespace Filler

/-- All that a filler holds. -/
def spelled (filler : Filler) : List Char :=
  filler.finished.flatMap Piece.spell ++ Piece.spell filler.pending

theorem spell_sublist {pieces others : List Piece} (sublist : pieces.Sublist others) :
    (Piece.spell pieces).Sublist (Piece.spell others) :=
  sublist.flatMap Piece.text

variable (filler : Filler)

@[simp] theorem spelled_push (piece : Piece) :
    (filler.push piece).spelled = filler.spelled ++ piece.text := by
  simp [spelled, push]

theorem spelled_breakLine : filler.breakLine.spelled.Sublist filler.spelled := by
  obtain ⟨body, attached, dropped, whole, -, -, -, cutLine⟩ := exists_cut filler.pending
  have kept : (Piece.spell (dropped.filter Piece.isMarker)).Sublist (Piece.spell dropped) :=
    spell_sublist List.filter_sublist
  unfold spelled breakLine
  rw [cutLine]
  dsimp only
  rw [whole, List.flatMap_append, List.append_assoc, Piece.spell_append]
  refine (List.Sublist.refl _).append ?_
  simpa using (List.Sublist.refl (Piece.spell body ++ Piece.spell attached)).append kept

theorem spelled_dropSpace : filler.dropSpace.spelled.Sublist filler.spelled :=
  (List.Sublist.refl _).append (spell_sublist List.filter_sublist)

theorem spelled_addSpace (budget : Nat) (text : List Char) :
    (filler.addSpace budget text).spelled.Sublist (filler.spelled ++ text) := by
  have longer : filler.spelled.Sublist (filler.spelled ++ text) := List.sublist_append_left _ _
  unfold addSpace
  split
  · exact longer
  · split
    · split
      · exact filler.spelled_breakLine.trans longer
      · exact filler.spelled_dropSpace.trans longer
    · simp [Piece.text]

theorem spelled_addParts (budget : Nat) (word : List Char) :
    (word.foldl (addPart budget) filler).spelled.Sublist (filler.spelled ++ word) := by
  induction word generalizing filler with
  | nil => simp
  | cons character rest inductionHypothesis =>
      have added : (filler.addPart budget character).spelled.Sublist
          (filler.spelled ++ [character]) := by
        unfold addPart
        dsimp only
        split
        · rw [spelled_push]
          exact filler.spelled_breakLine.append (List.Sublist.refl _)
        · rw [spelled_push]
          exact List.Sublist.refl _
      have all := (inductionHypothesis (filler.addPart budget character)).trans
        (added.append (List.Sublist.refl rest))
      simpa using all

theorem spelled_addInk (budget : Nat) (piece : Piece) :
    (filler.addInk budget piece).spelled.Sublist (filler.spelled ++ piece.text) := by
  unfold addInk
  split
  · simp
  · have fresh : (if filler.hasInk then filler.breakLine else filler.dropSpace).spelled.Sublist
        filler.spelled := by
      split
      · exact filler.spelled_breakLine
      · exact filler.spelled_dropSpace
    dsimp only
    split
    · rw [spelled_push]
      exact fresh.append (List.Sublist.refl _)
    · exact (spelled_addParts _ budget piece.text).trans (fresh.append (List.Sublist.refl _))

theorem spelled_addAll (budget : Nat) (pieces : List Piece) :
    (pieces.foldl (add budget) filler).spelled.Sublist (filler.spelled ++ Piece.spell pieces) := by
  induction pieces generalizing filler with
  | nil => simp
  | cons piece rest inductionHypothesis =>
      have added : (filler.add budget piece).spelled.Sublist (filler.spelled ++ piece.text) := by
        cases piece with
        | marker text => exact (filler.spelled_push _) ▸ List.Sublist.refl _
        | space text => exact filler.spelled_addSpace budget text
        | word text => exact filler.spelled_addInk budget _
        | wide character => exact filler.spelled_addInk budget _
      have all := (inductionHypothesis (filler.add budget piece)).trans
        (added.append (List.Sublist.refl (Piece.spell rest)))
      simpa using all

theorem spelled_lines : (filler.lines.flatMap Piece.spell).Sublist filler.spelled := by
  unfold lines spelled
  split
  · rw [List.flatMap_append]
    have kept : (trimEnd filler.pending).Sublist filler.pending :=
      dropEndWhile_sublist Piece.isSpace filler.pending
    simpa using (List.Sublist.refl (filler.finished.flatMap Piece.spell)).append
      (spell_sublist kept)
  · rename_i started
    have some : filler.finished ≠ [] := by
      intro none
      simp [none] at started
    rw [flatMap_spell_attach some]

end Filler

/-- The lines of a hard line are what is left of it when some characters are deleted. -/
theorem flatten_wrapLine_sublist (markers : Bool) (budget : Nat) (line : List Char) :
    (wrapLine markers budget line).flatten.Sublist line := by
  have filled := (Filler.spelled_lines _).trans
    (Filler.spelled_addAll {} budget (pieces markers line))
  rw [spell_pieces] at filled
  have joined : (wrapLine markers budget line).flatten =
      (fill budget (pieces markers line)).flatMap Piece.spell := by
    rw [wrapLine, List.flatMap_def]
  rw [joined]
  exact filled

theorem not_mem_of_mem_wrapLine {markers : Bool} {budget : Nat} {line laid : List Char}
    (whole : '\n' ∉ line) (present : laid ∈ wrapLine markers budget line) : '\n' ∉ laid :=
  fun newline => whole ((flatten_wrapLine_sublist markers budget line).subset
    (List.mem_flatten.mpr ⟨laid, present, newline⟩))

/-! ## Lines that show nothing -/

theorem isSpace_of_blanks {blanks : List Char} (blank : allBlank blanks = true) :
    ∀ piece ∈ piecesOfSymbols (blanks.map .char), piece.isSpace = true := by
  induction blanks with
  | nil => simp [piecesOfSymbols]
  | cons character rest inductionHypothesis =>
      obtain ⟨first, others⟩ : isBlank character = true ∧ allBlank rest = true := by
        simpa [allBlank] using blank
      have below := inductionHypothesis others
      rw [List.map_cons, piecesOfSymbols]
      unfold consChar
      rw [if_pos first]
      split
      · rename_i found
        rw [found] at below
        exact List.forall_mem_cons.mpr ⟨rfl, (List.forall_mem_cons.mp below).2⟩
      · exact List.forall_mem_cons.mpr ⟨rfl, below⟩

/-- A marked line without blanks before its markers is made of markers and then of
blanks. -/
theorem exists_pieces_of_blank {line : List Char} (loose : erase (Text.trimEnd line) = []) :
    ∃ markers spaces, pieces true line = markers ++ spaces ∧
      (∀ piece ∈ markers, piece.isMarker = true) ∧ ∀ piece ∈ spaces, piece.isSpace = true := by
  obtain ⟨tail, whole, tailBlank⟩ := exists_trimEnd line
  have read : Marker.symbols line = Marker.symbols (Text.trimEnd line) ++ tail.map .char := by
    conv_lhs => rw [← whole]
    rw [symbols_append _ (opens_of_allBlank tailBlank),
      symbols_of_unmarked (unmarked_of_allBlank tailBlank)]
  have front (symbols : List Symbol) (bareFront : Symbol.chars symbols = []) :
      ∃ markers, piecesOfSymbols (symbols ++ tail.map .char) =
          markers ++ piecesOfSymbols (tail.map .char) ∧
        ∀ piece ∈ markers, piece.isMarker = true := by
    induction symbols with
    | nil => exact ⟨[], rfl, by simp⟩
    | cons symbol rest inductionHypothesis =>
        cases symbol with
        | char character => cases bareFront
        | marker marker =>
            obtain ⟨markers, found, marked⟩ := inductionHypothesis bareFront
            refine ⟨.marker marker :: markers, ?_, List.forall_mem_cons.mpr ⟨rfl, marked⟩⟩
            rw [List.cons_append, piecesOfSymbols, found, List.cons_append]
  obtain ⟨markers, found, marked⟩ := front _ loose
  refine ⟨markers, _, ?_, marked, isSpace_of_blanks tailBlank⟩
  rw [pieces, if_pos rfl, read, found]

theorem foldl_add_markers (budget : Nat) {markers : List Piece}
    (marked : ∀ piece ∈ markers, piece.isMarker = true) (filler : Filler) :
    markers.foldl (Filler.add budget) filler =
      { filler with pending := filler.pending ++ markers } := by
  induction markers generalizing filler with
  | nil => simp
  | cons piece rest inductionHypothesis =>
      obtain ⟨first, others⟩ := List.forall_mem_cons.mp marked
      cases piece with
      | marker text =>
          rw [List.foldl_cons, inductionHypothesis others]
          simp [Filler.add, Filler.push]
      | space text => cases first
      | word text => cases first
      | wide character => cases first

/-- Blanks behind markers are kept or dropped; no line is finished. -/
theorem foldl_add_spaces (budget : Nat) {spaces : List Piece}
    (blank : ∀ piece ∈ spaces, piece.isSpace = true) {markers kept : List Piece}
    (marked : ∀ piece ∈ markers, piece.isMarker = true)
    (keptBlank : ∀ piece ∈ kept, piece.isSpace = true) :
    ∃ left, (∀ piece ∈ left, piece.isSpace = true) ∧
      spaces.foldl (Filler.add budget) { finished := [], pending := markers ++ kept } =
        { finished := [], pending := markers ++ left } := by
  induction spaces generalizing kept with
  | nil => exact ⟨kept, keptBlank, rfl⟩
  | cons piece rest inductionHypothesis =>
      obtain ⟨first, others⟩ := List.forall_mem_cons.mp blank
      have noInk : Filler.hasInk { finished := [], pending := markers ++ kept } = false := by
        refine List.any_eq_false.mpr fun other present => ?_
        rcases List.mem_append.mp present with inside | outside
        · simp [isInk_of_isMarker (marked other inside)]
        · simp [isInk_of_isSpace (keptBlank other outside)]
      cases piece with
      | marker text => cases first
      | word text => cases first
      | wide character => cases first
      | space text =>
          rw [List.foldl_cons, Filler.add, Filler.addSpace, noInk]
          simp only [List.isEmpty_nil, Bool.not_true, Bool.false_and, Bool.false_eq_true, if_false]
          split
          · have dropped : Filler.dropSpace { finished := [], pending := markers ++ kept } =
                { finished := [], pending := markers ++ [] } := by
              have front : markers.filter Piece.isMarker = markers :=
                List.filter_eq_self.mpr marked
              have back : kept.filter Piece.isMarker = [] := by
                refine List.filter_eq_nil_iff.mpr fun other present => ?_
                have space := keptBlank other present
                cases other with
                | space text => simp [Piece.isMarker]
                | marker text => cases space
                | word text => cases space
                | wide character => cases space
              simp [Filler.dropSpace, front, back]
            rw [dropped]
            exact inductionHypothesis others (by simp)
          · have longer : Filler.push { finished := [], pending := markers ++ kept } (.space text) =
                { finished := [], pending := markers ++ (kept ++ [.space text]) } := by
              simp [Filler.push]
            rw [longer]
            refine inductionHypothesis others fun other present => ?_
            rcases List.mem_append.mp present with before | last
            · exact keptBlank other before
            · rw [List.mem_singleton.mp last]
              rfl

/-- Of a line of markers and blanks the markers are left. -/
theorem fill_loose (budget : Nat) {markers spaces : List Piece}
    (marked : ∀ piece ∈ markers, piece.isMarker = true)
    (blank : ∀ piece ∈ spaces, piece.isSpace = true) :
    fill budget (markers ++ spaces) = [markers] := by
  have none : ∀ piece ∈ ([] : List Piece), piece.isSpace = true := by simp
  obtain ⟨left, leftBlank, filled⟩ := foldl_add_spaces budget blank marked none
  rw [List.append_nil] at filled
  rw [fill, List.foldl_append, foldl_add_markers budget marked]
  change Filler.lines (spaces.foldl (Filler.add budget) { finished := [], pending := markers }) = _
  rw [filled, Filler.lines, List.isEmpty_nil, Bool.or_true, if_pos rfl, List.nil_append]
  have trimmed : Filler.trimEnd (markers ++ left) = markers := by
    rw [Filler.trimEnd, dropEndWhile, List.reverse_append, List.dropWhile_append_of_pos]
    · cases ends : markers.reverse with
      | nil =>
          rw [List.reverse_eq_nil_iff.mp ends]
          rfl
      | cons last others =>
          have member : last ∈ markers := List.mem_reverse.mp (by simp [ends])
          have apart : ¬ last.isSpace = true := by
            have marker := marked last member
            cases last with
            | marker text => simp [Piece.isSpace]
            | space text => cases marker
            | word text => cases marker
            | wide character => cases marker
          rw [List.dropWhile_cons_of_neg apart, ← ends, List.reverse_reverse]
    · exact fun piece present => leftBlank piece (List.mem_reverse.mp present)
  rw [trimmed]

/-! ## Wrapped lines -/

/-- A filler without markers that shows something has a word, or a line that was
finished. -/
theorem Filler.Holds.begun {filler : Filler} {shown : List Char} (holds : filler.Holds shown)
    (some : shown ≠ []) (unmarked : ∀ piece ∈ filler.pending, piece.isMarker = false) :
    filler.hasInk = true ∨ filler.finished ≠ [] := by
  by_contra neither
  obtain ⟨noInk, none⟩ := not_or.mp neither
  have dropped := Filler.ink_dropSpace holds.blank (by simpa using noInk)
  have empty : filler.pending.filter Piece.isMarker = [] := by
    refine List.filter_eq_nil_iff.mpr fun piece present => ?_
    simp [unmarked piece present]
  rw [holds.ink, Filler.ink, Filler.dropSpace, empty, not_not.mp none] at dropped
  exact some dropped.symm

/-- The filler of a marked line tracks the filler of its pieces without markers. -/
theorem tracks_pieces (budget : Nat) (line : List Char) :
    Filler.Tracks (Marker.symbols line) ((pieces true line).foldl (Filler.add budget) {})
      ((bare (pieces true line)).foldl (Filler.add budget) {}) := by
  have expanded : expand (pieces true line) = Marker.symbols line :=
    expand_piecesOfSymbols (Marker.symbols line)
  have tracks := Filler.Tracks.start.addAll budget (proper_pieces true line)
    (by simpa [expanded] using legible_symbols line)
  rwa [expanded, List.nil_append] at tracks

/-- Where a marked line shows something, its filler has text. -/
theorem begun_pieces (budget : Nat) {line : List Char} (shown : allBlank (erase line) = false) :
    ((pieces true line).foldl (Filler.add budget) {}).hasInk = true ∨
      ((pieces true line).foldl (Filler.add budget) {}).finished ≠ [] := by
  have tracks := tracks_pieces budget line
  have blank : SpacesBlank (bare (pieces true line)) := fun text present =>
    spacesBlank_pieces true line text (List.mem_of_mem_filter present)
  have start : Filler.Holds {} [] := ⟨rfl, fun text present => by cases present⟩
  have holds := start.addAll budget blank
  have expanded : expand (pieces true line) = Marker.symbols line :=
    expand_piecesOfSymbols (Marker.symbols line)
  rw [List.nil_append, ← chars_expand, expanded, ← erase_eq_chars] at holds
  have some : ink (erase line) ≠ [] := fun empty => by
    rw [ink_eq_nil_iff.mp empty] at shown
    cases shown
  have begun := holds.begun some fun piece present =>
    isMarker_of_mem_bare (tracks.pending ▸ present)
  rw [tracks.hasInk_eq]
  refine begun.imp_right fun nonempty none => nonempty ?_
  rw [← tracks.finished, none]
  rfl

/-- Where a marked line shows something, so do all lines that it is wrapped into. -/
theorem shown_of_mem_wrapLine (budget : Nat) {line : List Char}
    (shown : allBlank (erase line) = false) :
    ∀ laid ∈ wrapLine true budget line, allBlank (erase laid) = false :=
  List.forall_mem_map.mpr
    ((tracks_pieces budget line).lines_shown (legible_symbols line) (begun_pieces budget shown))

/-- The lines of a parted hard line stand for the lines of the erased line. -/
theorem wrapLine_matches (budget : Nat) {line : List Char}
    (parted : Parted (Marker.symbols line)) (whole : '\n' ∉ line)
    (loose : allBlank (erase line) = true → erase (Text.trimEnd line) = []) :
    List.Forall₂ Filler.Matches (wrapLine true budget line)
      (wrapLine false budget (erase line)) := by
  have erasedWhole : '\n' ∉ erase line := fun newline => whole (mem_of_mem_erase newline)
  have expanded : expand (pieces true line) = Marker.symbols line :=
    expand_piecesOfSymbols (Marker.symbols line)
  have legible : Legible (expand (pieces true line)) := expanded ▸ legible_symbols line
  cases blank : allBlank (erase line) with
  | true =>
      obtain ⟨markers, spaces, found, marked, blanks⟩ := exists_pieces_of_blank (loose blank)
      have front : Legible (expand markers) := by
        rw [found, expand_append] at legible
        exact legible.part (List.prefix_append _ _).isInfix
      have none : ∀ piece ∈ ([] : List Piece), piece.isMarker = true := by simp
      have plain := fill_loose budget none (isSpace_of_blanks blank)
      have laid : wrapLine true budget line = [Piece.spell markers] := by
        rw [wrapLine, found, fill_loose budget marked blanks]
        rfl
      have laidPlain : wrapLine false budget (erase line) = [[]] :=
        congrArg (List.map Piece.spell) plain
      rw [laid, laidPlain]
      refine List.Forall₂.cons (Filler.Matches.of_erase ?_) List.Forall₂.nil
      rw [erase_spell_pieces front, bare_of_isMarker marked]
      rfl
  | false =>
      have same := bare_pieces parted erasedWhole
      have tracks := tracks_pieces budget line
      rw [same] at tracks
      exact tracks.lines (legible_symbols line) (begun_pieces budget blank)

/-- Text that can be wrapped alike with and without markers: no marker parts a word or a
run of blanks, and lines that show nothing have no blanks before their markers. -/
structure Wrappable (text : List Char) : Prop where
  /-- Markers stand between pieces. -/
  parted : Parted (Marker.symbols text)
  /-- Lines that show nothing begin with their markers. -/
  loose : ∀ line ∈ lines text, allBlank (erase line) = true → erase (Text.trimEnd line) = []

instance : DecidablePred Wrappable := fun text =>
  decidable_of_iff (Parted (Marker.symbols text) ∧
      ∀ line ∈ lines text, allBlank (erase line) = true → erase (Text.trimEnd line) = [])
    ⟨fun ⟨parted, loose⟩ => ⟨parted, loose⟩, fun wrappable => ⟨wrappable.parted, wrappable.loose⟩⟩

/-- Texts with a newline between them are wrapped by themselves. -/
theorem wrappable_append_newline {front back : List Char}
    (wrappable : Wrappable (front ++ '\n' :: back)) : Wrappable front ∧ Wrappable back := by
  have newline : Marker.symbols ('\n' :: back) = .char '\n' :: Marker.symbols back :=
    symbols_cons (length?_eq_none_of_ne back (by decide))
  obtain ⟨parted, loose⟩ := wrappable
  rw [symbols_append front (opens_newline back), newline] at parted
  rw [lines_append_newline] at loose
  constructor
  · exact ⟨parted.part (List.prefix_append _ _).isInfix,
      fun line present => loose line (List.mem_append_left _ present)⟩
  · exact ⟨parted.part ((List.suffix_cons _ _).trans (List.suffix_append _ _)).isInfix,
      fun line present => loose line (List.mem_append_right _ present)⟩

theorem wrapLine_ne_nil (markers : Bool) (budget : Nat) (line : List Char) :
    wrapLine markers budget line ≠ [] := by
  have filled (filler : Filler) : filler.lines ≠ [] := by
    unfold Filler.lines
    split
    · simp
    · rename_i started
      cases found : filler.finished with
      | nil => simp [found] at started
      | cons first others => cases others <;> simp [Filler.attach]
  simpa [wrapLine, fill] using filled _

/-- The lines of a wrapped text are those that its hard lines are wrapped into. -/
theorem lines_wrap (markers : Bool) (width : Int) (text : List Char) :
    lines (wrap markers width text) =
      (lines text).flatMap (wrapLine markers (budget width)) := by
  refine lines_unlines ?_ fun laid present => ?_
  · obtain ⟨first, rest, found⟩ := List.exists_cons_of_ne_nil (lines_ne_nil text)
    simp [found, wrapLine_ne_nil]
  · obtain ⟨line, listed, inside⟩ := List.mem_flatMap.mp present
    exact not_mem_of_mem_wrapLine (not_mem_of_mem_lines listed) inside

/-- Lines of a marked text stand for lines of the erased text. -/
structure Stands (text : List Char) (marked plain : List (List Char)) : Prop where
  /-- The lines match one by one. -/
  matched : List.Forall₂ Filler.Matches marked plain
  /-- Marked lines hold no newline. -/
  whole : ∀ line ∈ marked, '\n' ∉ line
  /-- Neither do plain lines. -/
  plainWhole : ∀ line ∈ plain, '\n' ∉ line
  /-- There is a line. -/
  nonempty : marked ≠ []
  /-- Lines are made of the characters of the text. -/
  within : ∀ line ∈ marked, ∀ character ∈ line, character ∈ text
  /-- Where the first line of the text shows something, so does the first of the lines. -/
  head : (∀ line ∈ (lines text).head?, allBlank (erase line) = false) →
    ∀ line ∈ marked.head?, allBlank (erase line) = false

/-- The lines of a text stand for those of the erased text. -/
theorem stands_lines (text : List Char) : Stands text (lines text) (lines (erase text)) := by
  refine ⟨?_, fun line => not_mem_of_mem_lines, fun line => not_mem_of_mem_lines,
    lines_ne_nil text, fun line present => (infix_of_mem_lines present).subset, id⟩
  rw [lines_erase]
  generalize lines text = texts
  induction texts with
  | nil => exact List.Forall₂.nil
  | cons line rest inductionHypothesis =>
      exact List.Forall₂.cons (Filler.Matches.of_erase rfl) inductionHypothesis

/-- The lines of a wrapped marked text stand for the lines of the wrapped erased text. -/
theorem stands_wrap (width : Int) {text : List Char} (wrappable : Wrappable text) :
    ∃ marked plain, wrap true width text = unlines marked ∧
      wrap false width (erase text) = unlines plain ∧ Stands text marked plain := by
  have each : ∀ line ∈ lines text, List.Forall₂ Filler.Matches
      (wrapLine true (budget width) line) (wrapLine false (budget width) (erase line)) :=
    fun line present => wrapLine_matches _
      (wrappable.parted.part (symbols_infix_of_mem_lines present))
      (not_mem_of_mem_lines present) (wrappable.loose line present)
  have whole (markers : Bool) (marked : List Char) : ∀ line ∈
      (lines marked).flatMap (wrapLine markers (budget width)), '\n' ∉ line := by
    rw [← lines_wrap]
    exact fun line => not_mem_of_mem_lines
  refine ⟨_, _, rfl, rfl, ?_, whole true text, whole false (erase text), ?_, ?_, ?_⟩
  · rw [lines_erase, List.flatMap_map]
    generalize lines text = texts at each ⊢
    induction texts with
    | nil => exact List.Forall₂.nil
    | cons line rest inductionHypothesis =>
        obtain ⟨first, others⟩ := List.forall_mem_cons.mp each
        exact List.rel_append first (inductionHypothesis others)
  · obtain ⟨first, rest, found⟩ := List.exists_cons_of_ne_nil (lines_ne_nil text)
    simp [found, wrapLine_ne_nil]
  · intro laid present character inside
    obtain ⟨line, listed, among⟩ := List.mem_flatMap.mp present
    refine (infix_of_mem_lines listed).subset ?_
    exact (flatten_wrapLine_sublist true _ line).subset
      (List.mem_flatten.mpr ⟨laid, among, inside⟩)
  · intro shown line present
    obtain ⟨first, rest, found⟩ := List.exists_cons_of_ne_nil (lines_ne_nil text)
    obtain ⟨laid, more, wrapped⟩ :=
      List.exists_cons_of_ne_nil (wrapLine_ne_nil true (budget width) first)
    rw [found, List.flatMap_cons, wrapped] at present
    obtain rfl : laid = line := by simpa using present
    exact shown_of_mem_wrapLine (budget width) (shown first (by simp [found])) laid
      (by simp [wrapped])

end Wrap
end Galley
