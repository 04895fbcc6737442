import Galley.Proofs.Wrap.Drafts
import Galley.Proofs.Wrap.Runs

/-!
# Breaks of marked texts

Markers do not change where a text is broken, as long as they part no word.  A run of
blanks that markers part is measured in pieces, but a break drops what is left of it, so
its pieces count as the whole run.  Only at the start of a hard line, where a run that
does not fit is dropped by itself, would they not.
-/

namespace Galley
namespace Wrap

open Marker Piece Text

/-! ## Joined pieces -/

/-- No markers stand between two characters of one word. -/
def WholeWords (symbols : List Symbol) : Prop :=
  ∀ before markers after, markers ≠ [] → (∀ symbol ∈ markers, Symbol.isMarker symbol = true) →
    .char before :: (markers ++ [.char after]) <:+: symbols →
      (isGraphic before && isGraphic after) = false

theorem WholeWords.part {symbols part : List Symbol} (words : WholeWords symbols)
    (inside : part <:+: symbols) : WholeWords part :=
  fun before markers after some marked within =>
    words before markers after some marked (within.trans inside)

/-- Put a run of blanks before pieces, as one with the run that they begin with. -/
def joinSpace (text : List Char) : List Piece → List Piece
  | .space next :: rest => .space (text ++ next) :: rest
  | pieces => .space text :: pieces

theorem exists_joinSpace (text : List Char) (pieces : List Piece) :
    ∃ longer rest, joinSpace text pieces = .space longer :: rest := by
  unfold joinSpace
  split <;> exact ⟨_, _, rfl⟩

/-- Pieces without markers, with runs of blanks that only markers part made one. -/
def joined : List Piece → List Piece
  | [] => []
  | .marker _ :: rest => joined rest
  | .space text :: rest => joinSpace text (joined rest)
  | .word text :: rest => .word text :: joined rest
  | .wide character :: rest => .wide character :: joined rest

/-- A blank joins the blanks behind it with or without markers. -/
theorem joined_consChar_of_blank {character : Char} (blank : isBlank character = true)
    (pieces : List Piece) :
    joined (consChar character pieces) = consChar character (joined pieces) := by
  unfold consChar
  rw [if_pos blank, if_pos blank]
  cases pieces with
  | nil => rfl
  | cons first rest =>
      cases first with
      | space text =>
          dsimp only [joined]
          cases joined rest with
          | nil => rfl
          | cons next others => cases next <;> rfl
      | marker text =>
          dsimp only [joined]
          cases joined rest with
          | nil => rfl
          | cons next others => cases next <;> rfl
      | word text => rfl
      | wide other => rfl

/-- Any other character joins what is behind it unless markers part it from a word. -/
theorem joined_consChar_of_shown {character : Char} (shown : isBlank character = false)
    {pieces : List Piece}
    (apart : ∀ first ∈ pieces.head?, first.isMarker = true →
      ∀ next ∈ (joined pieces).head?, (isGraphic character && next.isWord) = false) :
    joined (consChar character pieces) = consChar character (joined pieces) := by
  unfold consChar
  simp only [shown, Bool.false_eq_true, if_false]
  cases graphic : isGraphic character with
  | false => rfl
  | true =>
      simp only [if_true]
      cases pieces with
      | nil => rfl
      | cons first rest =>
          cases first with
          | marker text =>
              have other := apart (.marker text) rfl rfl
              rw [graphic] at other
              dsimp only [joined] at other ⊢
              cases found : joined rest with
              | nil => rfl
              | cons next others =>
                  cases next with
                  | word inner => cases other (.word inner) (by simp [found])
                  | _ => rfl
          | space text =>
              dsimp only [joined]
              cases joined rest with
              | nil => rfl
              | cons next others => cases next <;> rfl
          | word text => rfl
          | wide other => rfl

/-- The first piece is a word just where the character is graphic. -/
theorem isWord_of_consChar {character : Char} {pieces : List Piece} :
    ∀ piece ∈ (consChar character pieces).head?, piece.isWord = isGraphic character := by
  unfold consChar
  split
  · rename_i blank
    rw [isGraphic_eq_false_of_isBlank blank]
    split <;> simp [Piece.isWord]
  · split
    · rename_i graphic
      rw [graphic]
      split <;> simp [Piece.isWord]
    · rename_i other
      simpa [Piece.isWord] using other

/-- Where markers part no word, the joined pieces are those of the characters. -/
theorem joined_piecesOfSymbols {symbols : List Symbol} (words : WholeWords symbols) :
    joined (piecesOfSymbols symbols) = piecesOfSymbols ((Symbol.chars symbols).map .char) := by
  induction symbols with
  | nil => rfl
  | cons symbol rest inductionHypothesis =>
      have below := inductionHypothesis (words.part (List.suffix_cons symbol rest).isInfix)
      cases symbol with
      | marker marker => exact below
      | char character =>
          rw [Symbol.chars_char, List.map_cons, piecesOfSymbols, piecesOfSymbols, ← below]
          cases blank : isBlank character with
          | true => exact joined_consChar_of_blank blank _
          | false =>
              refine joined_consChar_of_shown blank fun first ahead marker next found => ?_
              rw [below] at found
              cases read : Symbol.chars rest with
              | nil =>
                  rw [read] at found
                  cases found
              | cons after more =>
                  obtain ⟨markers, back, rfl, marked⟩ := exists_of_chars_eq_cons read
                  have some : markers ≠ [] := by
                    rintro rfl
                    obtain ⟨piece, others, same, other⟩ :=
                      exists_consChar after (piecesOfSymbols back)
                    rw [List.nil_append, piecesOfSymbols, same] at ahead
                    rw [← Option.some.inj ahead, other] at marker
                    cases marker
                  rw [read, List.map_cons, piecesOfSymbols] at found
                  rw [isWord_of_consChar next found]
                  exact words character markers after some marked ⟨[], back, by simp⟩

/-- The joined pieces of a marked line are those of the erased line. -/
theorem joined_pieces {line : List Char} (words : WholeWords (Marker.symbols line)) :
    joined (pieces true line) = pieces false (erase line) :=
  joined_piecesOfSymbols words

/-! ## Drafts of joined pieces -/

namespace Draft

variable {draft : Draft} {budget : Nat}

/-- Blanks in two parts count as one run, once a draft has begun. -/
theorem Begun.addSpace_addSpace (begun : Begun draft) {front : List Char}
    (blank : allBlank front = true)
    (back : List Char) : (draft.addSpace budget front).addSpace budget back =
      draft.addSpace budget (front ++ back) := by
  have next := begun.addSpace budget front
  rcases begun.addSpace_cases budget front with ⟨idle, same⟩ | ⟨inked, ⟨full, same⟩ | ⟨-, same⟩⟩
  · rw [same, begun.addSpace_of_idle idle, begun.addSpace_of_idle idle]
  · -- What is left of the run is dropped behind the break.
    rw [same] at next ⊢
    rw [next.addSpace_of_idle draft.isIdle_breakLine, addSpace_of_full inked]
    rw [← List.append_assoc, Columns.ofText_append]
    omega
  · -- If the rest makes a break, then the part that fitted is trimmed.
    have inkedThen : (draft.push front).isIdle = false := by simp [inked]
    have parts : (draft.push front).pending ++ back = draft.pending ++ (front ++ back) :=
      List.append_assoc ..
    rw [same]
    rcases Nat.lt_or_ge budget (Columns.ofText (draft.pending ++ (front ++ back))) with full | room
    · rw [addSpace_of_full inkedThen (parts ▸ full), addSpace_of_full inked full]
      simp only [Draft.breakLine, push, trimEnd_append_of_blank _ blank]
    · rw [addSpace_of_room inkedThen (parts ▸ room), addSpace_of_room inked room]
      simp only [push, List.append_assoc]

theorem Begun.foldl_joinSpace (begun : Begun draft) {text : List Char}
    (blank : allBlank text = true)
    (pieces : List Piece) : (joinSpace text pieces).foldl (Draft.add budget) draft =
      pieces.foldl (Draft.add budget) (draft.addSpace budget text) := by
  unfold joinSpace
  split
  · rw [List.foldl_cons, List.foldl_cons, Draft.add, Draft.add, begun.addSpace_addSpace blank]
  · rfl

/-- Pieces do to a draft what their joined pieces do, once it has begun or where ink
begins it. -/
theorem foldl_joined {pieces : List Piece} (proper : ∀ piece ∈ pieces, Proper piece)
    (ready : Begun draft ∨ ∀ first ∈ (joined pieces).head?, first.isInk = true) :
    pieces.foldl (Draft.add budget) draft = (joined pieces).foldl (Draft.add budget) draft := by
  induction pieces generalizing draft with
  | nil => rfl
  | cons piece rest inductionHypothesis =>
      obtain ⟨first, others⟩ := List.forall_mem_cons.mp proper
      have inked (ink : piece.isInk = true) : Begun (draft.addInk budget piece.text) :=
        Begun.of_inked (isIdle_addInk (unblank_of_isInk first ink).1
          (unblank_of_isInk first ink).2 draft)
      cases piece with
      | marker text => exact inductionHypothesis others ready
      | word text => exact inductionHypothesis others (Or.inl (inked rfl))
      | wide character => exact inductionHypothesis others (Or.inl (inked rfl))
      | space text =>
          have begun : Begun draft := ready.resolve_right fun inky => by
            obtain ⟨longer, more, same⟩ := exists_joinSpace text (joined rest)
            cases inky (.space longer) (by rw [joined, same]; rfl)
          rw [joined, begun.foldl_joinSpace first]
          exact inductionHypothesis others (Or.inl (begun.addSpace budget text))

end Draft

/-! ## Wrapped texts -/

/-- Markers and blanks at the ends apart, a marked line is wrapped as the erased line
is. -/
theorem map_erase_wrapLine (budget : Nat) {line : List Char}
    (words : WholeWords (Marker.symbols line))
    (begins : ∀ first ∈ (erase line).head?, isBlank first = false) :
    (wrapLine true budget line).map (fun laid => Text.trimEnd (erase laid)) =
      wrapLine false budget (erase line) := by
  have ready : ∀ first ∈ (joined (pieces true line)).head?, first.isInk = true := by
    rw [joined_pieces words]
    cases text : erase line with
    | nil => simp
    | cons first rest =>
        have shown : isBlank first = false := begins first (by simp [text])
        obtain ⟨piece, others, parts, ink⟩ : ∃ piece others,
            pieces false (first :: rest) = piece :: others ∧ piece.isInk = true :=
          exists_pieces_of_begins ⟨first, rfl, shown⟩
        simpa [parts] using ink
  have measure := map_measured_wrapLine true budget line
  rw [Draft.foldl_joined (proper_pieces true line) (Or.inr ready), joined_pieces words,
    ← wrapLine_eq_lines] at measure
  exact measure

/-- Where markers part no word and no hard line begins with blanks, a text is broken as
it is without its markers: these apart, and the blanks that they kept at the ends of
lines, the lines are the same. -/
theorem trimEnd_erase_wrap {text : List Char} (words : WholeWords (Marker.symbols text))
    (begins : ∀ line ∈ lines text, ∀ first ∈ (erase line).head?, isBlank first = false)
    (width : Int) :
    unlines ((lines (erase (wrap true width text))).map Text.trimEnd) =
      wrap false width (erase text) := by
  have each : ∀ line ∈ lines text,
      (wrapLine true (budget width) line).map (fun laid => Text.trimEnd (erase laid)) =
        wrapLine false (budget width) (erase line) := fun line listed =>
    map_erase_wrapLine _ (words.part (symbols_infix_of_mem_lines listed)) (begins line listed)
  calc unlines ((lines (erase (wrap true width text))).map Text.trimEnd)
      = unlines ((lines text).flatMap fun line =>
          (wrapLine true (budget width) line).map fun laid => Text.trimEnd (erase laid)) := by
        rw [lines_erase, lines_wrap, List.map_map, List.map_flatMap]
        rfl
    _ = unlines ((lines text).flatMap fun line => wrapLine false (budget width) (erase line)) := by
        rw [List.flatMap_congr each]
    _ = wrap false width (erase text) := by
        rw [wrap, lines_erase, List.flatMap_map]

/-- A line with markers among its blanks, between its wide characters, and at its end. -/
def strewnLine : List Char := ("to <SPAN:link>  bé<SPAN:link>è or <BLOCK:note>").toList

theorem trimEnd_erase_wrap_strewnLine :
    WholeWords (Marker.symbols strewnLine) ∧
      (∀ line ∈ lines strewnLine, ∀ first ∈ (erase line).head?, isBlank first = false) ∧
      wrap true 5 strewnLine = ("to\n<SPAN:link>bé<SPAN:link>è\nor <BLOCK:note>").toList ∧
      unlines ((lines (erase (wrap true 5 strewnLine))).map Text.trimEnd) =
        ("to\nbéè\nor").toList := by
  have words : WholeWords (Marker.symbols strewnLine) := by
    have read : Marker.symbols strewnLine =
        [.char 't', .char 'o', .char ' ', .marker ("<SPAN:link>").toList, .char ' ', .char ' ',
          .char 'b', .char 'é', .marker ("<SPAN:link>").toList, .char 'è', .char ' ',
          .char 'o', .char 'r', .char ' ', .marker ("<BLOCK:note>").toList] := by
      decide +kernel
    rw [read]
    rintro before (_ | ⟨marker, others⟩) after some marked inside
    · exact absurd rfl some
    · -- No graphic character stands before a marker.
      have first := marked marker (List.mem_cons_self ..)
      have plain : before = ' ' ∨ before = 'é' := by
        simp only [List.infix_cons_iff, List.cons_append, List.cons_prefix_cons,
          Symbol.char.injEq] at inside
        grind [Symbol.isMarker]
      rcases plain with rfl | rfl <;> rfl
  have begins : ∀ line ∈ lines strewnLine, ∀ first ∈ (erase line).head?, isBlank first = false := by
    have one : lines strewnLine = [strewnLine] := by decide +kernel
    have head : (erase strewnLine).head? = some 't' := by decide +kernel
    rw [one]
    refine List.forall_mem_singleton.mpr fun first found => ?_
    rw [head] at found
    obtain rfl := Option.some.inj found
    rfl
  refine ⟨words, begins, by decide +kernel, ?_⟩
  rw [trimEnd_erase_wrap words begins]
  decide +kernel

end Wrap
end Galley
