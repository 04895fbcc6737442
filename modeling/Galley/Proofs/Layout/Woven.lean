import Galley.Proofs.Layout.Filling
import Galley.Proofs.Layout.Placeholders
import Galley.Proofs.Layout.Traced

/-!
# Span text with tags

Span text is a row of pieces with placeholders of held code between them.  Without its
tags it is plain span text, which is cut at the same placeholders.  A third text has a
lone NUL in the place of each code; it depends on no index, so it tells of a tree how
its span text may be wrapped and joined.
-/

namespace Galley
namespace Layout

open Marker Text

/-- Span text with tags, the same text without tags, and the tagged text with a sign for
each code.  The codes are sealed at the indentation of the span. -/
inductive Woven (codes codes' : List (List Char)) (indent : Nat) :
    List Char → List Char → List Char → Prop
  /-- A piece. -/
  | piece {piece : List Char} :
      NulFree piece → PlainBlanks piece → Woven codes codes' indent piece (erase piece) piece
  /-- A piece, a placeholder and what follows. -/
  | code {piece : List Char} {index : Nat} {code code' marked plain traced : List Char} :
      NulFree piece → PlainBlanks piece →
      codes[index]? = some code → codes'[index]? = some code' → Sealed indent code code' →
      Woven codes codes' indent marked plain traced →
        Woven codes codes' indent (piece ++ (placeholder index ++ marked))
          (erase piece ++ (placeholder index ++ plain)) (piece ++ (codeSign ++ traced))

theorem plainBlanks_nil : PlainBlanks [] := fun _ absent => by cases absent

theorem plainBlanks_append {first second : List Char} :
    PlainBlanks (first ++ second) ↔ PlainBlanks first ∧ PlainBlanks second := by
  refine ⟨fun both => ⟨both.mono fun _ => List.mem_append_left _,
    both.mono fun _ => List.mem_append_right _⟩, fun both character present => ?_⟩
  exact (List.mem_append.mp present).elim (both.1 character) (both.2 character)

theorem plainBlanks_of_isMarker {marker : List Char} (isMarker : IsMarker marker) :
    PlainBlanks marker := fun character present blank => by
  rw [(isMarker.not_blank character present).1] at blank
  cases blank

theorem nulFree_of_isMarker {marker : List Char} (isMarker : IsMarker marker) : NulFree marker :=
  fun present => (isMarker.not_blank _ present).2 rfl

theorem opens_append {front back : List Char} (left : Opens front) (right : Opens back) :
    Opens (front ++ back) := by
  cases front with
  | nil => exact right
  | cons character rest => exact left

/-- Only the first character decides what a text goes on with. -/
theorem opens_of_append {front back : List Char} (opens : Opens (front ++ back)) :
    Opens front := by
  cases front with
  | nil => exact opens_nil
  | cons character rest => exact opens

theorem opens_sign (rest : List Char) : Opens (codeSign ++ rest) :=
  opens_of_blank (Or.inr rfl) rest

theorem not_bracket_placeholder (index : Nat) : '<' ∉ placeholder index := by
  have plain : '<' ∉ Nat.toDigits 10 index := fun present =>
    absurd (Nat.isDigit_of_mem_toDigits (by decide) (by decide) present) (by decide)
  simp [placeholder, plain]

theorem opens_placeholder (index : Nat) (rest : List Char) : Opens (placeholder index ++ rest) :=
  opens_of_blank (Or.inr rfl) _

namespace Woven

variable {codes codes' : List (List Char)} {indent : Nat} {marked plain traced : List Char}

theorem nil : Woven codes codes' indent [] [] [] :=
  piece nulFree_nil plainBlanks_nil

/-- A piece may be put before what begins with a tag or with code. -/
theorem prepend {front : List Char} (nulFree : NulFree front) (blanks : PlainBlanks front)
    (stands : Woven codes codes' indent marked plain traced) (opens : Opens marked) :
    Woven codes codes' indent (front ++ marked) (erase front ++ plain) (front ++ traced) := by
  cases stands with
  | piece nulFree' blanks' =>
      rw [← erase_append front opens]
      exact piece (nulFree_append.mpr ⟨nulFree, nulFree'⟩)
        (plainBlanks_append.mpr ⟨blanks, blanks'⟩)
  | code nulFree' blanks' found found' pair stands =>
      have joined := erase_append front (opens_of_append opens)
      simp only [← List.append_assoc] at joined ⊢
      rw [← joined]
      simp only [List.append_assoc _ (placeholder _), List.append_assoc _ codeSign]
      exact code (nulFree_append.mpr ⟨nulFree, nulFree'⟩)
        (plainBlanks_append.mpr ⟨blanks, blanks'⟩) found found' pair stands

theorem append {marked' plain' traced' : List Char}
    (left : Woven codes codes' indent marked plain traced)
    (right : Woven codes codes' indent marked' plain' traced') (opens : Opens marked') :
    Woven codes codes' indent (marked ++ marked') (plain ++ plain') (traced ++ traced') := by
  induction left with
  | piece nulFree blanks => exact right.prepend nulFree blanks opens
  | code nulFree blanks found found' pair _ inductionHypothesis =>
      simp only [List.append_assoc]
      exact code nulFree blanks found found' pair inductionHypothesis

/-- A tag may be put before span text. -/
theorem tag {marker : List Char} (isMarker : IsMarker marker)
    (stands : Woven codes codes' indent marked plain traced) :
    Woven codes codes' indent (marker ++ marked) plain (marker ++ traced) := by
  have nulFree := nulFree_of_isMarker isMarker
  have blanks := plainBlanks_of_isMarker isMarker
  cases stands with
  | piece nulFree' blanks' =>
      rw [← erase_marker isMarker marked]
      exact Woven.piece (nulFree_append.mpr ⟨nulFree, nulFree'⟩)
        (plainBlanks_append.mpr ⟨blanks, blanks'⟩)
  | @code text _ _ _ _ _ _ nulFree' blanks' found found' pair stands =>
      rw [← erase_marker isMarker text, ← List.append_assoc, ← List.append_assoc marker]
      exact code (nulFree_append.mpr ⟨nulFree, nulFree'⟩)
        (plainBlanks_append.mpr ⟨blanks, blanks'⟩) found found' pair stands

/-- A span stands between its tags. -/
theorem enclose {kind tagClass : List Char} (stands : Woven codes codes' indent marked plain traced)
    (opened : IsMarker (opening tagClass kind)) (closed : IsMarker (closing tagClass kind)) :
    Woven codes codes' indent (Layout.enclose tagClass kind marked) plain
      (Layout.enclose tagClass kind traced) := by
  have last : Woven codes codes' indent (closing tagClass kind ++ []) [] _ := nil.tag closed
  have both := (stands.append last ((Tags.of_isMarker closed).opens opens_nil)).tag opened
  simpa [Layout.enclose] using both

/-- More held code changes nothing. -/
theorem extend {later later' : List (List Char)}
    (stands : Woven codes codes' indent marked plain traced)
    (grown : codes <+: later) (grown' : codes' <+: later') :
    Woven later later' indent marked plain traced := by
  obtain ⟨more, rfl⟩ := grown
  obtain ⟨more', rfl⟩ := grown'
  induction stands with
  | piece nulFree blanks => exact piece nulFree blanks
  | code nulFree blanks found found' pair _ inductionHypothesis =>
      exact code nulFree blanks (getElem?_held found more) (getElem?_held found' more') pair
        inductionHypothesis

/-- Code that was just held. -/
theorem held {code code' : List Char} (same : codes.length = codes'.length)
    (stands : Sealed indent code code') :
    Woven (codes ++ [code]) (codes' ++ [code']) indent (placeholder codes.length)
      (placeholder codes'.length) codeSign := by
  have found' : (codes' ++ [code'])[codes.length]? = some code' := by
    rw [same, List.getElem?_concat_length]
  have alone : Woven (codes ++ [code]) (codes' ++ [code']) indent _ _ _ :=
    Woven.code nulFree_nil plainBlanks_nil List.getElem?_concat_length found' stands nil
  simpa [same] using alone

/-- The plain text is the marked one without its tags. -/
theorem erase_eq (stands : Woven codes codes' indent marked plain traced) :
    erase marked = plain := by
  induction stands with
  | piece => rfl
  | @code _ index _ _ _ _ _ _ _ _ _ _ _ inductionHypothesis =>
      rw [erase_append _ (opens_placeholder _ _), erase_append_left (not_bracket_placeholder index),
        inductionHypothesis]

end Woven

/-! ## Joining lines -/

theorem newline_not_mem_joinLines (text : List Char) : '\n' ∉ joinLines text := by
  have joined (afterBreak : Bool) : '\n' ∉ joinLinesFrom afterBreak text := by
    induction text generalizing afterBreak with
    | nil => exact List.not_mem_nil
    | cons character rest inductionHypothesis =>
        rw [joinLinesFrom]
        split
        · exact inductionHypothesis true
        · rename_i other
          split
          · exact inductionHypothesis true
          · exact List.not_mem_cons_of_ne_of_not_mem (Ne.symm other) (inductionHypothesis false)
  exact joined false

/-- A character that is not blank ends what a newline takes away. -/
theorem joinLinesFrom_append_cons {character : Char} (shown : isBlank character = false)
    (afterBreak : Bool) (front back : List Char) :
    joinLinesFrom afterBreak (front ++ character :: back) =
      joinLinesFrom afterBreak front ++ character :: joinLines back := by
  have newline : character ≠ '\n' := by
    rintro rfl
    exact absurd shown (by decide)
  have space : (character == ' ') = false := by
    rw [beq_eq_false_iff_ne]
    rintro rfl
    exact absurd shown (by decide)
  induction front generalizing afterBreak with
  | nil => simp [joinLinesFrom, joinLines, newline, space]
  | cons first rest inductionHypothesis =>
      rw [List.cons_append, joinLinesFrom, joinLinesFrom]
      split
      · exact inductionHypothesis true
      · split
        · exact inductionHypothesis true
        · rw [inductionHypothesis, List.cons_append]

/-- What holds no blank is kept, and the lines before it and behind it are joined by
themselves. -/
theorem joinLinesFrom_append_solid (afterBreak : Bool) (front : List Char) {solid : List Char}
    (some : solid ≠ []) (shown : ∀ character ∈ solid, isBlank character = false)
    (back : List Char) :
    joinLinesFrom afterBreak (front ++ (solid ++ back)) =
      joinLinesFrom afterBreak front ++ (solid ++ joinLines back) := by
  induction solid generalizing afterBreak front with
  | nil => exact absurd rfl some
  | cons character rest inductionHypothesis =>
      obtain ⟨first, others⟩ := List.forall_mem_cons.mp shown
      have cut := joinLinesFrom_append_cons first afterBreak front (rest ++ back)
      rw [List.cons_append, cut]
      cases rest with
      | nil => rfl
      | cons next more =>
          have below := inductionHypothesis false [] (List.cons_ne_nil next more) others
          rw [List.nil_append] at below
          rw [joinLines, below]
          rfl

theorem joinLines_placeholder (front : List Char) (index : Nat) (back : List Char) :
    joinLines (front ++ (placeholder index ++ back)) =
      joinLines front ++ (placeholder index ++ joinLines back) :=
  joinLinesFrom_append_solid false front (by simp [placeholder])
    (Reveals.placeholder_shown index) back

theorem joinLines_sign (front back : List Char) :
    joinLines (front ++ (codeSign ++ back)) = joinLines front ++ (codeSign ++ joinLines back) :=
  joinLinesFrom_append_solid false front (List.cons_ne_nil _ _)
    (List.forall_mem_singleton.mpr rfl) back

theorem joinLinesFrom_sublist (afterBreak : Bool) (text : List Char) :
    (joinLinesFrom afterBreak text).Sublist text := by
  induction text generalizing afterBreak with
  | nil => exact List.Sublist.refl _
  | cons character rest inductionHypothesis =>
      rw [joinLinesFrom]
      split
      · exact (inductionHypothesis true).cons character
      · split
        · exact (inductionHypothesis true).cons character
        · exact (inductionHypothesis false).cons_cons character

theorem joinLines_sublist (text : List Char) : (joinLines text).Sublist text :=
  joinLinesFrom_sublist false text

/-- What stands before the first NUL is known. -/
theorem append_sign_inj {front front' back back' : List Char} (plain : NulFree front)
    (plain' : NulFree front') (same : front ++ (codeSign ++ back) = front' ++ (codeSign ++ back')) :
    front = front' ∧ back = back' := by
  induction front generalizing front' with
  | nil =>
      cases front' with
      | nil => exact ⟨rfl, (List.cons.inj same).2⟩
      | cons character rest =>
          obtain ⟨rfl, -⟩ := List.cons.inj same
          exact absurd rfl (nulFree_cons.mp plain').1
  | cons character rest inductionHypothesis =>
      cases front' with
      | nil =>
          obtain ⟨rfl, -⟩ := List.cons.inj same
          exact absurd rfl (nulFree_cons.mp plain).1
      | cons other others =>
          obtain ⟨rfl, behind⟩ := List.cons.inj same
          obtain ⟨rfl, rfl⟩ := inductionHypothesis (nulFree_cons.mp plain).2
            (nulFree_cons.mp plain').2 behind
          exact ⟨rfl, rfl⟩

theorem nulFree_of_sublist {text part : List Char} (plain : NulFree text)
    (inside : part.Sublist text) : NulFree part :=
  fun present => plain (inside.subset present)

theorem nulFree_erase {text : List Char} (plain : NulFree text) : NulFree (erase text) :=
  fun present => plain (mem_of_mem_erase present)

/-- Where the traced text may be joined before or after its markers are erased, so may
the span text. -/
theorem Woven.joinLines {codes codes' : List (List Char)} {indent : Nat}
    {marked plain traced : List Char} (stands : Woven codes codes' indent marked plain traced)
    (joins : erase (Layout.joinLines traced) = Layout.joinLines (erase traced)) :
    Woven codes codes' indent (Layout.joinLines marked) (Layout.joinLines plain)
      (Layout.joinLines traced) := by
  induction stands with
  | @piece piece nulFree blanks =>
      have joined := joinLines_sublist piece
      rw [← joins]
      exact Woven.piece (nulFree_of_sublist nulFree joined)
        (blanks.mono fun _ present => joined.subset present)
  | @code piece index _ _ marked plain traced nulFree blanks found found' pair _
      inductionHypothesis =>
      have joined := joinLines_sublist piece
      have joinedPlain := nulFree_of_sublist nulFree joined
      have sign (text : List Char) : erase (codeSign ++ text) = codeSign ++ erase text :=
        erase_cons (by decide) text
      rw [joinLines_sign, erase_append _ (opens_sign _), erase_append _ (opens_sign _), sign, sign,
        joinLines_sign] at joins
      obtain ⟨here, later⟩ := append_sign_inj (nulFree_erase joinedPlain)
        (nulFree_of_sublist (nulFree_erase nulFree) (joinLines_sublist _)) joins
      rw [joinLines_placeholder, joinLines_placeholder, joinLines_sign, ← here]
      exact Woven.code joinedPlain (blanks.mono fun _ present => joined.subset present) found found'
        pair (inductionHypothesis later)

/-! ## Splitting at placeholders -/

theorem openCodes_of_nulFree {text : List Char} (plain : NulFree text) : openCodes text = text := by
  refine (List.map_congr_left fun character present => ?_).trans (List.map_id text)
  refine if_neg ?_
  rintro rfl
  exact plain present

/-- A beginning without NUL stays with the first piece. -/
theorem splitHeld_append {front : List Char} (plain : NulFree front) (back : List Char) :
    splitHeld (front ++ back) = (front ++ (splitHeld back).1, (splitHeld back).2) := by
  induction front with
  | nil => rfl
  | cons character rest inductionHypothesis =>
      obtain ⟨first, others⟩ := nulFree_cons.mp plain
      rw [List.cons_append, splitHeld_cons _ first, inductionHypothesis others]
      rfl

theorem splitHeld_of_nulFree {text : List Char} (plain : NulFree text) :
    splitHeld text = (text, []) := by
  have whole := splitHeld_append plain []
  rw [List.append_nil] at whole
  rw [whole]
  exact congrArg (·, []) (List.append_nil text)

/-- A numeral and the piece behind it, with and without tags. -/
structure Paired (codes codes' : List (List Char)) (indent : Nat)
    (entry entry' : List Char × List Char) : Prop where
  /-- The numerals are the same. -/
  digits : entry.1 = entry'.1
  /-- What the numeral refers to is sealed. -/
  refers : ∀ code', heldAt codes' entry.1 = .ok code' →
    ∃ code, heldAt codes entry.1 = .ok code ∧ Sealed indent code code'
  /-- The pieces differ by tags. -/
  erased : erase entry.2 = entry'.2
  /-- The blanks of the piece are plain. -/
  blanks : PlainBlanks entry.2
  /-- The piece holds no NUL. -/
  nulFree : NulFree entry.2

theorem heldAt_toDigits {codes : List (List Char)} {index : Nat} {code : List Char}
    (found : codes[index]? = some code) :
    heldAt codes (Nat.toDigits 10 index) =
      if numeralLimit < (Nat.toDigits 10 index).length then
        .error (.value (.longNumeral (Nat.toDigits 10 index).length))
      else .ok code := by
  rw [heldAt, natOfDigits_toDigits, found]

/-- Both texts are cut at the same placeholders, and the traced text at its signs of
code. -/
theorem Woven.split {codes codes' : List (List Char)} {indent : Nat}
    {marked plain traced : List Char} (stands : Woven codes codes' indent marked plain traced) :
    erase (splitHeld marked).1 = (splitHeld plain).1 ∧ PlainBlanks (splitHeld marked).1 ∧
      NulFree (splitHeld marked).1 ∧
      List.Forall₂ (Paired codes codes' indent) (splitHeld marked).2 (splitHeld plain).2 ∧
      traced = (splitHeld marked).1 ++
        (splitHeld marked).2.flatMap fun entry => codeSign ++ entry.2 := by
  induction stands with
  | piece nulFree blanks =>
      rw [splitHeld_of_nulFree nulFree, splitHeld_of_nulFree (nulFree_erase nulFree)]
      exact ⟨rfl, blanks, nulFree, List.Forall₂.nil, by simp⟩
  | code nulFree blanks found found' pair _ inductionHypothesis =>
      obtain ⟨erased, blanks', nulFree', pairs, rfl⟩ := inductionHypothesis
      rw [splitHeld_append nulFree, splitHeld_append (nulFree_erase nulFree),
        splitHeld_placeholder, splitHeld_placeholder, List.append_nil, List.append_nil]
      refine ⟨rfl, blanks, nulFree,
        List.Forall₂.cons ⟨rfl, fun code' leads => ?_, erased, blanks', nulFree'⟩ pairs, by simp⟩
      rw [heldAt_toDigits found'] at leads
      rw [heldAt_toDigits found]
      split at leads
      · cases leads
      · rename_i short
        obtain rfl := Except.ok.inj leads
        exact ⟨_, if_neg short, pair⟩

end Layout
end Galley
