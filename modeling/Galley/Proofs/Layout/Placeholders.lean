import Galley.Layout.Held
import Galley.Proofs.Layout.Regions
import Galley.Proofs.Text.Digits
import Galley.Proofs.Wrap.Content

/-!
# Placeholders and what they show

A text with placeholders for held code shows another text, in which each placeholder is
replaced by the code that it refers to.  As long as NUL stands nowhere but in
placeholders, laying out the text finds all held code again.
-/

namespace Galley
namespace Layout

open Text

/-- Held code is found where it is, however much is held after it. -/
theorem getElem?_held {held : List (List Char)} {index : Nat} {code : List Char}
    (found : held[index]? = some code) (more : List (List Char)) :
    (held ++ more)[index]? = some code := by
  rw [List.getElem?_append_left (List.getElem?_eq_some_iff.mp found).1]
  exact found

/-- A text shows another: its placeholders stand for held code, and it holds no other
NUL. -/
inductive Reveals (held : List (List Char)) : List Char → List Char → Prop
  /-- The empty text. -/
  | nil : Reveals held [] []
  /-- A character stands for itself. -/
  | char {character : Char} {text shown : List Char} :
      character ≠ '\x00' → Reveals held text shown →
        Reveals held (character :: text) (character :: shown)
  /-- A placeholder stands for the code with its index. -/
  | code {index : Nat} {code text shown : List Char} :
      held[index]? = some code → Reveals held text shown →
        Reveals held (placeholder index ++ text) (code ++ shown)

namespace Reveals

variable {held : List (List Char)} {text shown : List Char}

theorem append {text' shown' : List Char}
    (left : Reveals held text shown) (right : Reveals held text' shown') :
    Reveals held (text ++ text') (shown ++ shown') := by
  induction left with
  | nil => exact right
  | char plain _ inductionHypothesis => exact char plain inductionHypothesis
  | code found _ inductionHypothesis =>
      rw [List.append_assoc, List.append_assoc]
      exact code found inductionHypothesis

/-- A text without NUL shows itself. -/
theorem of_nulFree (plain : NulFree text) : Reveals held text text := by
  induction text with
  | nil => exact nil
  | cons character rest inductionHypothesis =>
      obtain ⟨first, others⟩ := nulFree_cons.mp plain
      exact char first (inductionHypothesis others)

/-- Where nothing is hidden, the text itself is shown. -/
theorem eq_of_nulFree (reveals : Reveals held text shown) (plain : NulFree text) :
    shown = text := by
  induction reveals with
  | nil => rfl
  | char _ _ inductionHypothesis => rw [inductionHypothesis (nulFree_cons.mp plain).2]
  | code _ _ _ => exact absurd rfl (nulFree_cons.mp plain).1

/-- More held code changes nothing. -/
theorem extend (reveals : Reveals held text shown) (more : List (List Char)) :
    Reveals (held ++ more) text shown := by
  induction reveals with
  | nil => exact nil
  | char plain _ inductionHypothesis => exact char plain inductionHypothesis
  | code found _ inductionHypothesis => exact code (getElem?_held found more) inductionHypothesis

/-- The placeholder of the code that is held next. -/
theorem held_next (code : List Char) :
    Reveals (held ++ [code]) (placeholder held.length) code := by
  have shown : Reveals (held ++ [code]) (placeholder held.length ++ []) (code ++ []) :=
    Reveals.code (by simp) nil
  simpa using shown

/-- The digits and delimiters of a placeholder are not blank. -/
theorem placeholder_shown (index : Nat) :
    ∀ character ∈ placeholder index, isBlank character = false := by
  intro character present
  simp only [placeholder, List.cons_append, List.mem_cons, List.mem_append] at present
  rcases present with rfl | digit | rfl | none
  · decide
  · have decimal := Nat.isDigit_of_mem_toDigits (by decide) (by decide) digit
    obtain ⟨low, high⟩ := Char.isDigit_iff_toNat.mp decimal
    exact isBlank_eq_false_of_graphic (Nat.le_trans (by decide) low)
      (Nat.le_trans high (by decide))
  · decide
  · cases none

/-- Respacing a text respaces what it shows. -/
theorem respace {other : List Char}
    (reveals : Reveals held text shown) (respaced : Respaced text other) :
    ∃ shown', Reveals held other shown' ∧ ink shown' = ink shown := by
  induction reveals generalizing other with
  | nil =>
      cases respaced
      exact ⟨[], nil, rfl⟩
  | @char character text shown plain below inductionHypothesis =>
      cases respaced with
      | keep _ rest =>
          obtain ⟨shown', found, same⟩ := inductionHypothesis rest
          exact ⟨character :: shown', char plain found, by rw [ink_cons, ink_cons, same]⟩
      | @blank _ blanks _ rest present allBlanks restSpaced =>
          obtain ⟨shown', found, same⟩ := inductionHypothesis restSpaced
          have empty : ink blanks = [] := ink_eq_nil_iff.mpr allBlanks
          refine ⟨blanks ++ shown', (of_nulFree (nulFree_of_ink_eq_nil empty)).append found, ?_⟩
          rw [ink_append, empty, ink_cons, if_pos present, same]
  | @code index code text shown found below inductionHypothesis =>
      obtain ⟨rest, rfl, restSpaced⟩ :=
        Respaced.append_left_inv (placeholder_shown index) respaced
      obtain ⟨shown', revealed, same⟩ := inductionHypothesis restSpaced
      exact ⟨code ++ shown', Reveals.code found revealed, by rw [ink_append, ink_append, same]⟩

/-- A beginning without NUL shows itself. -/
theorem of_append_right {lead rest : List Char} (plain : NulFree lead)
    (reveals : Reveals held (lead ++ rest) shown) :
    ∃ back, Reveals held rest back ∧ shown = lead ++ back := by
  induction lead generalizing shown with
  | nil => exact ⟨shown, reveals, rfl⟩
  | cons first others inductionHypothesis =>
      obtain ⟨firstPlain, othersPlain⟩ := nulFree_cons.mp plain
      generalize whole : first :: others ++ rest = text at reveals
      cases reveals with
      | nil => cases whole
      | char _ below =>
          cases whole
          obtain ⟨back, revealed, rfl⟩ := inductionHypothesis othersPlain below
          exact ⟨back, revealed, rfl⟩
      | code _ _ =>
          obtain ⟨rfl, -⟩ := List.cons.inj whole
          exact absurd rfl firstPlain

/-- An end without NUL shows itself. -/
theorem of_append_left {front tail : List Char} (plain : NulFree tail)
    (reveals : Reveals held (front ++ tail) shown) :
    ∃ start, Reveals held front start ∧ shown = start ++ tail := by
  generalize whole : front ++ tail = text at reveals
  induction reveals generalizing front with
  | nil =>
      obtain ⟨rfl, rfl⟩ := List.append_eq_nil_iff.mp whole
      exact ⟨[], nil, rfl⟩
  | @char character text shown plainChar below inductionHypothesis =>
      cases front with
      | nil =>
          rw [List.nil_append] at whole
          subst whole
          exact ⟨[], nil, (char plainChar below).eq_of_nulFree plain⟩
      | cons first others =>
          obtain ⟨rfl, inside⟩ := List.cons.inj whole
          obtain ⟨start, revealed, rfl⟩ := inductionHypothesis inside
          exact ⟨first :: start, char plainChar revealed, rfl⟩
  | @code index code text shown found below inductionHypothesis =>
      rcases List.append_eq_append_iff.mp whole with ⟨cut, stand, rfl⟩ | ⟨cut, rfl, inside⟩
      · -- The placeholder ends with NUL, so the end begins behind it.
        have empty : cut = [] := by
          cases ends : cut.getLast? with
          | none => exact List.getLast?_eq_none_iff.mp ends
          | some last =>
              have same := congrArg List.getLast? stand
              rw [List.getLast?_append, ends] at same
              have final : (placeholder index).getLast? = some '\x00' := List.getLast?_concat
              obtain rfl : '\x00' = last := by simpa [final] using same
              exact absurd (List.mem_of_getLast? ends) (nulFree_append.mp plain).1
        subst empty
        rw [List.append_nil] at stand
        subst stand
        refine ⟨code, by simpa using Reveals.code found nil, ?_⟩
        rw [List.nil_append, below.eq_of_nulFree (nulFree_append.mp plain).2]
      · obtain ⟨start, revealed, rfl⟩ := inductionHypothesis inside.symm
        exact ⟨code ++ start, Reveals.code found revealed, by simp⟩

/-- What is cut off at the end of a text shows itself. -/
theorem keepsFront {debug : Bool} {kept : List Char}
    (reveals : Reveals held text shown) (front : KeepsFront debug text kept) :
    ∃ shown', Reveals held kept shown' ∧ (debug = false → ink shown' = ink shown) := by
  obtain ⟨tail, rfl, lost⟩ := front
  obtain ⟨start, revealed, rfl⟩ := of_append_left lost.nulFree reveals
  exact ⟨start, revealed, fun plain => by rw [ink_append, lost.blank plain, List.append_nil]⟩

end Reveals

/-! ## Splitting at placeholders -/

theorem splitHeldAfter_eq_drop (skipped : Nat) (text : List Char) :
    splitHeldAfter skipped text = splitHeld (text.drop skipped) := by
  induction text generalizing skipped with
  | nil => cases skipped <;> rfl
  | cons character rest inductionHypothesis =>
      cases skipped with
      | zero => rfl
      | succ fewer => simpa [splitHeldAfter] using inductionHypothesis fewer

/-- A placeholder is recognised by its digits. -/
theorem placeholderDigits?_placeholder (index : Nat) (rest : List Char) :
    placeholderDigits? (placeholder index ++ rest) = some (Nat.toDigits 10 index) := by
  have decimal : ∀ digit ∈ Nat.toDigits 10 index, isDigit digit = true :=
    fun _ present => isDigit_of_mem_toDigits present
  have delimiter : isDigit '\x00' = false := by decide
  have taken : (Nat.toDigits 10 index ++ '\x00' :: rest).takeWhile isDigit =
      Nat.toDigits 10 index := by
    rw [List.takeWhile_append_of_pos decimal]
    simp [delimiter]
  have dropped : (Nat.toDigits 10 index ++ '\x00' :: rest).dropWhile isDigit = '\x00' :: rest := by
    rw [List.dropWhile_append_of_pos decimal]
    simp [delimiter]
  have whole : placeholder index ++ rest =
      '\x00' :: (Nat.toDigits 10 index ++ '\x00' :: rest) := by
    simp [placeholder]
  rw [whole, placeholderDigits?, taken, dropped]
  cases digits : Nat.toDigits 10 index with
  | nil => exact absurd digits Nat.toDigits_ne_nil
  | cons first others => rfl

/-- A placeholder is split off. -/
theorem splitHeld_placeholder (index : Nat) (rest : List Char) :
    splitHeld (placeholder index ++ rest) =
      ([], (Nat.toDigits 10 index, (splitHeld rest).1) :: (splitHeld rest).2) := by
  have found := placeholderDigits?_placeholder index rest
  have whole : placeholder index ++ rest =
      '\x00' :: (Nat.toDigits 10 index ++ '\x00' :: rest) := by
    simp [placeholder]
  have behind : (Nat.toDigits 10 index ++ '\x00' :: rest).drop
      ((Nat.toDigits 10 index).length + 1) = rest := by
    simp [List.drop_append]
  rw [whole] at found ⊢
  rw [splitHeld, splitHeldAfter, found]
  dsimp only
  rw [splitHeldAfter_eq_drop, behind]

/-- A character that starts no placeholder stays with the text behind it. -/
theorem splitHeld_cons {character : Char} (rest : List Char) (plain : character ≠ '\x00') :
    splitHeld (character :: rest) = (character :: (splitHeld rest).1, (splitHeld rest).2) := by
  have none : placeholderDigits? (character :: rest) = none := by
    simp [placeholderDigits?, plain]
  simp [splitHeld, splitHeldAfter, none]

/-- The numeral of an index is too long to be read back: so much code is held. -/
def Overfull (count : Nat) (fault : Fault) : Prop :=
  10 ^ numeralLimit < count ∧ ∃ digits, fault = .value (.longNumeral digits)

/-- A numeral leads to held code, or it is too long. -/
def LeadsTo (held : List (List Char)) (digits code : List Char) : Prop :=
  code ∈ held ∧ match heldAt held digits with
    | .ok found => found = code
    | .error fault => Overfull held.length fault

/-- What follows the first piece shows a text: each numeral refers to held code, and the
pieces hold no NUL. -/
inductive Refers (held : List (List Char)) : List (List Char × List Char) → List Char → Prop
  /-- Nothing follows. -/
  | nil : Refers held [] []
  /-- A numeral and the piece behind it. -/
  | cons {digits code piece shown : List Char} {others : List (List Char × List Char)} :
      LeadsTo held digits code → NulFree piece → Refers held others shown →
        Refers held ((digits, piece) :: others) (code ++ piece ++ shown)

/-- The numerals of placeholders are read back unless they are refused for their
length. -/
theorem leadsTo_toDigits
    {held : List (List Char)} {index : Nat} {code : List Char}
    (found : held[index]? = some code) : LeadsTo held (Nat.toDigits 10 index) code := by
  have inside : index < held.length := (List.getElem?_eq_some_iff.mp found).1
  refine ⟨List.mem_of_getElem? found, ?_⟩
  rw [heldAt, natOfDigits_toDigits, found]
  split
  · rename_i returned
    split at returned
    · cases returned
    · exact (Except.ok.inj returned).symm
  · rename_i stopped
    split at stopped
    · rename_i long
      have many : ¬ index < 10 ^ numeralLimit := fun few =>
        absurd long (Nat.not_lt.mpr (length_toDigits_le (by decide) few))
      exact ⟨Nat.lt_of_le_of_lt (Nat.not_lt.mp many) inside, _, (Except.error.inj stopped).symm⟩
    · cases stopped

/-- Splitting a text finds all that it shows. -/
theorem Reveals.split
    {held : List (List Char)} {text shown : List Char}
    (reveals : Reveals held text shown) :
    NulFree (splitHeld text).1 ∧
      ∃ others, Refers held (splitHeld text).2 others ∧ shown = (splitHeld text).1 ++ others := by
  induction reveals with
  | nil => exact ⟨nulFree_nil, [], Refers.nil, rfl⟩
  | char plain _ inductionHypothesis =>
      obtain ⟨first, others, refers, rfl⟩ := inductionHypothesis
      rw [splitHeld_cons _ plain]
      exact ⟨nulFree_cons.mpr ⟨plain, first⟩, others, refers, rfl⟩
  | code found _ inductionHypothesis =>
      obtain ⟨first, others, refers, rfl⟩ := inductionHypothesis
      rw [splitHeld_placeholder]
      exact ⟨nulFree_nil, _, Refers.cons (leadsTo_toDigits found) first refers, by simp⟩

end Layout
end Galley
