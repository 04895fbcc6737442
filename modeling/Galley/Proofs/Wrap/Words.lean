import Galley.Proofs.Text.Words
import Galley.Proofs.Wrap.Cuts
import Galley.Proofs.Wrap.Rewrapping

/-!
# Words of wrapped texts

Wrapping may cut a word in two, but it joins no two words and loses none.  Where a line
fits, or where each of its words is a single character or all graphic, wrapping keeps
its words whole exactly if they all fit.
-/

namespace Galley
namespace Text

/-- Words are split group by group. -/
theorem Splits.flatMap {parts whole : List Char → List (List Char)} {texts : List (List Char)}
    (each : ∀ text ∈ texts, Splits (parts text) (whole text)) :
    Splits (texts.flatMap parts) (texts.flatMap whole) := by
  induction texts with
  | nil => exact Splits.refl []
  | cons text rest inductionHypothesis =>
      obtain ⟨here, below⟩ := List.forall_mem_cons.mp each
      exact here.append (inductionHypothesis below)

end Text

namespace Wrap

open Text

/-! ## Lines -/

section Rows

variable {rows : List (List Char × List Char)} (blank : ∀ row ∈ rows, allBlank row.2 = true)

include blank

/-- The words of lines are parts of the words of the line that they are cut from. -/
theorem splits_words_restore :
    Splits ((rows.map Prod.fst).flatMap words) (words (restore rows)) := by
  induction rows with
  | nil => exact Splits.refl []
  | cons row rest inductionHypothesis =>
      obtain ⟨here, below⟩ := List.forall_mem_cons.mp blank
      have cut := splits_words_append row.1 (row.2 ++ restore rest)
      rw [words_blank_append here] at cut
      rw [restore_cons, List.append_assoc, List.map_cons, List.flatMap_cons]
      exact ((Splits.refl _).append (inductionHypothesis below)).trans cut

/-- Where no two lines are parted inside a word, their words are those of the whole
line. -/
theorem words_restore
    (apart : ∀ before laid after, rows = before ++ (laid, []) :: after → ∀ last ∈ laid.getLast?,
      ∀ first ∈ (restore after).head?, isBlank last = true ∨ isBlank first = true) :
    (rows.map Prod.fst).flatMap words = words (restore rows) := by
  induction rows with
  | nil => rfl
  | cons row rest inductionHypothesis =>
      obtain ⟨here, below⟩ := List.forall_mem_cons.mp blank
      obtain ⟨laid, gap⟩ := row
      have cut : ∀ last ∈ laid.getLast?, ∀ first ∈ (gap ++ restore rest).head?,
          isBlank last = true ∨ isBlank first = true := by
        cases gap with
        | nil => exact apart [] laid rest rfl
        | cons space spaces =>
            rintro last - first found
            obtain rfl : space = first := by simpa using found
            exact Or.inr (List.all_eq_true.mp here space (by simp))
      rw [restore_cons, List.append_assoc, words_append cut, words_blank_append here, List.map_cons,
        List.flatMap_cons, inductionHypothesis below fun before other after parts =>
          apart ((laid, gap) :: before) other after (by rw [parts, List.cons_append])]

end Rows

section Line

variable {budget : Nat} {line : List Char}

theorem words_cutting {front : List Char} {rows : List (List Char × List Char)}
    (cutting : Cutting budget line front rows) : words line = words (restore rows) := by
  rw [← cutting.whole, words_blank_append cutting.front_blank]

theorem splits_words_wrapLine (budget : Nat) (line : List Char) :
    Splits ((wrapLine false budget line).flatMap words) (words line) := by
  obtain ⟨front, rows, laid, cutting⟩ := exists_cutting budget line
  rw [← laid, words_cutting cutting]
  exact splits_words_restore cutting.gaps_blank

/-- Where all words are single characters, or graphic and no wider than the budget, so
are their parts. -/
theorem graphic_of_infix (whole : ∀ word ∈ words line, word.length ≤ 1 ∨
      (∀ character ∈ word, isGraphic character = true) ∧ Columns.ofText word ≤ budget)
    {front run back : List Char} (parts : line = front ++ run ++ back) (long : 1 < run.length)
    (shown : ∀ character ∈ run, isBlank character = false) :
    (∀ character ∈ run, isGraphic character = true) ∧ Columns.ofText run ≤ budget := by
  have some : run ≠ [] := List.length_pos_iff.mp (Nat.zero_lt_of_lt long)
  obtain ⟨word, present, inside⟩ := exists_mem_words_of_unblank some shown front back
  have longer := inside.length_le
  obtain ⟨graphic, within⟩ := (whole word (parts ▸ present)).resolve_left (by omega)
  exact ⟨fun character listed => graphic character (inside.subset listed),
    (Columns.ofText_le_of_sublist inside.sublist).trans within⟩

/-- Such words are cut nowhere. -/
theorem Cutting.apart {front : List Char} {rows : List (List Char × List Char)}
    (cutting : Cutting budget line front rows)
    (whole : ∀ word ∈ words line, word.length ≤ 1 ∨
      (∀ character ∈ word, isGraphic character = true) ∧ Columns.ofText word ≤ budget)
    {before after : List (List Char × List Char)} {laid : List Char}
    (parts : rows = before ++ (laid, []) :: after) {last first : Char} (ends : last ∈ laid.getLast?)
    (begins : first ∈ (restore after).head?) : isBlank last = true ∨ isBlank first = true := by
  by_contra neither
  obtain ⟨lastShown, firstShown⟩ : isBlank last = false ∧ isBlank first = false := by
    simpa using neither
  obtain ⟨others, rfl⟩ := List.getLast?_eq_some_iff.mp ends
  obtain ⟨rest, follows⟩ := List.head?_eq_some_iff.mp begins
  have more : after ≠ [] := fun none => by simp [none] at follows
  have cut : line = front ++ restore before ++ (others ++ [last]) ++ restore after := by
    rw [← cutting.whole, parts]
    simp
  have pair : line = (front ++ restore before ++ others) ++ [last, first] ++ rest := by
    rw [cut, follows]
    simp
  obtain ⟨graphic, -⟩ := graphic_of_infix whole pair (by simp)
      (by simpa using ⟨lastShown, firstShown⟩)
  obtain ⟨lastGraphic, firstGraphic⟩ : isGraphic last = true ∧ isGraphic first = true := by
    simpa using graphic
  rcases cutting.severed before (others ++ [last]) after parts more with
    ⟨other, found, plain⟩ | ⟨other, found, plain⟩ |
      ⟨begin, left, right, back, same, behind, leftSome, rightSome, run, wide⟩
  · obtain rfl : last = other := by simpa using found
    rw [lastGraphic] at plain
    cases plain
  · rw [Option.mem_unique found begins, firstGraphic] at plain
    cases plain
  · -- A whole run would lie in a word that fits.
    have runParts : line = begin ++ (left ++ right) ++ back := by
      rw [cut, behind, same]
      simp
    have long : 1 < (left ++ right).length := by
      have leftLong := List.length_pos_iff.mpr leftSome
      have rightLong := List.length_pos_iff.mpr rightSome
      rw [List.length_append]
      omega
    obtain ⟨-, within⟩ := graphic_of_infix whole runParts long fun character listed =>
      isBlank_eq_false_of_isGraphic (run.graphic character listed)
    exact absurd within (Nat.not_le_of_lt wide)

/-- Where all words are single characters, or graphic and no wider than the budget, they
stay whole. -/
theorem words_wrapLine (whole : ∀ word ∈ words line, word.length ≤ 1 ∨
      (∀ character ∈ word, isGraphic character = true) ∧ Columns.ofText word ≤ budget) :
    (wrapLine false budget line).flatMap words = words line := by
  obtain ⟨front, rows, laid, cutting⟩ := exists_cutting budget line
  rw [← laid, words_cutting cutting]
  exact words_restore cutting.gaps_blank fun before other after parts last ends first begins =>
    cutting.apart whole parts ends begins

end Line

/-! ## Texts -/

theorem words_wrap (width : Int) (text : List Char) :
    words (wrap false width text) = (lines text).flatMap fun line =>
      (wrapLine false (budget width) line).flatMap words := by
  rw [wrap, words_unlines, List.flatMap_assoc]

/-- Wrapping splits words, and does nothing else to them. -/
theorem splits_words_wrap (width : Int) (text : List Char) :
    Splits (words (wrap false width text)) (words text) := by
  rw [words_wrap, ← flatMap_words_lines text]
  exact Splits.flatMap fun line _ => splits_words_wrapLine (budget width) line

/-- A line breaks at blanks alone, unless a word is too wide: the line fits, or each of
its words is a single character or all graphic. -/
def BreaksAtBlanks (budget : Nat) (line : List Char) : Prop :=
  Columns.ofText line ≤ budget ∨
    ∀ word ∈ words line, word.length ≤ 1 ∨ ∀ character ∈ word, isGraphic character = true

/-- No word that stays whole is too wide. -/
theorem fits_of_mem_words_wrap {width : Int} {text word : List Char}
    (present : word ∈ words (wrap false width text)) : Fits (budget width) word := by
  rw [words_wrap] at present
  obtain ⟨line, -, inLine⟩ := List.mem_flatMap.mp present
  obtain ⟨laid, listed, inside⟩ := List.mem_flatMap.mp inLine
  exact (fits_wrapLine _ line laid listed).part (infix_of_mem_words inside).sublist

theorem words_wrap_eq_iff {width : Int} {text : List Char}
    (whole : ∀ line ∈ lines text, BreaksAtBlanks (budget width) line) :
    words (wrap false width text) = words text ↔ ∀ word ∈ words text, Fits (budget width) word := by
  constructor
  · exact fun same word present => fits_of_mem_words_wrap (same ▸ present)
  · intro fit
    rw [words_wrap, ← flatMap_words_lines text]
    refine List.flatMap_congr fun line listed => ?_
    have present (word : List Char) (inLine : word ∈ words line) : word ∈ words text := by
      rw [← flatMap_words_lines text]
      exact List.mem_flatMap.mpr ⟨line, listed, inLine⟩
    rcases whole line listed with within | graphic
    · rw [wrapLine_of_within within, List.flatMap_singleton, words_trimEnd]
    · refine words_wrapLine fun word inLine => ?_
      rcases graphic word inLine with single | graphic
      · exact Or.inl single
      · exact (fit word (present word inLine)).symm.imp_right fun within => ⟨graphic, within⟩

end Wrap
end Galley
