import Galley.Ordinal
import Galley.Proofs.Text.Digits
import Mathlib.Data.List.Induction
import Mathlib.Data.List.Shortlex
import Mathlib.Data.Set.Function

/-!
# Ordinals as words

The letters of a number are a word over an alphabet of twenty-six letters that count
from one to twenty-six, so that no word begins with a zero.  Every word is the notation
of just one number, and the numbers are in the order of their words, where a shorter
word comes first.
-/

namespace Galley

/-- The letters that marks of a style are made of. -/
def MarkStyle.alphabet : MarkStyle → List Char
  | .upperAlpha => "ABCDEFGHIJKLMNOPQRSTUVWXYZ".toList
  | _ => "abcdefghijklmnopqrstuvwxyz".toList

namespace Ordinal

/-! ## Letters -/

/-- The letter at a place of the alphabet, counted from zero. -/
def letterAt (style : MarkStyle) (place : Nat) : Char :=
  Char.ofNat (style.firstLetter.toNat + place)

theorem toNat_letterAt (style : MarkStyle) {place : Nat} (inside : place < 26) :
    (letterAt style place).toNat = style.firstLetter.toNat + place := by
  have low : style.firstLetter.toNat ≤ 97 := by cases style <;> decide
  rw [letterAt, Char.ofNat, dif_pos (Or.inl (by omega))]
  rfl

theorem letterAt_lt_iff (style : MarkStyle) {place other : Nat} (inside : place < 26)
    (otherInside : other < 26) : letterAt style place < letterAt style other ↔ place < other := by
  have first := toNat_letterAt style inside
  have second := toNat_letterAt style otherInside
  have codes : letterAt style place < letterAt style other ↔
      (letterAt style place).toNat < (letterAt style other).toNat := Iff.rfl
  rw [codes, first, second]
  omega

theorem alphabet_eq (style : MarkStyle) :
    style.alphabet = (List.range 26).map (letterAt style) := by
  cases style <;> decide

theorem mem_alphabet {style : MarkStyle} {letter : Char} :
    letter ∈ style.alphabet ↔ ∃ place < 26, letterAt style place = letter := by
  simp [alphabet_eq]

theorem letters_succ_eq (style : MarkStyle) (number : Nat) :
    letters style.firstLetter (number + 1) =
      letters style.firstLetter (number / 26) ++ [letterAt style (number % 26)] :=
  letters_succ _ number

/-! ## The number of a word -/

/-- The number whose letters are a word. -/
def ofLetters (style : MarkStyle) (word : List Char) : Nat :=
  word.foldl (fun number letter => 26 * number + (letter.toNat - style.firstLetter.toNat + 1)) 0

theorem ofLetters_append_letterAt (style : MarkStyle) (word : List Char) {place : Nat}
    (inside : place < 26) :
    ofLetters style (word ++ [letterAt style place]) = 26 * ofLetters style word + place + 1 := by
  have behind := toNat_letterAt style inside
  rw [ofLetters, List.foldl_append, List.foldl_cons, List.foldl_nil, ← ofLetters]
  omega

theorem ofLetters_letters (style : MarkStyle) (number : Nat) :
    ofLetters style (letters style.firstLetter number) = number := by
  induction number using Nat.strongRecOn with
  | ind number inductionHypothesis =>
      cases number with
      | zero => simp [ofLetters]
      | succ fewer =>
          have below := inductionHypothesis (fewer / 26) (by omega)
          rw [letters_succ_eq, ofLetters_append_letterAt style _ (Nat.mod_lt _ (by decide)), below]
          omega

theorem letters_injective (style : MarkStyle) : Function.Injective (letters style.firstLetter) :=
  Function.LeftInverse.injective (ofLetters_letters style)

theorem letters_ofLetters {style : MarkStyle} {word : List Char}
    (proper : ∀ letter ∈ word, letter ∈ style.alphabet) :
    letters style.firstLetter (ofLetters style word) = word := by
  induction word using List.reverseRecOn with
  | nil => exact letters_zero _
  | append_singleton front letter inductionHypothesis =>
      obtain ⟨before, last⟩ := List.forall_mem_append.mp proper
      obtain ⟨place, inside, rfl⟩ := mem_alphabet.mp (last letter (by simp))
      have quotient : (26 * ofLetters style front + place) / 26 = ofLetters style front := by omega
      have remainder : (26 * ofLetters style front + place) % 26 = place := by omega
      rw [ofLetters_append_letterAt style front inside, letters_succ_eq, quotient, remainder,
        inductionHypothesis before]

theorem mem_alphabet_of_mem_letters {style : MarkStyle} {number : Nat} {letter : Char}
    (present : letter ∈ letters style.firstLetter number) : letter ∈ style.alphabet := by
  induction number using Nat.strongRecOn with
  | ind number inductionHypothesis =>
      cases number with
      | zero => simp at present
      | succ fewer =>
          rw [letters_succ_eq] at present
          rcases List.mem_append.mp present with before | last
          · exact inductionHypothesis (fewer / 26) (by omega) before
          · rw [List.mem_singleton.mp last]
            exact mem_alphabet.mpr ⟨_, Nat.mod_lt _ (by decide), rfl⟩

theorem letters_ne_nil (style : MarkStyle) {number : Nat} (positive : 1 ≤ number) :
    letters style.firstLetter number ≠ [] := by
  obtain ⟨fewer, rfl⟩ := Nat.exists_eq_add_of_le' positive
  simp [letters_succ_eq]

/-! ## The order of words -/

/-- Words of one length that end in a letter are compared by what stands before it, and
then by it. -/
theorem append_singleton_lt_iff {front other : List Char} {letter last : Char}
    (even : front.length = other.length) :
    front ++ [letter] < other ++ [last] ↔ front < other ∨ front = other ∧ letter < last := by
  induction front generalizing other with
  | nil =>
      obtain rfl : other = [] := List.eq_nil_of_length_eq_zero even.symm
      simp [List.cons_lt_cons_iff]
  | cons first rest inductionHypothesis =>
      cases other with
      | nil => cases even
      | cons next more =>
          have below := inductionHypothesis (Nat.succ.inj even)
          rw [List.cons_append, List.cons_append, List.cons_lt_cons_iff,
            List.cons_lt_cons_iff, below,
            List.cons.injEq]
          tauto

theorem shortlex_append_singleton_iff {front other : List Char} {letter last : Char} :
    List.Shortlex (· < ·) (front ++ [letter]) (other ++ [last]) ↔
      List.Shortlex (· < ·) front other ∨ front = other ∧ letter < last := by
  have lexicographic (first second : List Char) : List.Lex (· < ·) first second ↔ first < second :=
    Iff.rfl
  simp only [List.shortlex_def, List.length_append, List.length_singleton, lexicographic]
  rcases Nat.lt_trichotomy front.length other.length with less | even | more
  · simp [less]
  · rw [append_singleton_lt_iff even]
    simp [even]
  · have apart : front ≠ other := fun same => by simp [same] at more
    simp [apart]
    omega

/-- Numbers are in the order of their words. -/
theorem shortlex_letters_iff (style : MarkStyle) (number other : Nat) :
    List.Shortlex (· < ·) (letters style.firstLetter number) (letters style.firstLetter other) ↔
      number < other := by
  induction number using Nat.strongRecOn generalizing other with
  | ind number inductionHypothesis =>
      cases other with
      | zero => simp
      | succ otherFewer =>
          cases number with
          | zero => simp [List.shortlex_def, letters_succ_eq]
          | succ fewer =>
              -- The last letters are the remainders, and the words before them are
              -- those of the quotients.
              rw [letters_succ_eq, letters_succ_eq, shortlex_append_singleton_iff,
                inductionHypothesis (fewer / 26) (by omega), (letters_injective style).eq_iff,
                letterAt_lt_iff style (Nat.mod_lt _ (by decide)) (Nat.mod_lt _ (by decide))]
              omega

/-! ## Marks -/

section Marks

variable {style : MarkStyle} {number other : Int}

theorem format_of_plain (plain : style = .decimal ∨ number < 1) :
    format number style = toString number :=
  if_pos plain

theorem format_of_letters (lettered : style ≠ .decimal) (positive : 1 ≤ number) :
    format number style = String.ofList (letters style.firstLetter number.toNat) :=
  if_neg fun plain => plain.elim lettered (by omega)

/-- Every word is the mark of a number from one on. -/
theorem bijOn_format (lettered : style ≠ .decimal) :
    Set.BijOn (fun number => format number style) {number | 1 ≤ number}
      {mark | mark ≠ "" ∧ ∀ letter ∈ mark.toList, letter ∈ style.alphabet} := by
  refine ⟨?_, ?_, ?_⟩
  · intro number positive
    have counted : 1 ≤ number.toNat := Int.toNat_le_toNat positive
    dsimp only
    rw [format_of_letters lettered positive]
    refine ⟨fun none => letters_ne_nil style counted ?_, fun letter present => ?_⟩
    · simpa using congrArg String.toList none
    · rw [String.toList_ofList] at present
      exact mem_alphabet_of_mem_letters present
  · intro number positive other otherPositive same
    dsimp only at same
    rw [format_of_letters lettered positive, format_of_letters lettered otherPositive] at same
    have counts := letters_injective style (String.ofList_injective same)
    have low : 1 ≤ number := positive
    have otherLow : 1 ≤ other := otherPositive
    omega
  · rintro mark ⟨some, proper⟩
    have read := letters_ofLetters proper
    have positive : ofLetters style mark.toList ≠ 0 := by
      intro zero
      rw [zero, letters_zero] at read
      exact some (String.toList_eq_nil_iff.mp read.symm)
    have counted : (1 : Int) ≤ ofLetters style mark.toList := by omega
    refine ⟨ofLetters style mark.toList, counted, ?_⟩
    dsimp only
    rw [format_of_letters lettered counted, Int.toNat_natCast, read, String.ofList_toList]

/-- A mark comes before another if it is shorter, or as long and alphabetically
smaller. -/
theorem lt_iff_format (lettered : style ≠ .decimal) (positive : 1 ≤ number)
    (otherPositive : 1 ≤ other) :
    number < other ↔ (format number style).length < (format other style).length ∨
      (format number style).length = (format other style).length ∧
        format number style < format other style := by
  rw [format_of_letters lettered positive, format_of_letters lettered otherPositive,
    String.length_ofList, String.length_ofList, String.lt_iff, String.toList_ofList,
    String.toList_ofList]
  have compared := shortlex_letters_iff style number.toNat other.toNat
  rw [List.shortlex_def] at compared
  refine Iff.trans ?_ compared.symm
  omega

/-- A numeral below one is no word of letters. -/
theorem exists_not_mem_alphabet (style : MarkStyle) (low : number < 1) :
    ∃ character ∈ (toString number).toList, character ∉ style.alphabet := by
  cases number with
  | ofNat natural =>
      obtain rfl : natural = 0 := by
        simpa using low
      exact ⟨'0', by decide, by cases style <;> decide⟩
  | negSucc natural =>
      refine ⟨'-', ?_, by cases style <;> decide⟩
      rw [Text.toString_negSucc]
      exact List.mem_cons_self

/-- A numeral is no mark of a number from one on. -/
theorem format_ne_of_plain (lettered : style ≠ .decimal) (low : number < 1) (positive : 1 ≤ other) :
    format number style ≠ format other style := by
  intro same
  obtain ⟨character, present, strange⟩ := exists_not_mem_alphabet style low
  have proper := ((bijOn_format lettered).mapsTo positive).2
  apply strange
  apply proper
  rwa [← same, format_of_plain (Or.inr low)]

/-- Different numbers have different marks. -/
theorem format_injective (style : MarkStyle) :
    Function.Injective fun number => format number style := by
  intro number other same
  dsimp only at same
  by_cases plain : style = .decimal ∨ number < 1
  · by_cases otherPlain : style = .decimal ∨ other < 1
    · rw [format_of_plain plain, format_of_plain otherPlain] at same
      exact Text.toString_int_injective same
    · obtain ⟨lettered, positive⟩ := not_or.mp otherPlain
      exact absurd same (format_ne_of_plain lettered (plain.resolve_left lettered) (by omega))
  · obtain ⟨lettered, positive⟩ := not_or.mp plain
    by_cases low : other < 1
    · exact absurd same.symm (format_ne_of_plain lettered low (by omega))
    · exact (bijOn_format lettered).injOn (show 1 ≤ number by omega) (show 1 ≤ other by omega) same

end Marks

/-- Marks number faithfully: in a style of letters every word of its alphabet is the
mark of just one number from one on, and the numbers are in the order of their marks, a
shorter one before a longer one and marks of one length alphabetically.  In every style
different numbers have different marks. -/
theorem format_faithful (style : MarkStyle) :
    (style ≠ .decimal →
      Set.BijOn (fun number => format number style) {number | 1 ≤ number}
          {mark | mark ≠ "" ∧ ∀ letter ∈ mark.toList, letter ∈ style.alphabet} ∧
        ∀ number other, 1 ≤ number → 1 ≤ other →
          (number < other ↔ (format number style).length < (format other style).length ∨
            (format number style).length = (format other style).length ∧
              format number style < format other style)) ∧
      Function.Injective fun number => format number style :=
  ⟨fun lettered => ⟨bijOn_format lettered, fun _ _ => lt_iff_format lettered⟩,
    format_injective style⟩

/-- The carry from two letters to three keeps the order, and the words around it have
numbers. -/
theorem format_faithful_carry :
    MarkStyle.upperAlpha ≠ .decimal ∧ format 702 .upperAlpha = "ZZ" ∧
    format 703 .upperAlpha = "AAA" ∧
      ((702 : Int) < 703 ↔ "ZZ".length < "AAA".length ∨ "ZZ".length = "AAA".length ∧ "ZZ" < "AAA") ∧
      ∃ number, 1 ≤ number ∧ format number .upperAlpha = "AAB" := by
  have lettered : MarkStyle.upperAlpha ≠ .decimal := by decide
  obtain ⟨words, ordered⟩ := (format_faithful .upperAlpha).1 lettered
  have before : format 702 .upperAlpha = "ZZ" := by decide +kernel
  have after : format 703 .upperAlpha = "AAA" := by decide +kernel
  have carried := ordered 702 703 (by decide) (by decide)
  rw [before, after] at carried
  have proper : "AAB".toList ⊆ MarkStyle.upperAlpha.alphabet := by decide
  obtain ⟨number, positive, spelled⟩ := words.surjOn ⟨by decide, fun _ present => proper present⟩
  exact ⟨lettered, before, after, carried, number, positive, spelled⟩

end Ordinal
end Galley
