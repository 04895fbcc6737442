import Galley.Text.Numeral
import Galley.Text.WordChar
import Mathlib.Algebra.Group.Nat.Defs
import Mathlib.Data.List.Chain

/-!
# Reading decimal digits back

The decimal digits of a number are digits of the text, and they denote the number.
Digits of every script are word characters.
-/

namespace Galley
namespace Text

/-- The value of an ASCII digit is its distance from zero. -/
theorem digitValue?_of_isDigit {character : Char} (digit : character.isDigit = true) :
    digitValue? character = some (character.toNat - '0'.toNat) := by
  have low : 48 ≤ character.toNat := by
    simpa using (Char.isDigit_iff_toNat.mp digit).1
  have high : character.toNat ≤ 57 := by
    simpa using (Char.isDigit_iff_toNat.mp digit).2
  have first : digitZeros.find? (fun base => base ≤ character.toNat && character.toNat < base + 10)
      = some 0x30 := by
    have inRun : (decide (48 ≤ character.toNat) && decide (character.toNat < 48 + 10)) = true := by
      simp
      omega
    simp [digitZeros, inRun]
  rw [digitValue?, first]
  rfl

theorem isDigit_of_mem_toDigits {character : Char} {number : Nat}
    (present : character ∈ Nat.toDigits 10 number) : isDigit character = true := by
  have digit := Nat.isDigit_of_mem_toDigits (by decide) (by decide) present
  simp [isDigit, digitValue?_of_isDigit digit]

/-- Decimal digits denote the number that they were made from. -/
theorem natOfDigits_toDigits (number : Nat) : natOfDigits (Nat.toDigits 10 number) = number := by
  have values (digits : List Char) (sum : Nat)
      (proper : ∀ digit ∈ digits, digit.isDigit = true) :
      digits.foldl (fun number digit => 10 * number + (digitValue? digit).getD 0) sum =
        Nat.ofDigitChars 10 digits sum := by
    induction digits generalizing sum with
    | nil => rfl
    | cons digit rest inductionHypothesis =>
        rw [List.foldl_cons, digitValue?_of_isDigit (proper digit (by simp)),
          inductionHypothesis _ fun other present => proper other (by simp [present])]
        rfl
  rw [natOfDigits, values _ _ fun digit present =>
    Nat.isDigit_of_mem_toDigits (by decide) (by decide) present, Nat.ofDigitChars_ten_toDigits]

/-- Different numbers have different numerals. -/
theorem toString_injective {first second : Nat} (same : toString first = toString second) :
    first = second := by
  have digits : Nat.toDigits 10 first = Nat.toDigits 10 second := by
    simpa [Nat.repr] using congrArg String.toList same
  rw [← natOfDigits_toDigits first, digits, natOfDigits_toDigits]

theorem sign_not_mem_toString (number : Nat) : '-' ∉ (toString number).toList := by
  intro present
  rw [Nat.toString_eq_ofList_toDigits, String.toList_ofList] at present
  exact absurd (isDigit_of_mem_toDigits present) (by decide)

/-- The numeral of a number below zero is a sign before another numeral. -/
theorem toString_negSucc (fewer : Nat) :
    (toString (Int.negSucc fewer)).toList = '-' :: (toString (fewer + 1)).toList := by
  have spelled : toString (Int.negSucc fewer) = "-" ++ toString (fewer + 1) := rfl
  rw [spelled, String.toList_append]
  rfl

theorem toString_int_injective {first second : Int} (same : toString first = toString second) :
    first = second := by
  have read := congrArg String.toList same
  cases first with
  | ofNat natural =>
      cases second with
      | ofNat other => exact congrArg Int.ofNat (toString_injective same)
      | negSucc fewer =>
          rw [toString_negSucc] at read
          exact absurd (read ▸ List.mem_cons_self) (sign_not_mem_toString natural)
  | negSucc fewer =>
      rw [toString_negSucc] at read
      cases second with
      | ofNat other => exact absurd (read ▸ List.mem_cons_self) (sign_not_mem_toString other)
      | negSucc otherFewer =>
          rw [toString_negSucc] at read
          have counts := toString_injective (String.toList_inj.mp (List.cons.inj read).2)
          exact congrArg Int.negSucc (Nat.succ.inj counts)

/-- A number below a power of ten has no more digits than the exponent says. -/
theorem length_toDigits_le {number limit : Nat} (positive : 0 < limit)
    (small : number < 10 ^ limit) : (Nat.toDigits 10 number).length ≤ limit :=
  (Nat.length_toDigits_le_iff (by decide) positive).mpr small

/-! ## Digits are word characters -/

/-- In a table in increasing order what lies in a range is covered. -/
theorem Ranges.covers_of_mem {table : Ranges}
    (increasing : table.Pairwise fun range next => range.1 ≤ next.1) {range : Nat × Nat}
    (listed : range ∈ table) {code : Nat} (low : range.1 ≤ code) (high : code ≤ range.2) :
    table.covers code = true := by
  induction table with
  | nil => cases listed
  | cons first rest inductionHypothesis =>
      obtain ⟨start, stop⟩ := first
      obtain ⟨before, others⟩ := List.pairwise_cons.mp increasing
      rcases List.mem_cons.mp listed with rfl | later
      · simp [show start ≤ code from low, show code ≤ stop from high]
      · have least : start ≤ code := Nat.le_trans (before range later) low
        simp [least, inductionHypothesis others later]

theorem increasing_wordCharRanges : wordCharRanges.Pairwise fun range next => range.1 ≤ next.1 := by
  have chained : wordCharRanges.IsChain fun range next => range.1 ≤ next.1 := by decide +kernel
  have transitive : IsTrans (Nat × Nat) fun range next => range.1 ≤ next.1 :=
    ⟨fun _ _ _ => Nat.le_trans⟩
  exact List.isChain_iff_pairwise.mp chained

/-- Every run of ten digits lies in a range of word characters. -/
theorem digits_within_wordCharRanges : (digitZeros.all fun base =>
    wordCharRanges.any fun range => Nat.ble range.1 base && Nat.ble (base + 9) range.2) = true := by
  decide +kernel

theorem isWordChar_of_isDigit {character : Char} (digit : isDigit character = true) :
    isWordChar character = true := by
  obtain ⟨value, found⟩ := Option.isSome_iff_exists.mp digit
  obtain ⟨base, listed, rfl⟩ := Option.map_eq_some_iff.mp found
  obtain ⟨low, high⟩ : base ≤ character.toNat ∧ character.toNat < base + 10 := by
    simpa using List.find?_some listed
  have within := List.all_eq_true.mp digits_within_wordCharRanges base
      (List.mem_of_find?_eq_some listed)
  obtain ⟨range, member, bounds⟩ := List.any_eq_true.mp within
  obtain ⟨first, last⟩ : range.1 ≤ base ∧ base + 9 ≤ range.2 := by simpa using bounds
  exact Ranges.covers_of_mem increasing_wordCharRanges member (by omega) (by omega)

end Text
end Galley
