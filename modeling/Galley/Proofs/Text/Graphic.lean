import Galley.Proofs.Text.Ink

/-!
# Graphic texts

Numerals are made of graphic ASCII characters, which are no blanks, no newlines and no
NUL.
-/

namespace Galley
namespace Text

/-- A text of graphic ASCII characters. -/
def Graphic (text : List Char) : Prop :=
  ∀ character ∈ text, 0x21 ≤ character.toNat ∧ character.toNat ≤ 0x7e

theorem graphic_nil : Graphic [] := List.forall_mem_nil _

theorem graphic_append {first second : List Char} :
    Graphic (first ++ second) ↔ Graphic first ∧ Graphic second := List.forall_mem_append

theorem graphic_singleton {character : Char} :
    Graphic [character] ↔ 0x21 ≤ character.toNat ∧ character.toNat ≤ 0x7e :=
  List.forall_mem_singleton

/-- A graphic text holds no character outside of the graphic range. -/
theorem Graphic.not_mem {text : List Char} (graphic : Graphic text) {character : Char}
    (outside : character.toNat < 0x21) : character ∉ text :=
  fun present => absurd (graphic character present).1 (by omega)

/-- What holds of the separator and of all texts holds of the joined text. -/
theorem forall_mem_intercalate {allowed : Char → Prop} {separator : String}
    (between : ∀ character ∈ separator.toList, allowed character) {texts : List String}
    (each : ∀ text ∈ texts, ∀ character ∈ text.toList, allowed character) :
    ∀ character ∈ (separator.intercalate texts).toList, allowed character := by
  induction texts with
  | nil => simp
  | cons text rest inductionHypothesis =>
      obtain ⟨first, others⟩ := List.forall_mem_cons.mp each
      have below := inductionHypothesis others
      cases rest with
      | nil => simpa using first
      | cons next others =>
          rw [String.intercalate_cons_cons, String.toList_append, String.toList_append]
          exact List.forall_mem_append.mpr ⟨List.forall_mem_append.mpr ⟨first, between⟩, below⟩

/-! ## Numerals -/

theorem graphic_digitChar (digit : Nat) :
    0x21 ≤ digit.digitChar.toNat ∧ digit.digitChar.toNat ≤ 0x7e := by
  match digit with
  | 0 | 1 | 2 | 3 | 4 | 5 | 6 | 7 | 8 | 9 | 10 | 11 | 12 | 13 | 14 | 15 => decide
  | more + 16 => simp [Nat.digitChar]

theorem graphic_toDigits {base : Nat} (proper : 1 < base) (number : Nat) :
    Graphic (Nat.toDigits base number) := by
  induction number using Nat.strongRecOn with
  | ind number inductionHypothesis =>
      rw [Nat.toDigits_eq_if proper]
      split
      · exact graphic_singleton.mpr (graphic_digitChar number)
      · rename_i large
        have smaller : number / base < number := Nat.div_lt_self (by omega) proper
        exact graphic_append.mpr
          ⟨inductionHypothesis _ smaller, graphic_singleton.mpr (graphic_digitChar _)⟩

theorem graphic_toString_nat (number : Nat) : Graphic (toString number).toList := by
  rw [Nat.toString_eq_ofList_toDigits, String.toList_ofList]
  exact graphic_toDigits (by decide) number

theorem graphic_toString_int (number : Int) : Graphic (toString number).toList := by
  cases number with
  | ofNat natural => exact graphic_toString_nat natural
  | negSucc natural =>
      have spelled : toString (Int.negSucc natural) = "-" ++ toString (natural + 1) := rfl
      rw [spelled, String.toList_append]
      exact graphic_append.mpr ⟨graphic_singleton.mpr (by decide), graphic_toString_nat _⟩

end Text
end Galley
