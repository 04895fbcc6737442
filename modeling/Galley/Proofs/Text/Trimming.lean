import Galley.Proofs.Text.Ink

/-!
# Trimming

Trimming cuts off the blanks at the end of a text, as far back as its last character
that is not blank.
-/

namespace Galley
namespace Text

/-! ## Dropping at the end -/

/-- A list whose members do not all pass a test is cut at the last that does not. -/
theorem all_or_exists_last (test : α → Bool) (items : List α) :
    (∀ item ∈ items, test item = true) ∨
      ∃ front item back, items = front ++ item :: back ∧ test item = false ∧
        ∀ other ∈ back, test other = true := by
  induction items with
  | nil => exact Or.inl (by simp)
  | cons first rest inductionHypothesis =>
      rcases inductionHypothesis with pass | ⟨front, item, back, rfl, fails, pass⟩
      · cases found : test first with
        | true => exact Or.inl (List.forall_mem_cons.mpr ⟨found, pass⟩)
        | false => exact Or.inr ⟨[], first, rest, rfl, found, pass⟩
      · exact Or.inr ⟨first :: front, item, back, rfl, fails, pass⟩

theorem dropEndWhile_of_all {test : α → Bool} {items : List α}
    (pass : ∀ item ∈ items, test item = true) : dropEndWhile test items = [] := by
  simpa [dropEndWhile] using pass

/-- Items are dropped up to the last that does not pass. -/
theorem dropEndWhile_of_last {test : α → Bool} (front : List α) {item : α} {back : List α}
    (fails : test item = false) (pass : ∀ other ∈ back, test other = true) :
    dropEndWhile test (front ++ item :: back) = front ++ [item] := by
  have reversed : ∀ other ∈ back.reverse, test other = true :=
    fun other present => pass other (List.mem_reverse.mp present)
  rw [dropEndWhile, List.reverse_append, List.reverse_cons, List.append_assoc,
    List.dropWhile_append_of_pos reversed, List.singleton_append,
    List.dropWhile_cons_of_neg (by simp [fails])]
  simp

/-! ## Blanks at the end -/

theorem allBlank_nil : allBlank [] = true := rfl

@[simp] theorem allBlank_append (first second : List Char) :
    allBlank (first ++ second) = (allBlank first && allBlank second) := List.all_append

theorem allBlank_of_unblank {text : List Char} (some : text ≠ [])
    (shown : ∀ character ∈ text, isBlank character = false) : allBlank text = false := by
  obtain ⟨first, rest, rfl⟩ := List.exists_cons_of_ne_nil some
  simp [allBlank, shown first]

theorem exists_trimEnd (text : List Char) :
    ∃ tail, trimEnd text ++ tail = text ∧ allBlank tail = true := by
  obtain ⟨tail, whole, blanks⟩ := exists_dropEndWhile isBlank text
  exact ⟨tail, whole.symm, List.all_eq_true.mpr blanks⟩

/-- A trimmed text begins as the text does. -/
theorem mem_head?_of_trimEnd {text : List Char} {first : Char}
    (found : first ∈ (trimEnd text).head?) :
    first ∈ text.head? := by
  obtain ⟨tail, whole, -⟩ := exists_trimEnd text
  obtain ⟨rest, same⟩ := List.head?_eq_some_iff.mp found
  rw [same] at whole
  simp [← whole]

/-- Where the second part shows something, only its end is trimmed. -/
theorem trimEnd_append_of_shown (front : List Char) {back : List Char}
    (shown : allBlank back = false) : trimEnd (front ++ back) = front ++ trimEnd back := by
  rcases all_or_exists_last isBlank back with blank | ⟨before, last, after, rfl, fails, blank⟩
  · rw [allBlank, List.all_eq_true.mpr blank] at shown
    cases shown
  · rw [trimEnd, trimEnd, ← List.append_assoc, dropEndWhile_of_last _ fails blank,
      dropEndWhile_of_last _ fails blank, List.append_assoc]

theorem trimEnd_append_of_blank (front : List Char) {back : List Char}
    (blank : allBlank back = true) : trimEnd (front ++ back) = trimEnd front := by
  have all : ∀ character ∈ back.reverse, isBlank character = true := fun character present =>
    List.all_eq_true.mp blank character (List.mem_reverse.mp present)
  rw [trimEnd, trimEnd, dropEndWhile, dropEndWhile, List.reverse_append,
    List.dropWhile_append_of_pos all]

/-- Where nothing is trimmed, nothing is trimmed at the end of a part. -/
theorem trimEnd_of_append {front back : List Char}
    (kept : trimEnd (front ++ back) = front ++ back) : trimEnd back = back := by
  cases shown : allBlank back with
  | false =>
      rw [trimEnd_append_of_shown _ shown] at kept
      exact List.append_cancel_left kept
  | true =>
      rw [trimEnd_append_of_blank _ shown] at kept
      obtain ⟨tail, whole, -⟩ := exists_dropEndWhile isBlank front
      have shorter := congrArg List.length whole
      have same := congrArg List.length kept
      rw [trimEnd] at same
      simp only [List.length_append] at shorter same
      obtain rfl : back = [] := List.length_eq_zero_iff.mp (by omega)
      rfl

theorem trimEnd_of_blank {text : List Char} (blank : allBlank text = true) :
    trimEnd text = [] :=
  trimEnd_append_of_blank [] blank

@[simp] theorem trimEnd_trimEnd (text : List Char) :
    trimEnd (trimEnd text) = trimEnd text := by
  obtain ⟨tail, whole, blank⟩ := exists_trimEnd text
  rw [← trimEnd_append_of_blank (trimEnd text) blank, whole]

/-- Nothing is trimmed at the end of a text exactly if it does not end with a blank. -/
theorem trimEnd_eq_iff {text : List Char} :
    trimEnd text = text ↔ ∀ last ∈ text.getLast?, isBlank last = false := by
  rcases List.eq_nil_or_concat text with rfl | ⟨front, last, rfl⟩
  · exact ⟨fun _ => nofun, fun _ => rfl⟩
  · rw [List.concat_eq_append, List.getLast?_concat]
    cases blank : isBlank last with
    | false =>
        have kept : trimEnd (front ++ [last]) = front ++ [last] :=
          dropEndWhile_of_last front blank (by simp)
        simp [kept, blank]
    | true =>
        have shorter : trimEnd (front ++ [last]) ≠ front ++ [last] := by
          intro kept
          have alone := trimEnd_of_append kept
          rw [trimEnd_of_blank (by simp [allBlank, blank])] at alone
          cases alone
        simp [shorter, blank]

theorem not_mem_trimEnd {text : List Char} {character : Char} (apart : character ∉ text) :
    character ∉ trimEnd text :=
  fun present => apart ((dropEndWhile_sublist isBlank text).subset present)

/-- Nothing is trimmed where no character is blank. -/
theorem trimEnd_of_unblank {text : List Char}
    (shown : ∀ character ∈ text, isBlank character = false) :
    trimEnd text = text :=
  trimEnd_eq_iff.mpr fun last found => shown last (List.mem_of_getLast? found)

end Text
end Galley
