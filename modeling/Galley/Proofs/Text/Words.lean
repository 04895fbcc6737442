import Galley.Proofs.Text.Trimming

/-!
# Words

The words of a text are its longest runs of characters that are not blank.  Where a
blank stands between two texts, the words of both are those of the one and then those of
the other; else the last word of the first and the first word of the second grow
together.
-/

namespace Galley
namespace Text

/-! ## Texts with a blank between them -/

/-- Words are what stands between neighbouring blanks, if anything does. -/
theorem words_eq_filter (text : List Char) :
    words text = (text.splitOnP isBlank).filter fun run => !run.isEmpty := by
  induction text with
  | nil => rfl
  | cons character rest inductionHypothesis =>
      rw [words.eq_def, List.splitOnP_cons_eq_if_modifyHead]
      dsimp only
      split
      next => simpa using inductionHypothesis
      next shown =>
        cases rest with
        | nil => rfl
        | cons next more =>
            rw [inductionHypothesis, List.splitOnP_cons_eq_if_modifyHead]
            dsimp only
            split
            next => simp
            next =>
              obtain ⟨run, others, found⟩ := List.exists_cons_of_ne_nil
                  (List.splitOnP_ne_nil isBlank more)
              simp [found]

/-- A blank keeps words apart. -/
theorem words_append_cons {blank : Char} (isBlank : isBlank blank = true) (front back : List Char) :
    words (front ++ blank :: back) = words front ++ words back := by
  rw [words_eq_filter, List.splitOnP_append_cons front back isBlank, List.filter_append,
    ← words_eq_filter, ← words_eq_filter]

@[simp] theorem words_nil : words [] = [] := rfl

theorem words_of_unblank {text : List Char} (some : text ≠ [])
    (shown : ∀ character ∈ text, isBlank character = false) : words text = [text] := by
  rw [words_eq_filter, List.splitOnP_eq_singleton shown]
  simp [some]

/-- Words do not grow together where a blank ends the first text or begins the second. -/
theorem words_append {front back : List Char}
    (apart : ∀ last ∈ front.getLast?, ∀ first ∈ back.head?, isBlank last = true ∨
        isBlank first = true) :
    words (front ++ back) = words front ++ words back := by
  rcases List.eq_nil_or_concat front with rfl | ⟨before, last, rfl⟩
  · rfl
  · rw [List.concat_eq_append] at apart ⊢
    cases back with
    | nil => simp
    | cons first after =>
        rcases apart last (by simp) first rfl with blank | blank
        · rw [← List.append_cons, words_append_cons blank, words_append_cons blank, words_nil,
            List.append_nil]
        · have cut : words (first :: after) = words after := words_append_cons blank [] after
          rw [words_append_cons blank, cut]

theorem words_of_blank {text : List Char} (blank : allBlank text = true) : words text = [] := by
  induction text with
  | nil => rfl
  | cons character rest inductionHypothesis =>
      obtain ⟨here, below⟩ : isBlank character = true ∧ allBlank rest = true := by
        simpa [allBlank] using blank
      exact (words_append_cons here [] rest).trans (inductionHypothesis below)

theorem words_blank_append {blanks : List Char} (blank : allBlank blanks = true)
    (text : List Char) :
    words (blanks ++ text) = words text := by
  have ends : ∀ last ∈ blanks.getLast?, isBlank last = true := fun last found =>
    List.all_eq_true.mp blank last (List.mem_of_getLast? found)
  rw [words_append fun last found _ _ => Or.inl (ends last found), words_of_blank blank,
    List.nil_append]

theorem words_append_blank (text : List Char) {blanks : List Char}
    (blank : allBlank blanks = true) :
    words (text ++ blanks) = words text := by
  have begins : ∀ first ∈ blanks.head?, isBlank first = true := fun first found =>
    List.all_eq_true.mp blank first (List.mem_of_head? found)
  rw [words_append fun _ _ first found => Or.inr (begins first found),
    words_of_blank blank, List.append_nil]

@[simp] theorem words_trimEnd (text : List Char) : words (trimEnd text) = words text := by
  obtain ⟨tail, whole, blank⟩ := exists_trimEnd text
  rw [← words_append_blank (trimEnd text) blank, whole]

@[simp] theorem words_trimStart (text : List Char) : words (trimStart text) = words text := by
  have blank : allBlank (text.takeWhile isBlank) = true :=
    List.all_eq_true.mpr fun _ present => List.mem_takeWhile_imp present
  have whole : text.takeWhile isBlank ++ trimStart text = text := List.takeWhile_append_dropWhile
  rw [← words_blank_append blank (trimStart text), whole]

@[simp] theorem words_trim (text : List Char) : words (trim text) = words text := by
  rw [trim, words_trimEnd, words_trimStart]

/-- No word reaches over the end of a line. -/
theorem words_unlines (texts : List (List Char)) : words (unlines texts) = texts.flatMap words := by
  induction texts with
  | nil => rfl
  | cons line rest inductionHypothesis =>
      by_cases last : rest = []
      · simp [last]
      · rw [unlines_cons last, words_append_cons (by rfl), inductionHypothesis, List.flatMap_cons]

theorem flatMap_words_lines (text : List Char) : (lines text).flatMap words = words text := by
  rw [← words_unlines, unlines_lines]

/-! ## Texts with no blank between them -/

/-- What stands before the first blank of a text. -/
theorem exists_leading (text : List Char) :
    ∃ lead rest, text = lead ++ rest ∧ (∀ character ∈ lead, isBlank character = false) ∧
      ∀ first ∈ rest.head?, isBlank first = true := by
  refine ⟨text.takeWhile fun character => !isBlank character,
    text.dropWhile fun character => !isBlank character,
      List.takeWhile_append_dropWhile.symm, ?_, ?_⟩
  · exact fun character present => by simpa using List.mem_takeWhile_imp present
  · intro first found
    have stops := List.head?_dropWhile_not (fun character => !isBlank character) text
    rw [Option.mem_def.mp found] at stops
    simpa using stops

/-- What stands behind the last blank of a text. -/
theorem exists_trailing (text : List Char) :
    ∃ rest tail, text = rest ++ tail ∧ (∀ character ∈ tail, isBlank character = false) ∧
      ∀ last ∈ rest.getLast?, isBlank last = true := by
  rcases all_or_exists_last (fun character => !isBlank character) text with
    shown | ⟨front, last, tail, rfl, blank, shown⟩
  · exact ⟨[], text, rfl, by simpa using shown, nofun⟩
  · exact ⟨front ++ [last], tail, by simp, by simpa using shown, by simpa using blank⟩

/-- A run without blanks lies in a word. -/
theorem exists_mem_words_of_unblank {run : List Char} (some : run ≠ [])
    (shown : ∀ character ∈ run, isBlank character = false) (front back : List Char) :
    ∃ word ∈ words (front ++ run ++ back), run <:+: word := by
  obtain ⟨before, start, rfl, startShown, beforeBlank⟩ := exists_trailing front
  obtain ⟨lead, after, rfl, leadShown, afterBlank⟩ := exists_leading back
  have wordShown : ∀ character ∈ start ++ run ++ lead, isBlank character = false :=
    List.forall_mem_append.mpr ⟨List.forall_mem_append.mpr ⟨startShown, shown⟩, leadShown⟩
  have parts : before ++ start ++ run ++ (lead ++ after) =
      before ++ ((start ++ run ++ lead) ++ after) := by
    simp only [List.append_assoc]
  refine ⟨start ++ run ++ lead, ?_, start, lead, rfl⟩
  rw [parts, words_append fun last found _ _ => Or.inl (beforeBlank last found),
    words_append fun _ _ first found => Or.inr (afterBlank first found),
    words_of_unblank (by simp [some]) wordShown]
  simp

/-- A word stands in the text as it is. -/
theorem infix_of_mem_words {text word : List Char} (present : word ∈ words text) :
    word <:+: text := by
  obtain ⟨lead, rest, whole, shown, blank⟩ := exists_leading text
  rw [whole, words_append fun _ _ first found => Or.inr (blank first found)] at present
  rcases List.mem_append.mp present with here | later
  · by_cases none : lead = []
    · simp [none] at here
    · rw [words_of_unblank none shown, List.mem_singleton] at here
      rw [here, whole]
      exact (List.prefix_append lead rest).isInfix
  · cases rest with
    | nil => simp at later
    | cons first others =>
        have shorter : others.length < text.length := by
          rw [whole, List.length_append, List.length_cons]
          omega
        have cut : words (first :: others) = words others :=
          words_append_cons (blank first rfl) [] others
        have below : word <:+: others := infix_of_mem_words (cut ▸ later)
        exact below.trans ⟨lead ++ [first], [], by simp [whole]⟩
termination_by text.length

/-! ## Words in parts -/

/-- Words are split into parts, in order: nothing is lost, nothing is added, and no two
words are joined. -/
def Splits (parts whole : List (List Char)) : Prop :=
  ∃ groups : List (List (List Char)), groups.flatten = parts ∧ groups.map List.flatten = whole

namespace Splits

theorem refl (texts : List (List Char)) : Splits texts texts :=
  ⟨texts.map fun word => [word], by simp [← List.flatMap_def], by simp [Function.comp_def]⟩

theorem append {first second third fourth : List (List Char)} (left : Splits first second)
    (right : Splits third fourth) : Splits (first ++ third) (second ++ fourth) := by
  obtain ⟨groups, rfl, rfl⟩ := left
  obtain ⟨others, rfl, rfl⟩ := right
  exact ⟨groups ++ others, by simp, by simp⟩

theorem trans {first second third : List (List Char)} (inner : Splits first second)
    (outer : Splits second third) : Splits first third := by
  obtain ⟨groups, rfl, rfl⟩ := outer
  induction groups generalizing first with
  | nil => exact inner
  | cons group rest inductionHypothesis =>
      obtain ⟨parts, rfl, same⟩ := inner
      obtain ⟨here, below, rfl, hereSame, belowSame⟩ := List.map_eq_append_iff.mp same
      have others := inductionHypothesis ⟨below, rfl, belowSame⟩
      have joined : Splits here.flatten [group.flatten] :=
        ⟨[here.flatten], by simp, by simp [← hereSame, List.flatten_flatten]⟩
      rw [List.flatten_append]
      exact joined.append others

end Splits

/-- Cutting a text anywhere splits its words. -/
theorem splits_words_append (front back : List Char) :
    Splits (words front ++ words back) (words (front ++ back)) := by
  obtain ⟨before, tail, rfl, tailShown, beforeBlank⟩ := exists_trailing front
  obtain ⟨lead, after, rfl, leadShown, afterBlank⟩ := exists_leading back
  have parts : before ++ tail ++ (lead ++ after) = before ++ ((tail ++ lead) ++ after) := by
    simp only [List.append_assoc]
  have middle : Splits (words tail ++ words lead) (words (tail ++ lead)) := by
    by_cases noTail : tail = []
    · rw [noTail]
      exact Splits.refl _
    by_cases noLead : lead = []
    · rw [noLead, List.append_nil, words_nil, List.append_nil]
      exact Splits.refl _
    have shown : ∀ character ∈ tail ++ lead, isBlank character = false :=
      List.forall_mem_append.mpr ⟨tailShown, leadShown⟩
    rw [words_of_unblank noTail tailShown, words_of_unblank noLead leadShown,
      words_of_unblank (by simp [noTail]) shown]
    exact ⟨[[tail, lead]], by simp, by simp⟩
  rw [parts, words_append fun last found _ _ => Or.inl (beforeBlank last found),
    words_append fun last found _ _ => Or.inl (beforeBlank last found),
    words_append fun _ _ first found => Or.inr (afterBlank first found),
    words_append fun _ _ first found => Or.inr (afterBlank first found)]
  simpa only [List.append_assoc] using
    (Splits.refl (words before)).append (middle.append (Splits.refl (words after)))

end Text
end Galley
