import Galley.Text.Blank
import Galley.Text.Lines
import Mathlib.Data.List.TakeWhile

/-!
# Ink

The ink of a text is what remains when all its blanks are deleted.  Layout moves, adds
and drops blanks; a text is respaced when each of its blanks is replaced by some blanks,
or none, and all other characters stay where they are.
-/

namespace Galley
namespace Text

/-- The characters of a text that are not blank. -/
def ink (text : List Char) : List Char :=
  text.filter fun character => !isBlank character

/-- Graphic ASCII characters are not blank. -/
theorem isBlank_eq_false_of_graphic {character : Char}
    (low : 0x21 ≤ character.toNat) (high : character.toNat ≤ 0x7e) :
    isBlank character = false := by
  unfold isBlank
  simp only [Bool.or_eq_false_iff, Bool.and_eq_false_iff, decide_eq_false_iff_not,
    beq_eq_false_iff_ne]
  omega

@[simp] theorem ink_nil : ink [] = [] := rfl

@[simp] theorem ink_append (first second : List Char) :
    ink (first ++ second) = ink first ++ ink second :=
  List.filter_append first second

theorem ink_cons (character : Char) (rest : List Char) :
    ink (character :: rest) = (if isBlank character then [] else [character]) ++ ink rest := by
  by_cases blank : isBlank character <;> simp [ink, blank]

@[simp] theorem ink_cons_space (rest : List Char) : ink (' ' :: rest) = ink rest := rfl

@[simp] theorem ink_cons_newline (rest : List Char) : ink ('\n' :: rest) = ink rest := rfl

@[simp] theorem mem_ink {character : Char} {text : List Char} :
    character ∈ ink text ↔ character ∈ text ∧ isBlank character = false := by
  simp [ink]

/-- Texts with the same ink hold the same characters that are not blank. -/
theorem mem_congr_of_ink
    {first second : List Char} {character : Char}
    (same : ink first = ink second)
    (shown : isBlank character = false) :
    character ∈ first ↔ character ∈ second := by
  have left := @mem_ink character first
  have right := @mem_ink character second
  rw [same] at left
  simpa [shown] using left.symm.trans right

/-- A text without ink is blank. -/
theorem ink_eq_nil_iff {text : List Char} : ink text = [] ↔ allBlank text = true := by
  simp [ink, allBlank, List.filter_eq_nil_iff]

theorem ink_flatMap (spread : α → List Char) (items : List α) :
    ink (items.flatMap spread) = items.flatMap fun item => ink (spread item) := by
  induction items with
  | nil => rfl
  | cons item rest inductionHypothesis => simp [inductionHypothesis]

theorem ink_flatten (texts : List (List Char)) : ink texts.flatten = texts.flatMap ink := by
  simpa using ink_flatMap id texts

/-- Newlines between lines are no ink. -/
theorem ink_unlines (lines : List (List Char)) : ink (unlines lines) = lines.flatMap ink := by
  induction lines with
  | nil => rfl
  | cons line others inductionHypothesis =>
      cases others with
      | nil => simp
      | cons next rest =>
          rw [unlines_cons (by simp), ink_append, ink_cons_newline, inductionHypothesis]
          rfl

theorem flatMap_ink_lines (text : List Char) : (lines text).flatMap ink = ink text := by
  rw [← ink_unlines, unlines_lines]

/-- Lines behind the first ones each follow a newline. -/
theorem unlines_append_left {first : List (List Char)} (more : first ≠ [])
    (second : List (List Char)) :
    unlines (first ++ second) = unlines first ++ second.flatMap ('\n' :: ·) := by
  induction first with
  | nil => exact absurd rfl more
  | cons line rest inductionHypothesis =>
      by_cases last : rest = []
      · subst last
        induction second generalizing line with
        | nil => simp
        | cons next others below =>
            have deeper := below next (by simp) (by simp)
            simp only [List.singleton_append] at deeper ⊢
            rw [unlines_cons (by simp), deeper]
            simp
      · rw [List.cons_append, unlines_cons (by simp [last]), unlines_cons last,
          inductionHypothesis last]
        simp

/-- Lines before the last ones each have a newline behind them. -/
theorem unlines_append_right {second : List (List Char)} (more : second ≠ [])
    (first : List (List Char)) :
    unlines (first ++ second) = first.flatMap (· ++ ['\n']) ++ unlines second := by
  induction first with
  | nil => rfl
  | cons line rest inductionHypothesis =>
      rw [List.cons_append, unlines_cons (by simp [more]), inductionHypothesis]
      simp

theorem unlines_append {first second : List (List Char)} (some : first ≠ []) (more : second ≠ []) :
    unlines (first ++ second) = unlines first ++ '\n' :: unlines second := by
  induction first with
  | nil => exact absurd rfl some
  | cons line rest inductionHypothesis =>
      by_cases last : rest = []
      · subst last
        exact unlines_cons more
      · rw [List.cons_append, unlines_cons (by simp [more]), inductionHypothesis last,
          unlines_cons last]
        simp

/-- Lines may be joined in groups first. -/
theorem unlines_flatMap {spread : List Char → List (List Char)} {texts : List (List Char)}
    (some : ∀ text ∈ texts, spread text ≠ []) :
    unlines (texts.flatMap spread) = unlines (texts.map fun text => unlines (spread text)) := by
  induction texts with
  | nil => rfl
  | cons text rest inductionHypothesis =>
      obtain ⟨first, others⟩ := List.forall_mem_cons.mp some
      cases rest with
      | nil => simp
      | cons next more =>
          have behind : (next :: more).flatMap spread ≠ [] := by
            simp [(List.forall_mem_cons.mp others).1]
          have further : (next :: more).map (fun text => unlines (spread text)) ≠ [] := by simp
          rw [List.flatMap_cons, unlines_append first behind, inductionHypothesis others]
          exact (unlines_cons further).symm

/-- Lines without newlines are found again. -/
theorem lines_unlines {texts : List (List Char)} (some : texts ≠ [])
    (whole : ∀ line ∈ texts, '\n' ∉ line) : lines (unlines texts) = texts := by
  have single (line rest : List Char) (apart : '\n' ∉ line) :
      lines (line ++ '\n' :: rest) = line :: lines rest := by
    induction line with
    | nil => rfl
    | cons character others inductionHypothesis =>
        obtain ⟨first, behind⟩ : '\n' ≠ character ∧ '\n' ∉ others := by simpa using apart
        rw [List.cons_append, lines, if_neg (Ne.symm first), inductionHypothesis behind]
  have last (line : List Char) (apart : '\n' ∉ line) : lines line = [line] := by
    induction line with
    | nil => rfl
    | cons character others inductionHypothesis =>
        obtain ⟨first, behind⟩ : '\n' ≠ character ∧ '\n' ∉ others := by simpa using apart
        rw [lines, if_neg (Ne.symm first), inductionHypothesis behind]
  induction texts with
  | nil => exact absurd rfl some
  | cons line rest inductionHypothesis =>
      obtain ⟨here, others⟩ := List.forall_mem_cons.mp whole
      cases rest with
      | nil => exact last line here
      | cons next more =>
          rw [unlines_cons (by simp), single line _ here, inductionHypothesis (by simp) others]

/-- No line holds a newline. -/
theorem not_mem_of_mem_lines {text line : List Char} (present : line ∈ lines text) :
    '\n' ∉ line := by
  induction text generalizing line with
  | nil =>
      rw [lines_nil, List.mem_singleton] at present
      simp [present]
  | cons character rest inductionHypothesis =>
      rw [lines] at present
      split at present
      · rcases List.mem_cons.mp present with rfl | later
        · simp
        · exact inductionHypothesis later
      · rename_i other
        split at present
        · rw [List.mem_singleton.mp present]
          simpa using Ne.symm other
        · rename_i first others found
          rcases List.mem_cons.mp present with rfl | later
          · have below : '\n' ∉ first := inductionHypothesis (by simp [found])
            simpa [Ne.symm other] using below
          · exact inductionHypothesis (by simp [found, later])

/-- A text without newlines is one line. -/
theorem lines_of_not_mem {line : List Char} (whole : '\n' ∉ line) : lines line = [line] :=
  lines_unlines (List.cons_ne_nil line []) (List.forall_mem_singleton.mpr whole)

/-- A newline ends a line. -/
theorem lines_append_newline (front back : List Char) :
    lines (front ++ '\n' :: back) = lines front ++ lines back := by
  induction front with
  | nil => rfl
  | cons character rest inductionHypothesis =>
      obtain ⟨line, others, found⟩ := List.exists_cons_of_ne_nil (lines_ne_nil rest)
      rw [List.cons_append, lines, inductionHypothesis, lines, found]
      split <;> rfl

/-- The beginning of the first line is the beginning of the text. -/
theorem unlines_cons_append (start line : List Char) (others : List (List Char)) :
    unlines ((start ++ line) :: others) = start ++ unlines (line :: others) := by
  cases others with
  | nil => rfl
  | cons next rest => simp [unlines]

/-- What is dropped at the end of a list satisfies the test. -/
theorem exists_dropEndWhile (test : α → Bool) (items : List α) :
    ∃ tail, items = dropEndWhile test items ++ tail ∧ ∀ item ∈ tail, test item = true := by
  refine ⟨(items.reverse.takeWhile test).reverse, ?_, fun item present => ?_⟩
  · rw [dropEndWhile, ← List.reverse_append, List.takeWhile_append_dropWhile, List.reverse_reverse]
  · exact List.mem_takeWhile_imp (List.mem_reverse.mp present)

theorem dropEndWhile_sublist (test : α → Bool) (items : List α) :
    (dropEndWhile test items).Sublist items := by
  obtain ⟨tail, whole, -⟩ := exists_dropEndWhile test items
  have front : dropEndWhile test items <+: items := ⟨tail, whole.symm⟩
  exact front.sublist

/-- Dropping as many entries as the first part has leaves the second part. -/
theorem drop_length_of_append {whole first second : List α} (parts : whole = first ++ second) :
    whole.drop first.length = second := by
  rw [parts, List.drop_left]

/-- A run of one class ends before the first item that is not of the class. -/
theorem takeWhile_append_of_head {test : α → Bool} {run back : List α}
    (inside : ∀ item ∈ run, test item = true) (ends : ∀ item ∈ back.head?, test item = false) :
    (run ++ back).takeWhile test = run := by
  rw [List.takeWhile_append_of_pos inside]
  cases back with
  | nil => simp
  | cons item rest => simp [ends item rfl]

/-- Where a run of one class ends can be told from the whole list. -/
theorem run_append_inj {test : α → Bool} {run back run' back' : List α}
    (inside : ∀ item ∈ run, test item = true) (ends : ∀ item ∈ back.head?, test item = false)
    (inside' : ∀ item ∈ run', test item = true) (ends' : ∀ item ∈ back'.head?, test item = false)
    (same : run ++ back = run' ++ back') : run = run' ∧ back = back' := by
  have runs : run = run' := by
    rw [← takeWhile_append_of_head inside ends, same, takeWhile_append_of_head inside' ends']
  subst runs
  exact ⟨rfl, List.append_cancel_left same⟩

theorem ink_of_forall {text : List Char} (blank : ∀ character ∈ text, isBlank character = true) :
    ink text = [] :=
  ink_eq_nil_iff.mpr (List.all_eq_true.mpr blank)

/-- Trimming drops no ink. -/
@[simp] theorem ink_trimEnd (text : List Char) : ink (trimEnd text) = ink text := by
  obtain ⟨tail, whole, blank⟩ := exists_dropEndWhile isBlank text
  have dropped := congrArg ink whole
  rw [ink_append, ink_of_forall blank, List.append_nil] at dropped
  exact dropped.symm

@[simp] theorem ink_trimStart (text : List Char) : ink (trimStart text) = ink text := by
  have whole : text.takeWhile isBlank ++ trimStart text = text :=
    List.takeWhile_append_dropWhile
  have dropped := congrArg ink whole
  rwa [ink_append, ink_of_forall fun _ present => List.mem_takeWhile_imp present,
    List.nil_append] at dropped

/-! ## Texts without NUL -/

/-- A text holds no NUL character. -/
def NulFree (text : List Char) : Prop :=
  '\x00' ∉ text

instance (text : List Char) : Decidable (NulFree text) :=
  inferInstanceAs (Decidable ('\x00' ∉ text))

@[simp] theorem nulFree_nil : NulFree [] := by simp [NulFree]

@[simp] theorem nulFree_append {first second : List Char} :
    NulFree (first ++ second) ↔ NulFree first ∧ NulFree second := by
  simp [NulFree]

@[simp] theorem nulFree_cons {character : Char} {rest : List Char} :
    NulFree (character :: rest) ↔ character ≠ '\x00' ∧ NulFree rest := by
  simp [NulFree, eq_comm]

theorem not_mem_intercalate {item : α} {separator : List α} {pieces : List (List α)}
    (apart : item ∉ separator) (each : ∀ piece ∈ pieces, item ∉ piece) :
    item ∉ separator.intercalate pieces := by
  induction pieces with
  | nil => simp
  | cons piece rest inductionHypothesis =>
      have below := inductionHypothesis fun other present => each other (by simp [present])
      cases rest with
      | nil => simpa using each piece (by simp)
      | cons next others =>
          rw [List.intercalate_cons_cons]
          simp [each piece (by simp), apart, below]

/-- NUL is ink, so texts with the same ink agree on it. -/
theorem nulFree_congr {first second : List Char} (same : ink first = ink second) :
    NulFree first ↔ NulFree second :=
  not_congr (mem_congr_of_ink same (by decide))

theorem nulFree_of_ink_eq_nil {text : List Char} (blank : ink text = []) : NulFree text :=
  (nulFree_congr (blank.trans ink_nil.symm)).mpr nulFree_nil

/-! ## Respacing -/

/-- Each blank of the first text stands for some blanks of the second, and all other
characters are kept. -/
inductive Respaced : List Char → List Char → Prop
  /-- The empty text. -/
  | nil : Respaced [] []
  /-- A character is kept. -/
  | keep (character : Char) {text other : List Char} :
      Respaced text other → Respaced (character :: text) (character :: other)
  /-- A blank is replaced. -/
  | blank {character : Char} {blanks text other : List Char} :
      isBlank character = true → allBlank blanks = true → Respaced text other →
        Respaced (character :: text) (blanks ++ other)

namespace Respaced

theorem refl (text : List Char) : Respaced text text := by
  induction text with
  | nil => exact nil
  | cons character rest inductionHypothesis => exact keep character inductionHypothesis

theorem append
    {first first' second second' : List Char}
    (left : Respaced first first')
    (right : Respaced second second') :
    Respaced (first ++ second) (first' ++ second') := by
  induction left with
  | nil => exact right
  | keep character _ inductionHypothesis => exact keep character inductionHypothesis
  | blank present blanks _ inductionHypothesis =>
      rw [List.append_assoc]
      exact blank present blanks inductionHypothesis

/-- A blank may be dropped. -/
theorem drop
    {character : Char} {text other : List Char}
    (present : isBlank character = true)
    (rest : Respaced text other) :
    Respaced (character :: text) other :=
  blank present (show allBlank [] = true from rfl) rest

/-- Blanks may be dropped altogether. -/
theorem drop_all
    {blanks : List Char}
    (blank : ∀ character ∈ blanks, isBlank character = true) :
    Respaced blanks [] := by
  induction blanks with
  | nil => exact nil
  | cons character rest inductionHypothesis =>
      exact drop (blank character (by simp))
        (inductionHypothesis fun other present => blank other (by simp [present]))

/-- One more blank may come before a blank. -/
theorem insert
    {character added : Char} {text other : List Char}
    (present : isBlank character = true)
    (extra : isBlank added = true)
    (respaced : Respaced (character :: text) other) :
    Respaced (character :: text) (added :: other) := by
  cases respaced with
  | keep _ rest =>
      have pair : allBlank [added, character] = true := by simp [allBlank, extra, present]
      exact blank present pair rest
  | @blank _ blanks _ _ _ allBlanks rest =>
      have more : allBlank (added :: blanks) = true := by
        simpa [allBlank, extra] using allBlanks
      exact blank present more rest

/-- Respacing keeps the ink. -/
theorem ink_eq {text other : List Char} (respaced : Respaced text other) :
    ink text = ink other := by
  induction respaced with
  | nil => rfl
  | keep character _ inductionHypothesis => rw [ink_cons, ink_cons, inductionHypothesis]
  | blank present blanks _ inductionHypothesis =>
      rw [ink_cons, ink_append, ink_eq_nil_iff.mpr blanks, inductionHypothesis]
      simp [present]

/-- What holds no blank stays together. -/
theorem append_left_inv
    {solid text other : List Char}
    (shown : ∀ character ∈ solid, isBlank character = false)
    (respaced : Respaced (solid ++ text) other) :
    ∃ rest, other = solid ++ rest ∧ Respaced text rest := by
  induction solid generalizing other with
  | nil => exact ⟨other, rfl, respaced⟩
  | cons character solid inductionHypothesis =>
      cases respaced with
      | keep _ below =>
          obtain ⟨rest, rfl, found⟩ := inductionHypothesis
            (fun inner present => shown inner (by simp [present])) below
          exact ⟨rest, rfl, found⟩
      | blank present _ _ =>
          rw [shown character (by simp)] at present
          cases present

/-- What holds no blank stays together at the end. -/
theorem append_right_inv
    {solid text other : List Char}
    (shown : ∀ character ∈ solid, isBlank character = false)
    (respaced : Respaced (text ++ solid) other) :
    ∃ front, other = front ++ solid ∧ Respaced text front := by
  induction text generalizing other with
  | nil =>
      rw [List.nil_append, ← List.append_nil solid] at respaced
      obtain ⟨rest, rfl, below⟩ := append_left_inv shown respaced
      cases below
      exact ⟨[], by simp, nil⟩
  | cons character text inductionHypothesis =>
      cases respaced with
      | keep _ below =>
          obtain ⟨front, rfl, found⟩ := inductionHypothesis below
          exact ⟨character :: front, rfl, keep character found⟩
      | blank present blanks below =>
          obtain ⟨front, rfl, found⟩ := inductionHypothesis below
          exact ⟨_, (List.append_assoc ..).symm, blank present blanks found⟩

theorem trimStart (text : List Char) : Respaced text (Text.trimStart text) := by
  have whole : text.takeWhile isBlank ++ Text.trimStart text = text :=
    List.takeWhile_append_dropWhile
  have blanks : Respaced (text.takeWhile isBlank) [] :=
    drop_all fun _ present => List.mem_takeWhile_imp present
  have dropped := append blanks (refl (Text.trimStart text))
  rwa [whole] at dropped

theorem trimEnd (text : List Char) : Respaced text (Text.trimEnd text) := by
  obtain ⟨tail, whole, blank⟩ := exists_dropEndWhile isBlank text
  have dropped := append (refl (dropEndWhile isBlank text)) (drop_all blank)
  rwa [← whole, List.append_nil] at dropped

end Respaced
end Text
end Galley
