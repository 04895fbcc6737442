import Galley.Proofs.Layout.Faithful
import Galley.Proofs.Layout.Shifting

/-!
# Reading code back

Code is indented piece by piece, where a piece ends at any line boundary, but it is read
back line by line, where a line ends at a newline.  A line whose own boundaries have
nothing to show behind them gets its spaces once, at its start, and can be read back.
Any other line gets spaces in its middle, and they stay.
-/

namespace Galley
namespace Layout

open Text

/-! ## Boundaries -/

theorem boundedLines_ne_nil {text : List Char} (some : text ≠ []) :
    boundedLines text ≠ [] := fun none => by
  have whole := flatten_boundedLines text
  rw [none] at whole
  exact some whole.symm

/-- A boundary ends a piece, unless it is a carriage return before a newline. -/
theorem boundedLines_append_boundary {boundary : Char} {back : List Char}
    (ends : isLineBoundary boundary = true) (apart : boundary = '\r' → back.head? ≠ some '\n')
    (front : List Char) :
    boundedLines (front ++ boundary :: back) =
      boundedLines (front ++ [boundary]) ++ boundedLines back := by
  induction front with
  | nil =>
      have closes : (boundary == '\r' && back.head? == some '\n') = false := by simpa using apart
      simp [boundedLines, ends, closes]
  | cons character rest inductionHypothesis =>
      have same : (rest ++ boundary :: back).head? = (rest ++ [boundary]).head? := by
        cases rest <;> rfl
      have some : boundedLines (rest ++ [boundary]) ≠ [] := boundedLines_ne_nil (by simp)
      obtain ⟨line, others, found⟩ := List.exists_cons_of_ne_nil some
      rw [List.cons_append, boundedLines, same, inductionHypothesis, List.cons_append,
        boundedLines, found]
      split <;> rfl

/-- A text with no boundary before its last character is one piece. -/
theorem boundedLines_of_smooth {text : List Char} (some : text ≠ [])
    (smooth : ∀ character ∈ text.dropLast, isLineBoundary character = false) :
    boundedLines text = [text] := by
  induction text with
  | nil => exact absurd rfl some
  | cons character rest inductionHypothesis =>
      cases rest with
      | nil =>
          rw [boundedLines]
          split <;> rfl
      | cons next more =>
          obtain ⟨here, others⟩ := List.forall_mem_cons.mp smooth
          rw [boundedLines, inductionHypothesis (List.cons_ne_nil _ _) others]
          simp [here]

/-- A newline behind a text is joined to its last piece, or is a piece of its own. -/
theorem boundedLines_append_newline (text : List Char) :
    ∃ front last, boundedLines (text ++ ['\n']) = front ++ [last ++ ['\n']] ∧
      boundedLines text = front ++ if last = [] then [] else [last] := by
  induction text with
  | nil => exact ⟨[], [], rfl, rfl⟩
  | cons character rest inductionHypothesis =>
      obtain ⟨front, last, closed, opened⟩ := inductionHypothesis
      cases rest with
      | nil =>
          have alone : boundedLines [character] = [[character]] :=
            boundedLines_of_smooth (List.cons_ne_nil character []) nofun
          have newline : boundedLines ['\n'] = [['\n']] := rfl
          rw [alone, List.singleton_append, boundedLines, newline]
          dsimp only
          split
          · exact ⟨[[character]], [], rfl, rfl⟩
          · exact ⟨[], [character], rfl, rfl⟩
      | cons next more =>
          have some : boundedLines (next :: more) ≠ [] :=
            boundedLines_ne_nil (List.cons_ne_nil next more)
          rw [List.cons_append] at closed
          rw [List.cons_append, List.cons_append, boundedLines, closed, boundedLines,
            List.head?_cons,
            List.head?_cons]
          split
          · exact ⟨[character] :: front, last, rfl, by rw [opened, List.cons_append]⟩
          · rw [opened] at some ⊢
            cases front with
            | nil =>
                have lastSome : last ≠ [] := fun none => by simp [none] at some
                exact ⟨[], character :: last, rfl, by simp [lastSome]⟩
            | cons line others => exact ⟨(character :: line) :: others, last, rfl, rfl⟩

/-! ## Pieces with their spaces -/

@[simp] theorem shiftLine_zero (line : List Char) : shiftLine 0 line = line := by
  unfold shiftLine
  split <;> rfl

/-- Blanks behind a line do not change where it is shifted. -/
theorem shiftLine_append_of_blank (count : Nat) (line : List Char) {blanks : List Char}
    (blank : allBlank blanks = true) :
    shiftLine count (line ++ blanks) = shiftLine count line ++ blanks := by
  unfold shiftLine
  rw [allBlank_append, blank, Bool.and_true]
  split
  · rfl
  · rw [List.append_assoc]

/-- Spaces before every piece that shows something, where a piece ends at any line
boundary. -/
def shiftPieces (count : Nat) (text : List Char) : List Char :=
  (boundedLines text).flatMap (shiftLine count)

@[simp] theorem shiftPieces_zero (text : List Char) : shiftPieces 0 text = text := by
  rw [shiftPieces, List.flatMap_congr fun line _ => shiftLine_zero line]
  simp

/-- Code is indented piece by piece. -/
theorem indentVerbatim_eq (indent : Nat) (content : List Char) :
    indentVerbatim indent content = shiftPieces indent content := by
  unfold indentVerbatim
  split
  next none => rw [none, shiftPieces_zero]
  next => rfl

section Pieces

variable (count : Nat)

theorem shiftPieces_append {boundary : Char} {back : List Char}
    (ends : isLineBoundary boundary = true)
    (apart : boundary = '\r' → back.head? ≠ some '\n') (front : List Char) :
    shiftPieces count (front ++ boundary :: back) =
      shiftPieces count (front ++ [boundary]) ++ shiftPieces count back := by
  rw [shiftPieces, boundedLines_append_boundary ends apart, List.flatMap_append]
  rfl

theorem shiftPieces_of_smooth {text : List Char}
    (smooth : ∀ character ∈ text.dropLast, isLineBoundary character = false) :
    shiftPieces count text = shiftLine count text := by
  by_cases none : text = []
  · rw [none]
    rfl
  · rw [shiftPieces, boundedLines_of_smooth none smooth, List.flatMap_singleton]

theorem shiftPieces_of_blank {text : List Char} (blank : allBlank text = true) :
    shiftPieces count text = text := by
  have each : ∀ piece ∈ boundedLines text, shiftLine count piece = piece := fun piece listed => by
    refine shiftLine_of_blank (List.all_eq_true.mpr fun character present => ?_) count
    refine List.all_eq_true.mp blank character ?_
    rw [← flatten_boundedLines text]
    exact List.mem_flatten_of_mem listed present
  rw [shiftPieces, List.flatMap_congr each]
  simp

/-- The pieces of two lines are shifted apart. -/
theorem shiftPieces_append_newline (front back : List Char) :
    shiftPieces count (front ++ '\n' :: back) =
      shiftPieces count front ++ '\n' :: shiftPieces count back := by
  have closed : shiftPieces count (front ++ ['\n']) = shiftPieces count front ++ ['\n'] := by
    obtain ⟨pieces, last, closed, opened⟩ := boundedLines_append_newline front
    rw [shiftPieces, closed, shiftPieces, opened, List.flatMap_append, List.flatMap_append,
      List.flatMap_singleton, shiftLine_append_of_blank count last (by rfl), ← List.append_assoc]
    split
    next none => rw [none]; rfl
    next => rw [List.flatMap_singleton]
  rw [shiftPieces_append count (by rfl) (absurd · (by decide)), closed, List.append_assoc]
  rfl

theorem newline_not_mem_shiftPieces {line : List Char} (newline : '\n' ∉ line) :
    '\n' ∉ shiftPieces count line := fun present => by
  obtain ⟨piece, listed, inside⟩ := List.mem_flatMap.mp present
  refine newline_not_mem_shiftLine (fun held => newline ?_) count inside
  rw [← flatten_boundedLines line]
  exact List.mem_flatten_of_mem listed held

/-- Lines are indented one by one. -/
theorem shiftPieces_eq (text : List Char) :
    shiftPieces count text = unlines ((lines text).map (shiftPieces count)) := by
  have joined (texts : List (List Char)) :
      shiftPieces count (unlines texts) = unlines (texts.map (shiftPieces count)) := by
    induction texts with
    | nil => rfl
    | cons line rest inductionHypothesis =>
        by_cases last : rest = []
        · rw [last]
          rfl
        · rw [unlines_cons last, shiftPieces_append_newline, inductionHypothesis, List.map_cons,
            unlines_cons (by simpa using last)]
  rw [← joined, unlines_lines]

theorem lines_shiftPieces (text : List Char) :
    lines (shiftPieces count text) = (lines text).map (shiftPieces count) := by
  rw [shiftPieces_eq, lines_unlines (by simpa using lines_ne_nil text)]
  exact List.forall_mem_map.mpr fun line listed =>
    newline_not_mem_shiftPieces count (not_mem_of_mem_lines listed)

end Pieces

/-! ## Seams -/

/-- Nothing shows behind a boundary in a line. -/
def Seamless (line : List Char) : Prop :=
  ∀ front boundary back, line = front ++ boundary :: back → isLineBoundary boundary = true →
    allBlank back = true

@[simp] theorem seamless_nil : Seamless [] := fun front boundary back parts => by simp at parts

theorem seamless_cons (character : Char) (rest : List Char) :
    Seamless (character :: rest) ↔
      (isLineBoundary character = true → allBlank rest = true) ∧ Seamless rest := by
  constructor
  · intro seamless
    exact ⟨seamless [] character rest rfl, fun front boundary back parts =>
      seamless (character :: front) boundary back (by rw [parts, List.cons_append])⟩
  · rintro ⟨here, below⟩ front boundary back parts ends
    cases front with
    | nil =>
        obtain ⟨rfl, rfl⟩ := List.cons.inj parts
        exact here ends
    | cons other front => exact below front boundary back (List.cons.inj parts).2 ends

instance decidableSeamless : DecidablePred Seamless
  | [] => isTrue seamless_nil
  | character :: rest =>
      have := decidableSeamless rest
      decidable_of_iff _ (seamless_cons character rest).symm

/-- A seamless line gets its spaces at its start. -/
theorem shiftPieces_of_seamless {line : List Char} (newline : '\n' ∉ line) (count : Nat)
    (seamless : Seamless line) : shiftPieces count line = shiftLine count line := by
  cases found : line.find? isLineBoundary with
  | none =>
      have smooth : ∀ character ∈ line, isLineBoundary character = false := by simpa using found
      exact shiftPieces_of_smooth count fun character present =>
        smooth character (List.dropLast_subset line present)
  | some boundary =>
      obtain ⟨ends, front, back, rfl, smooth⟩ := List.find?_eq_some_iff_append.mp found
      have blank : allBlank back = true := seamless front boundary back rfl ends
      have first : shiftPieces count (front ++ [boundary]) =
          shiftLine count (front ++ [boundary]) :=
        shiftPieces_of_smooth count (by simpa using smooth)
      have apart : back.head? ≠ some '\n' := fun starts =>
        newline (by simp [List.mem_of_head? starts])
      rw [shiftPieces_append count ends fun _ => apart, first, shiftPieces_of_blank count blank,
        ← shiftLine_append_of_blank count _ blank, List.append_assoc, List.singleton_append]

/-- Any other line gets spaces behind a boundary, and none after these. -/
theorem exists_shiftPieces_of_not_seamless {line : List Char} (newline : '\n' ∉ line) (count : Nat)
    (broken : ¬ Seamless line) :
    ∃ front boundary back laid, line = front ++ boundary :: back ∧ isLineBoundary boundary = true ∧
      allBlank back = false ∧ shiftPieces count line = laid ++ spaces count ++ back := by
  have parted : ∃ front boundary back, line = front ++ boundary :: back ∧
      isLineBoundary boundary = true ∧ allBlank back = false := by
    simpa [Seamless] using broken
  obtain ⟨front, boundary, back, whole, ends, shown⟩ := parted
  have newlineBack : '\n' ∉ back := fun present => newline (by simp [whole, present])
  have apart : back.head? ≠ some '\n' := fun starts => newlineBack (List.mem_of_head? starts)
  have cut : shiftPieces count line =
      shiftPieces count (front ++ [boundary]) ++ shiftPieces count back := by
    rw [whole, shiftPieces_append count ends fun _ => apart]
  by_cases seamless : Seamless back
  · refine ⟨front, boundary, back, shiftPieces count (front ++ [boundary]), whole, ends, shown, ?_⟩
    rw [cut, shiftPieces_of_seamless newlineBack count seamless, shiftLine_of_shown shown,
      List.append_assoc]
  · have shorter : back.length < line.length := by
      rw [whole, List.length_append, List.length_cons]
      omega
    obtain ⟨front', boundary', back', laid, whole', ends', shown', shifted⟩ :=
      exists_shiftPieces_of_not_seamless newlineBack count seamless
    refine ⟨front ++ boundary :: front', boundary', back',
      shiftPieces count (front ++ [boundary]) ++ laid,
      ?_, ends', shown', ?_⟩
    · rw [whole, whole', List.append_assoc, List.cons_append]
    · rw [cut, shifted]
      simp only [List.append_assoc]
termination_by line.length

/-! ## Reading back -/

/-- A line without its first characters, unless it shows nothing. -/
def unindentLine (count : Nat) (line : List Char) : List Char :=
  if allBlank line then line else line.drop count

/-- Take the first characters away from every line that shows something. -/
def unindent (count : Nat) (text : List Char) : List Char :=
  unlines ((lines text).map (unindentLine count))

theorem unindentLine_zero (line : List Char) : unindentLine 0 line = line := by
  unfold unindentLine
  split <;> rfl

theorem unindentLine_shiftLine (count : Nat) (line : List Char) :
    unindentLine count (shiftLine count line) = line := by
  have counted : (spaces count).length = count := List.length_replicate
  unfold unindentLine
  rw [allBlank_shiftLine]
  split
  next blank => exact shiftLine_of_blank blank count
  next shown =>
    rw [shiftLine_of_shown (by simpa using shown), List.drop_left' counted]

theorem newline_not_mem_unindentLine {line : List Char} (newline : '\n' ∉ line) (count : Nat) :
    '\n' ∉ unindentLine count line := by
  unfold unindentLine
  split
  · exact newline
  · exact fun present => newline ((List.drop_sublist count line).subset present)

/-- A line that was indented piece by piece is read back exactly if it is seamless. -/
theorem unindentLine_shiftPieces_iff {line : List Char} (newline : '\n' ∉ line) (count : Nat) :
    unindentLine count (shiftPieces count line) = line ↔ count = 0 ∨ Seamless line := by
  constructor
  · intro same
    by_contra neither
    obtain ⟨some, broken⟩ := not_or.mp neither
    obtain ⟨fewer, rfl⟩ := Nat.exists_eq_succ_of_ne_zero some
    obtain ⟨front, boundary, back, laid, whole, ends, shown, shifted⟩ :=
      exists_shiftPieces_of_not_seamless newline (fewer + 1) broken
    have inked : allBlank (laid ++ spaces (fewer + 1) ++ back) = false := by
      rw [allBlank_append, shown, Bool.and_false]
    rw [shifted, unindentLine, inked, if_neg Bool.false_ne_true] at same
    -- Right before the back stand both the boundary and the last of the spaces.
    have taken := List.take_append_drop (fewer + 1) (laid ++ spaces (fewer + 1) ++ back)
    have last : spaces (fewer + 1) = spaces fewer ++ [' '] := List.replicate_succ'
    rw [same, last] at taken
    conv at taken => lhs; rw [whole]
    rw [List.append_cons front, ← List.append_assoc, ← List.append_assoc,
      ← List.append_assoc] at taken
    have ended := List.append_cancel_right taken
    obtain rfl : boundary = ' ' := by simpa using (List.append_inj' ended rfl).2
    exact absurd ends (by decide)
  · rintro (rfl | seamless)
    · rw [shiftPieces_zero, unindentLine_zero]
    · rw [shiftPieces_of_seamless newline count seamless, unindentLine_shiftLine]

theorem unindent_shiftPieces_iff (count : Nat) (text : List Char) :
    unindent count (shiftPieces count text) = text ↔
    count = 0 ∨ ∀ line ∈ lines text, Seamless line := by
  have joined : unindent count (shiftPieces count text) =
      unlines ((lines text).map fun line => unindentLine count (shiftPieces count line)) := by
    rw [unindent, lines_shiftPieces, List.map_map]
    rfl
  have whole : ∀ read ∈ (lines text).map fun line => unindentLine count (shiftPieces count line),
      '\n' ∉ read := List.forall_mem_map.mpr fun line listed =>
    newline_not_mem_unindentLine (newline_not_mem_shiftPieces count
      (not_mem_of_mem_lines listed)) count
  have each : unindent count (shiftPieces count text) = text ↔
      ∀ line ∈ lines text, unindentLine count (shiftPieces count line) = line := by
    rw [joined]
    constructor
    · intro same
      have read := congrArg lines same
      rw [lines_unlines (by simpa using lines_ne_nil text) whole] at read
      exact List.map_inj_left.mp (read.trans (List.map_id _).symm)
    · intro read
      rw [List.map_congr_left read, List.map_id', unlines_lines]
  rw [each]
  constructor
  · intro read
    by_cases none : count = 0
    · exact Or.inl none
    · exact Or.inr fun line listed =>
        ((unindentLine_shiftPieces_iff (not_mem_of_mem_lines listed) count).mp
          (read line listed)).resolve_left none
  · exact fun either line listed =>
      (unindentLine_shiftPieces_iff (not_mem_of_mem_lines listed) count).mpr
        (either.imp_right fun seamless => seamless line listed)

/-- Closing a text adds an empty line, or none. -/
theorem forall_mem_lines_closeLine {motive : List Char → Prop} (empty : motive [])
    (content : List Char) :
    (∀ line ∈ lines (closeLine content), motive line) ↔ ∀ line ∈ lines content, motive line := by
  unfold closeLine
  split
  · rfl
  · rw [lines_append_newline, List.forall_mem_append]
    simp [empty]

/-- Code stands between its rules, and taking the indentation away from its lines gives
it back exactly if none of them shows anything behind a line boundary of its own, or
nothing is indented at all. -/
theorem convert_code_read_back {setting : Setting}
    (undebugged : setting.options.debug = false) {node : Node}
    (code : node.kind = .inlineCode ∨ node.kind = .codeblock) (place : Place) (indent : Nat)
    (before : Workspace) :
    ∃ body, outcome (convert setting node place indent) before =
        (.ok (rule setting.options.ruleWidth indent ++ '\n' :: body ++
          rule setting.options.ruleWidth indent ++ ['\n']), before) ∧
      (unindent indent body = closeLine node.payload.content.toList ↔
        indent = 0 ∨ ∀ line ∈ lines node.payload.content.toList, Seamless line) := by
  refine ⟨shiftPieces indent (closeLine node.payload.content.toList), ?_, ?_⟩
  · rw [convert_of_code undebugged code, verbatim, indentVerbatim_eq]
    rfl
  · rw [unindent_shiftPieces_iff, forall_mem_lines_closeLine seamless_nil]

/-- Code whose lines end with a carriage return, or with a form feed, before their
newline. -/
def windingCode : Node :=
  { kind := .inlineCode, payload := .text "a\r\n \x0c\n  b\x0c" }

theorem convert_code_read_back_windingCode :
    let setting : Setting := { options := { ruleWidth := 3 } }
    setting.options.debug = false ∧ windingCode.kind = .inlineCode ∧
      ∃ body, outcome (convert setting windingCode Place.alone 2) {} =
          (.ok (rule 3 2 ++ '\n' :: body ++ rule 3 2 ++ ['\n']), {}) ∧
        unindent 2 body = "a\r\n \x0c\n  b\x0c\n".toList := by
  intro setting
  have seamless : ∀ line ∈ lines windingCode.payload.content.toList, Seamless line := by
    decide +kernel
  have undebugged : setting.options.debug = false := rfl
  have code : windingCode.kind = .inlineCode ∨ windingCode.kind = .codeblock := Or.inl rfl
  obtain ⟨body, laid, read⟩ := convert_code_read_back undebugged code Place.alone 2 {}
  exact ⟨rfl, rfl, body, laid, (read.mpr (Or.inr seamless)).trans (by decide +kernel)⟩

/-- Code with a form feed inside a line. -/
def partedCode : Node :=
  { kind := .codeblock, payload := .text "a\x0cb" }

/-- What stands behind the form feed gets spaces of its own, so the code cannot be read
back. -/
theorem convert_partedCode :
    let setting : Setting := { options := { ruleWidth := 3 } }
    setting.options.debug = false ∧ partedCode.kind = .codeblock ∧
      outcome (convert setting partedCode Place.alone 2) {} =
        (.ok "  ---\n  a\x0c  b\n  ---\n".toList, {}) ∧
      ¬ ∃ body, outcome (convert setting partedCode Place.alone 2) {} =
          (.ok (rule 3 2 ++ '\n' :: body ++ rule 3 2 ++ ['\n']), {}) ∧
        unindent 2 body = closeLine partedCode.payload.content.toList := by
  intro setting
  have given : outcome (convert setting partedCode Place.alone 2) {} =
      (.ok (rule 3 2 ++ '\n' :: "  a\x0c  b\n".toList ++ rule 3 2 ++ ['\n']), {}) := rfl
  refine ⟨rfl, rfl, given, ?_⟩
  rintro ⟨body, laid, read⟩
  have texts := Except.ok.inj (Prod.mk.inj (given.symm.trans laid)).1
  rw [List.append_left_inj, List.append_left_inj, List.append_right_inj,
    List.cons_inj_right] at texts
  rw [← texts] at read
  exact absurd read (by decide +kernel)

end Layout
end Galley
