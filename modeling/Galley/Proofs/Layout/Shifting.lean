import Galley.Proofs.Layout.Framing
import Galley.Proofs.Layout.Joining
import Galley.Proofs.Layout.Strands

/-!
# Shifted regions

To shift a text is to put spaces before each of its lines that shows something.  All
that is laid out at an indentation is, at a larger one, shifted by the difference:
regions, verbatim content, rules, what hangs under a bullet and rows on one line.
-/

namespace Galley
namespace Layout

open Text

/-! ## Shifting -/

/-- Spaces before a line that shows something. -/
def shiftLine (count : Nat) (line : List Char) : List Char :=
  if allBlank line then line else spaces count ++ line

/-- Spaces before every line that shows something. -/
def shift (count : Nat) (text : List Char) : List Char :=
  unlines ((lines text).map (shiftLine count))

/-- Nothing is open at the end of a text: it ends with a newline, or it is empty. -/
def Closed (text : List Char) : Prop :=
  text = [] ∨ ∃ body, text = body ++ ['\n']

theorem closed_nil : Closed [] := Or.inl rfl

theorem closed_newline (body : List Char) : Closed (body ++ ['\n']) := Or.inr ⟨body, rfl⟩

theorem Closed.append {first second : List Char} (left : Closed first) (right : Closed second) :
    Closed (first ++ second) := by
  rcases right with rfl | ⟨body, rfl⟩
  · rwa [List.append_nil]
  · rw [← List.append_assoc]
    exact closed_newline _

@[simp] theorem allBlank_shiftLine (count : Nat) (line : List Char) :
    allBlank (shiftLine count line) = allBlank line := by
  unfold shiftLine
  split
  · rfl
  · rw [allBlank_append, allBlank_spaces, Bool.true_and]

theorem shiftLine_of_shown {line : List Char} (shown : allBlank line = false) (count : Nat) :
    shiftLine count line = spaces count ++ line :=
  if_neg (by simp [shown])

theorem shiftLine_of_blank {line : List Char} (blank : allBlank line = true) (count : Nat) :
    shiftLine count line = line :=
  if_pos blank

theorem spaces_append (first second : Nat) :
    spaces first ++ spaces second = spaces (first + second) :=
  List.replicate_append_replicate

theorem shiftLine_shiftLine (count more : Nat) (line : List Char) :
    shiftLine more (shiftLine count line) = shiftLine (count + more) line := by
  cases shown : allBlank line with
  | true => rw [shiftLine_of_blank shown, shiftLine_of_blank shown, shiftLine_of_blank shown]
  | false =>
      rw [shiftLine_of_shown (by simp [shown]), shiftLine_of_shown shown, shiftLine_of_shown shown,
        ← List.append_assoc, spaces_append, Nat.add_comm]

theorem newline_not_mem_shiftLine {line : List Char} (whole : '\n' ∉ line) (count : Nat) :
    '\n' ∉ shiftLine count line := by
  unfold shiftLine
  split
  · exact whole
  · exact fun present => (List.mem_append.mp present).elim (newline_not_mem_spaces count) whole

/-- A shifted text has the shifted lines. -/
theorem lines_shift (count : Nat) (text : List Char) :
    lines (shift count text) = (lines text).map (shiftLine count) := by
  refine lines_unlines (by simpa using lines_ne_nil text) fun line present => ?_
  obtain ⟨other, listed, rfl⟩ := List.mem_map.mp present
  exact newline_not_mem_shiftLine (not_mem_of_mem_lines listed) count

theorem shift_unlines {texts : List (List Char)} (some : texts ≠ [])
    (whole : ∀ line ∈ texts, '\n' ∉ line) (count : Nat) :
    shift count (unlines texts) = unlines (texts.map (shiftLine count)) := by
  rw [shift, lines_unlines some whole]

/-- A single line is shifted as a line. -/
theorem shift_line {line : List Char} (whole : '\n' ∉ line) (count : Nat) :
    shift count line = shiftLine count line := by
  simpa using shift_unlines (List.cons_ne_nil line []) (by simpa using whole) count

@[simp] theorem shift_nil (count : Nat) : shift count [] = [] := rfl

/-- Shifting twice shifts by the sum. -/
theorem shift_shift (count more : Nat) (text : List Char) :
    shift more (shift count text) = shift (count + more) text := by
  rw [shift, lines_shift, List.map_map, shift]
  exact congrArg unlines (List.map_congr_left fun line _ => shiftLine_shiftLine count more line)

theorem shift_append_newline (count : Nat) (front back : List Char) :
    shift count (front ++ '\n' :: back) = shift count front ++ '\n' :: shift count back := by
  rw [shift, lines_append_newline, List.map_append,
    unlines_append_left (by simpa using lines_ne_nil front), shift, shift]
  obtain ⟨line, others, found⟩ := List.exists_cons_of_ne_nil (lines_ne_nil back)
  rw [found, List.map_cons, ← List.singleton_append, unlines_append_left (by simp)]
  simp

theorem shift_newline (count : Nat) (body : List Char) :
    shift count (body ++ ['\n']) = shift count body ++ ['\n'] :=
  shift_append_newline count body []

/-- What follows a closed text is shifted by itself. -/
theorem Closed.shift_append {front : List Char} (closed : Closed front) (count : Nat)
    (back : List Char) : shift count (front ++ back) = shift count front ++ shift count back := by
  rcases closed with rfl | ⟨body, rfl⟩
  · rfl
  · rw [List.append_assoc, List.singleton_append, shift_append_newline, shift_newline,
      List.append_assoc]
    rfl

/-! ## Tails -/

@[simp] theorem isBlankLine_shiftLine (count : Nat) (line : List Char) :
    isBlankLine false (shiftLine count line) = isBlankLine false line :=
  allBlank_shiftLine count line

theorem allBlank_trimEnd (line : List Char) : allBlank (Text.trimEnd line) = allBlank line :=
  isBlankLine_trimEnd false line

theorem isBlankLine_shifted (count : Nat) {lines : List (List Char)}
    (blank : ∀ line ∈ lines, isBlankLine false line = true) :
    ∀ line ∈ lines.map (shiftLine count), isBlankLine false line = true :=
  List.forall_mem_map.mpr fun line present => by
    rw [isBlankLine_shiftLine]
    exact blank line present

/-- The tail of a shifted text is trimmed as that of the text. -/
theorem trimTail_shift (count : Nat) (text : List Char) :
    trimTail false (shift count text) = shift count (trimTail false text) := by
  have whole : ∀ line ∈ lines text, '\n' ∉ line := fun line => not_mem_of_mem_lines
  have wholeShifted : ∀ line ∈ (lines text).map (shiftLine count), '\n' ∉ line :=
    List.forall_mem_map.mpr fun line listed => newline_not_mem_shiftLine (whole line listed) count
  rw [shift]
  conv_rhs => rw [← unlines_lines text]
  rcases all_or_exists_last (isBlankLine false) (lines text) with
    blank | ⟨front, line, back, parts, shown, blank⟩
  · have blankShifted := isBlankLine_shifted count blank
    obtain ⟨first, rest, found⟩ := List.exists_cons_of_ne_nil (lines_ne_nil text)
    rw [found] at whole wholeShifted blank blankShifted ⊢
    rw [List.map_cons] at wholeShifted blankShifted ⊢
    have firstBlank : allBlank first = true := blank first (by simp)
    rw [trimTail_of_blank wholeShifted blankShifted, trimTail_of_blank whole blank,
      shiftLine_of_blank firstBlank, trimEnd_of_blank firstBlank, shift_nil]
  · rw [parts] at whole wholeShifted ⊢
    rw [List.map_append, List.map_cons] at wholeShifted ⊢
    have lineShown : allBlank line = false := shown
    have trimmedShown : allBlank (Text.trimEnd line) = false := by
      rw [allBlank_trimEnd, lineShown]
    rw [trimTail_of_shown wholeShifted (by rw [isBlankLine_shiftLine, shown])
        (isBlankLine_shifted count blank),
      trimTail_of_shown whole shown blank,
      shift_unlines (by simp) (whole_cut whole), List.map_append, List.map_singleton,
      shiftLine_of_shown lineShown, shiftLine_of_shown trimmedShown,
      trimEnd_append_of_shown _ lineShown]

/-! ## Regions -/

theorem indentLines_add (indent more : Nat) (text : List Char) :
    indentLines false (indent + more) text = shift more (indentLines false indent text) := by
  have each (line : List Char) :
      layLine false (indent + more) line = shiftLine more (layLine false indent line) := by
    cases shown : allBlank line with
    | true => rw [layLine_of_blank shown, layLine_of_blank shown, shiftLine_of_blank shown]
    | false =>
        have laidShown : allBlank (Text.trimEnd (spaces indent ++ line)) = false := by
          rw [allBlank_trimEnd, allBlank_append, shown, Bool.and_false]
        have inner : allBlank (spaces indent ++ line) = false := by
          rw [allBlank_append, shown, Bool.and_false]
        rw [layLine_of_shown shown, layLine_of_shown shown, shiftLine_of_shown laidShown,
          ← trimEnd_append_of_shown _ inner, ← List.append_assoc, spaces_append, Nat.add_comm]
  have whole : ∀ line ∈ (lines text).map (layLine false indent), '\n' ∉ line :=
    List.forall_mem_map.mpr fun line listed => newline_not_mem_layLine (not_mem_of_mem_lines listed)
  have laid (count : Nat) :
      indentLines false count text = unlines ((lines text).map (layLine false count)) := rfl
  rw [laid, laid, shift_unlines (by simpa using lines_ne_nil text) whole, List.map_map]
  exact congrArg unlines (List.map_congr_left fun line _ => each line)

section Options

variable {options : Options} (undebugged : options.debug = false)
  (unwrapped : options.wraps = false)

include undebugged unwrapped in
/-- Without wrapping, a region at a larger indentation is the shifted region. -/
theorem fillRun_add (indent more : Nat) (wraps : Bool) (text : List Char) :
    Strand.fillRun options (indent + more) wraps text =
      shift more (Strand.fillRun options indent wraps text) := by
  unfold Strand.fillRun
  split
  · rw [shift_nil]
  · unfold fill
    simp only [undebugged, unwrapped, Bool.and_false, Bool.false_eq_true, if_false]
    rw [indentLines_add, trimTail_shift, shift_newline]

theorem closed_fillRun (options : Options) (indent : Nat) (wraps : Bool) (text : List Char) :
    Closed (Strand.fillRun options indent wraps text) := by
  unfold Strand.fillRun
  split
  · exact closed_nil
  · exact closed_newline _

end Options

/-! ## Verbatim content -/

/-- A text has no line boundaries but newlines. -/
def Even (text : List Char) : Prop :=
  ∀ character ∈ text, isLineBoundary character = true → character = '\n'

instance : DecidablePred Even := fun text =>
  List.decidableBAll (fun character => isLineBoundary character = true → character = '\n') text

/-- The lines of an even text that ends with a newline. -/
theorem boundedLines_of_even {body : List Char} (even : Even body) :
    boundedLines (body ++ ['\n']) = (lines body).map (· ++ ['\n']) := by
  induction body with
  | nil => rfl
  | cons character rest inductionHypothesis =>
      obtain ⟨first, others⟩ := List.forall_mem_cons.mp even
      have below := inductionHypothesis others
      obtain ⟨line, more, found⟩ := List.exists_cons_of_ne_nil (lines_ne_nil rest)
      rw [found, List.map_cons] at below
      rw [List.cons_append, boundedLines, below, lines, found]
      by_cases newline : character = '\n'
      · subst newline
        rfl
      · have inside : isLineBoundary character = false := by
          by_contra boundary
          exact newline (first (by simpa using boundary))
        simp [inside, newline]

theorem closeLine_eq (content : List Char) :
    ∃ body, closeLine content = body ++ ['\n'] ∧ ∀ character ∈ body, character ∈ content := by
  unfold closeLine
  split
  · rename_i ended
    have whole := List.dropLast_append_getLast? _ ended
    exact ⟨content.dropLast, whole.symm, fun character present =>
      List.dropLast_subset content present⟩
  · exact ⟨content, rfl, fun character present => present⟩

/-- Even content that ends with a newline is indented by shifting it. -/
theorem indentVerbatim_of_even {body : List Char} (even : Even body) (indent : Nat) :
    indentVerbatim indent (body ++ ['\n']) = shift indent (body ++ ['\n']) := by
  rw [shift_newline]
  unfold indentVerbatim
  split
  · rename_i none
    subst none
    have same : (lines body).map (shiftLine 0) = lines body :=
      (List.map_congr_left fun line _ => by unfold shiftLine; split <;> rfl).trans (List.map_id _)
    rw [shift, same, unlines_lines]
  · have closed (line : List Char) :
        (if allBlank (line ++ ['\n']) then line ++ ['\n'] else spaces indent ++ (line ++ ['\n'])) =
          shiftLine indent line ++ ['\n'] := by
      have newline : allBlank ['\n'] = true := rfl
      rw [allBlank_append, newline, Bool.and_true]
      unfold shiftLine
      split
      · rfl
      · rw [List.append_assoc]
    obtain ⟨init, last, parts⟩ := (List.eq_nil_or_concat' (lines body)).resolve_left
        (lines_ne_nil body)
    rw [boundedLines_of_even even, List.flatMap_map]
    simp only [closed]
    rw [shift, parts, List.map_append, List.map_singleton, unlines_append_newline, close,
      List.flatMap_append, List.flatMap_append, List.flatMap_map, List.flatMap_singleton,
      List.flatMap_singleton]

theorem rule_add {width : Nat} (ruled : 0 < width) (indent more : Nat) :
    rule width (indent + more) = shift more (rule width indent) := by
  have dashes : allBlank (List.replicate width '-') = false := by
    obtain ⟨fewer, rfl⟩ := Nat.exists_eq_add_of_lt ruled
    rw [Nat.zero_add, List.replicate_succ]
    rfl
  have shown : allBlank (rule width indent) = false := by
    rw [rule, allBlank_append, dashes, Bool.and_false]
  rw [shift_line (whole_rule width indent), shiftLine_of_shown shown, rule, rule,
    ← List.append_assoc, spaces_append, Nat.add_comm]

/-- Verbatim content at a larger indentation is shifted, its rules included. -/
theorem verbatim_add {width : Nat} (ruled : 0 < width) {content : List Char} (even : Even content)
    (indent more : Nat) :
    verbatim width (indent + more) content = shift more (verbatim width indent content) := by
  obtain ⟨body, closed, inside⟩ := closeLine_eq content
  have evenBody : Even body := fun character present => even character (inside character present)
  have contentClosed : Closed (shift indent (body ++ ['\n'])) := by
    rw [shift_newline]
    exact closed_newline _
  unfold verbatim
  rw [closed, indentVerbatim_of_even evenBody, indentVerbatim_of_even evenBody, rule_add ruled,
    ← shift_shift]
  generalize shift indent (body ++ ['\n']) = inside at contentClosed ⊢
  simp only [List.append_assoc, List.cons_append]
  rw [shift_append_newline, contentClosed.shift_append, shift_newline]

theorem closed_verbatim (width indent : Nat) (content : List Char) :
    Closed (verbatim width indent content) :=
  closed_newline _

/-! ## Bullets and rows -/

/-- A shifted body hangs under a bullet that is shifted with it: as many spaces as are
put before its first line go with the indentation. -/
theorem hang_shift {bullet : List Char} (whole : '\n' ∉ bullet) (shown : allBlank bullet = false)
    (indent inner more : Nat) (body : List Char) :
    hang false bullet (indent + more) (inner + more) (shift more body) =
      shift more (hang false bullet indent inner body) := by
  have shifted (rest : List Char) :
      spaces (indent + more) ++ bullet ++ rest = shiftLine more
        (spaces indent ++ bullet ++ rest) := by
    rw [shiftLine_of_shown (by simp [shown]), Nat.add_comm, ← spaces_append]
    simp only [List.append_assoc]
  have same : isBlankLine false ∘ shiftLine more = isBlankLine false :=
    funext fun line => isBlankLine_shiftLine more line
  unfold hang
  rw [lines_shift, List.dropWhile_map, same]
  cases found : (lines body).dropWhile (isBlankLine false) with
  | nil =>
      have alone : '\n' ∉ spaces indent ++ bullet := by
        simp [whole, newline_not_mem_spaces]
      rw [List.map_nil, shift_line alone]
      simpa using shifted []
  | cons first rest =>
      have listed : ∀ line ∈ first :: rest, '\n' ∉ line := fun line present =>
        not_mem_of_mem_lines ((List.dropWhile_sublist _).subset (found ▸ present))
      have firstShown : allBlank first = false := by
        have head := List.head?_dropWhile_not (isBlankLine false) (lines body)
        rw [found] at head
        exact head
      have hung : '\n' ∉ spaces indent ++ bullet ++
          ' ' :: first.drop (min (first.takeWhile (· == ' ')).length inner) := by
        have kept (count : Nat) : '\n' ∉ first.drop count := fun present =>
          listed first (by simp) ((List.drop_sublist count first).subset present)
        simp [whole, newline_not_mem_spaces, kept]
      have counted : (spaces more).length = more := List.length_replicate
      have leading : ((spaces more ++ first).takeWhile (· == ' ')).length =
          (first.takeWhile (· == ' ')).length + more := by
        rw [List.takeWhile_append_of_pos (by simp [spaces]), List.length_append, counted,
          Nat.add_comm]
      have dropped (count : Nat) : (spaces more ++ first).drop (count + more) =
          first.drop count := by
        rw [Nat.add_comm, ← List.drop_drop, List.drop_left' counted]
      simp only [List.map_cons]
      rw [shift_unlines (by simp) (List.forall_mem_cons.mpr ⟨hung, fun line present =>
        listed line (List.mem_cons_of_mem first present)⟩), List.map_cons, ← shifted,
        shiftLine_of_shown firstShown, leading, Nat.add_min_add_right, dropped]

/-- A row is one line. -/
theorem rowLine_add {separator : List Char} (whole : '\n' ∉ separator) {cells : List (List Char)}
    (each : ∀ cell ∈ cells, '\n' ∉ cell) (indent more : Nat) :
    rowLine separator (indent + more) cells = shift more (rowLine separator indent cells) := by
  have line : '\n' ∉ separator.intercalate cells := not_mem_intercalate whole each
  unfold rowLine
  rw [shift_newline]
  cases blank : allBlank (separator.intercalate cells) with
  | true =>
      have none (count : Nat) : Text.trimEnd (spaces count ++ separator.intercalate cells) = [] :=
        trimEnd_of_blank (by rw [allBlank_append, allBlank_spaces, blank, Bool.and_self])
      rw [none, none, shift_nil]
  | false =>
      have kept : '\n' ∉ spaces indent ++ Text.trimEnd (separator.intercalate cells) := by
        simp [newline_not_mem_spaces, not_mem_trimEnd line]
      rw [trimEnd_append_of_shown _ blank, trimEnd_append_of_shown _ blank, shift_line kept,
        shiftLine_of_shown (by simp [allBlank_trimEnd, blank]), ← List.append_assoc, spaces_append,
        Nat.add_comm]

/-! ## Strands -/

section Strands

variable {options : Options} (undebugged : options.debug = false)
  (unwrapped : options.wraps = false)

include undebugged unwrapped in
/-- Without wrapping, a strand at a larger indentation is laid out shifted. -/
theorem Strand.laid_add (ruled : 0 < options.ruleWidth) {strand : Strand}
    (even : ∀ content ∈ strand.codes, Even content) (indent more : Nat) (wraps : Bool) :
    strand.laid options (indent + more) wraps = shift more (strand.laid options indent wraps) := by
  induction strand with
  | run text => exact fillRun_add undebugged unwrapped indent more wraps text
  | code text content behind inductionHypothesis =>
      obtain ⟨contentEven, behindEven⟩ := List.forall_mem_cons.mp even
      have front := (closed_fillRun options indent wraps text).append
        (closed_verbatim options.ruleWidth indent content)
      rw [Strand.laid, Strand.laid, front.shift_append,
        (closed_fillRun options indent wraps text).shift_append,
        fillRun_add undebugged unwrapped, verbatim_add ruled contentEven,
        inductionHypothesis behindEven]

theorem Strand.closed_laid (options : Options) (indent : Nat) (wraps : Bool) (strand : Strand) :
    Closed (strand.laid options indent wraps) := by
  induction strand with
  | run text => exact closed_fillRun options indent wraps text
  | code text content behind inductionHypothesis =>
      exact ((closed_fillRun options indent wraps text).append (closed_verbatim _ _ _)).append
        inductionHypothesis

end Strands

end Layout
end Galley
