import Galley.Proofs.Layout.Shifting

/-!
# What every line of a text has

A property of lines goes through the operations of the layout line by line: where it
holds of the empty line and is kept by trimming, it is kept by joining regions, by
trimming a tail and by hanging a body under a bullet.
-/

namespace Galley
namespace Layout

open Text

/-- Every line of a text has a property. -/
def EachLine (property : List Char → Prop) (text : List Char) : Prop :=
  ∀ line ∈ lines text, property line

namespace EachLine

variable {property before after : List Char → Prop} {line text first second : List Char}

theorem nil (none : property []) : EachLine property [] :=
  List.forall_mem_singleton.mpr none

/-- The lines of joined lines are among them, and an empty line stands for none. -/
theorem unlines {texts : List (List Char)} (none : property [])
    (whole : ∀ line ∈ texts, '\n' ∉ line)
    (each : ∀ line ∈ texts, property line) : EachLine property (unlines texts) := by
  cases texts with
  | nil => exact nil none
  | cons line rest =>
      rw [EachLine, lines_unlines (List.cons_ne_nil line rest) whole]
      exact each

/-- A text without newlines is a single line. -/
theorem of_whole (whole : '\n' ∉ line) (holds : property line) : EachLine property line := by
  have alone : lines line = [line] := lines_unlines (List.cons_ne_nil line [])
      (by simpa using whole)
  rw [EachLine, alone]
  exact List.forall_mem_singleton.mpr holds

theorem imp (each : EachLine before text) (weaker : ∀ line, before line → after line) :
    EachLine after text :=
  fun line present => weaker line (each line present)

theorem newline (none : property []) (each : EachLine property text) :
    EachLine property (text ++ ['\n']) := by
  rw [EachLine, lines_append_newline]
  exact List.forall_mem_append.mpr ⟨each, nil none⟩

/-- What follows a closed text begins on a line of its own. -/
theorem append (each : EachLine property first) (closed : Closed first)
    (behind : EachLine property second) : EachLine property (first ++ second) := by
  rcases closed with rfl | ⟨body, rfl⟩
  · exact behind
  · unfold EachLine at each ⊢
    rw [lines_append_newline] at each
    rw [List.append_assoc, List.singleton_append, lines_append_newline]
    exact List.forall_mem_append.mpr ⟨(List.forall_mem_append.mp each).1, behind⟩

/-- Trimming the tail drops lines and trims the last one that stays. -/
theorem trimTail (none : property [])
    (trimmed : ∀ line, property line → property (Text.trimEnd line))
    (each : EachLine property text) : EachLine property (trimTail false text) := by
  have whole : ∀ line ∈ lines text, '\n' ∉ line := fun line => not_mem_of_mem_lines
  unfold EachLine at each
  rw [← unlines_lines text]
  rcases all_or_exists_last (isBlankLine false) (lines text) with
    blank | ⟨front, line, back, parts, shown, blank⟩
  · obtain ⟨first, rest, found⟩ := List.exists_cons_of_ne_nil (lines_ne_nil text)
    rw [found] at whole blank ⊢
    have firstBlank : allBlank first = true := blank first (by simp)
    rw [trimTail_of_blank whole blank, trimEnd_of_blank firstBlank]
    exact nil none
  · rw [parts] at each whole ⊢
    rw [trimTail_of_shown whole shown blank]
    exact unlines none (whole_cut whole) (forall_mem_cut each (trimmed line))

/-- Of a body that hangs under a bullet only the first line that shows something is
changed. -/
theorem hang {bullet body : List Char} {indent inner : Nat} (none : after [])
    (whole : '\n' ∉ bullet)
    (alone : after (spaces indent ++ bullet))
    (hung : ∀ line, before line → allBlank line = false →
      after (spaces indent ++ bullet ++
        ' ' :: line.drop (min (line.takeWhile (· == ' ')).length inner)))
    (kept : ∀ line, before line → after line) (each : EachLine before body) :
    EachLine after (hang false bullet indent inner body) := by
  unfold Layout.hang
  cases found : (lines body).dropWhile (isBlankLine false) with
  | nil => exact of_whole (newline_not_mem_margin whole) alone
  | cons line rest =>
      have listed : ∀ other ∈ line :: rest, other ∈ lines body := fun other present =>
        (List.dropWhile_sublist _).subset (found ▸ present)
      have shown : allBlank line = false := by
        have head := List.head?_dropWhile_not (isBlankLine false) (lines body)
        rw [found] at head
        exact head
      obtain ⟨wholeLine, wholeRest⟩ := List.forall_mem_cons.mp fun other present =>
        not_mem_of_mem_lines (listed other present)
      have dropped : '\n' ∉ line.drop (min (line.takeWhile (· == ' ')).length inner) :=
        fun present => wholeLine ((List.drop_sublist _ line).subset present)
      have wholeHung : '\n' ∉ spaces indent ++ bullet ++
          ' ' :: line.drop (min (line.takeWhile (· == ' ')).length inner) := by
        simp [whole, newline_not_mem_spaces, dropped]
      obtain ⟨here, others⟩ := List.forall_mem_cons.mp fun other present =>
        each other (listed other present)
      exact unlines none (List.forall_mem_cons.mpr ⟨wholeHung, wholeRest⟩)
        (List.forall_mem_cons.mpr ⟨hung line here shown, fun other present =>
          kept other (others other present)⟩)

end EachLine

end Layout
end Galley
