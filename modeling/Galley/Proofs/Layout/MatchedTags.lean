import Galley.Proofs.Layout.Chunks

/-!
# Matched tags

The layout drops blank lines at the end of a region, with the markers on them.  The
lines of a region are matched if its markers are and every run of blank lines at its end
has matched markers, so that no tag is left open or closed alone.  Such regions can be
put one behind the other, trimmed, framed and put between the tags of a block.

Under a bullet the blank lines at the start are dropped as well.  So it is traced how a
region starts: where the first lines that show nothing are whole blocks, their markers
are matched.
-/

namespace Galley
namespace Layout

open Marker Text

/-! ## How lines start -/

/-- What stands first in some lines. -/
inductive Start where
  /-- There is no line. -/
  | none
  /-- There are lines, but they show nothing. -/
  | blank
  /-- The first line shows something. -/
  | shown
  /-- A line that shows something comes after lines that do not. -/
  | late
  deriving DecidableEq, Repr

namespace Start

/-- The start of lines with others behind them. -/
def append : Start → Start → Start
  | .none, behind => behind
  | .blank, .shown => .late
  | .blank, .late => .late
  | first, _ => first

/-- Whether something is shown. -/
def shows : Start → Bool
  | .shown | .late => true
  | .none | .blank => false

@[simp] theorem none_append (start : Start) : Start.none.append start = start := rfl

@[simp] theorem append_none (start : Start) : start.append .none = start := by
  cases start <;> rfl

theorem append_assoc (first second third : Start) :
    (first.append second).append third = first.append (second.append third) := by
  cases first <;> cases second <;> cases third <;> rfl

@[simp] theorem shows_append (first second : Start) :
    (first.append second).shows = (first.shows || second.shows) := by
  cases first <;> cases second <;> rfl

/-- What shows nothing but blank lines changes a start only where there was no line. -/
theorem append_of_not_shows {start behind : Start} (nothing : behind.shows = false)
    (some : start ≠ .none) : start.append behind = start := by
  cases start with
  | none => exact absurd rfl some
  | blank => cases behind <;> first | rfl | cases nothing
  | shown => rfl
  | late => rfl

/-- The start of a line. -/
def ofLine (line : List Char) : Start :=
  if isBlankLine true line then .blank else .shown

/-- The start of some lines. -/
def ofLines (texts : List (List Char)) : Start :=
  texts.foldr (fun line behind => (ofLine line).append behind) .none

@[simp] theorem ofLines_nil : ofLines [] = .none := rfl

theorem ofLines_cons (line : List Char) (rest : List (List Char)) :
    ofLines (line :: rest) = (ofLine line).append (ofLines rest) := rfl

theorem ofLines_singleton (line : List Char) : ofLines [line] = ofLine line :=
  append_none _

@[simp] theorem shows_ofLine (line : List Char) : (ofLine line).shows = !isBlankLine true line := by
  unfold ofLine
  split <;> simp_all [shows]

theorem ofLines_append (front back : List (List Char)) :
    ofLines (front ++ back) = (ofLines front).append (ofLines back) := by
  induction front with
  | nil => rfl
  | cons line rest inductionHypothesis =>
      rw [List.cons_append, ofLines_cons, inductionHypothesis, ofLines_cons, append_assoc]

/-- Some lines show something if one of them does. -/
theorem shows_ofLines (texts : List (List Char)) :
    (ofLines texts).shows = texts.any (!isBlankLine true ·) := by
  induction texts with
  | nil => rfl
  | cons line rest inductionHypothesis =>
      rw [ofLines_cons, shows_append, shows_ofLine, inductionHypothesis, List.any_cons]

theorem shows_eq_false_iff {texts : List (List Char)} :
    (ofLines texts).shows = false ↔ ∀ line ∈ texts, isBlankLine true line = true := by
  simp [shows_ofLines]

theorem ofLines_eq_none_iff {texts : List (List Char)} : ofLines texts = .none ↔ texts = [] := by
  cases texts with
  | nil => simp
  | cons line rest =>
      rw [ofLines_cons, ofLine]
      cases isBlankLine true line <;> cases ofLines rest <;> simp [append]

theorem ofLines_eq_shown_iff {texts : List (List Char)} : ofLines texts = .shown ↔ Heads texts := by
  constructor
  · intro starts
    cases texts with
    | nil => cases starts
    | cons line rest =>
        refine ⟨line, rest, rfl, ?_⟩
        rw [ofLines_cons, ofLine] at starts
        cases shown : isBlankLine true line with
        | false => rfl
        | true =>
            rw [shown] at starts
            cases found : ofLines rest <;> simp [found, append] at starts
  · rintro ⟨line, rest, rfl, shown⟩
    rw [ofLines_cons, ofLine, shown]
    rfl

/-- Lines that show the same start alike. -/
theorem ofLines_congr {texts others : List (List Char)}
    (same : texts.map (isBlankLine true) = others.map (isBlankLine true)) :
    ofLines texts = ofLines others := by
  have read (lines : List (List Char)) : ofLines lines =
      (lines.map (isBlankLine true)).foldr
        (fun nothing behind => (if nothing then Start.blank else .shown).append behind) .none := by
    rw [List.foldr_map]
    rfl
  rw [read, read, same]

end Start

/-! ## Matched lines -/

/-- Every run of lines at the start that shows nothing has matched markers. -/
def Leads (texts : List (List Char)) : Prop :=
  ∀ front, front <+: texts → (∀ line ∈ front, isBlankLine true line = true) →
    Matched (front.flatMap all)

theorem leads_nil : Leads [] := by
  intro front starts _
  rw [List.prefix_nil.mp starts]
  exact Matched.nil

theorem leads_of_heads {texts : List (List Char)} (heads : Heads texts) : Leads texts := by
  obtain ⟨first, rest, rfl, shown⟩ := heads
  intro front starts blank
  cases front with
  | nil => exact Matched.nil
  | cons line more =>
      obtain ⟨rfl, -⟩ := List.cons_prefix_cons.mp starts
      rw [blank line (by simp)] at shown
      cases shown

theorem leads_singleton {line : List Char} (matched : Matched (all line)) : Leads [line] := by
  intro front starts _
  rcases List.prefix_cons_iff.mp starts with rfl | ⟨more, rfl, none⟩
  · exact Matched.nil
  · rw [List.prefix_nil.mp none]
    simpa using matched

/-- A start of two lists is a start of the first, or the first with a start of the
second behind it. -/
theorem prefix_append_cases {α : Type} {front first second : List α}
    (starts : front <+: first ++ second) :
    front <+: first ∨ ∃ part, front = first ++ part ∧ part <+: second := by
  rcases List.prefix_or_prefix_of_prefix starts (List.prefix_append first second) with
    inside | longer
  · exact Or.inl inside
  · obtain ⟨part, rfl⟩ := longer
    exact Or.inr ⟨part, rfl, (List.prefix_append_right_inj first).mp starts⟩

/-- Lines that lead may be followed by any others, once they show something. -/
theorem Leads.append {texts others : List (List Char)} (leads : Leads texts)
    (matched : Matched (texts.flatMap all)) (behind : (Start.ofLines texts).shows = true ∨
        Leads others) :
    Leads (texts ++ others) := by
  intro front starts blank
  rcases prefix_append_cases starts with inside | ⟨part, rfl, inside⟩
  · exact leads front inside blank
  · obtain ⟨before, later⟩ := List.forall_mem_append.mp blank
    rcases behind with shows | leads'
    · rw [Start.shows_eq_false_iff.mpr before] at shows
      cases shows
    · rw [List.flatMap_append]
      exact matched.append (leads' part inside later)

/-- Matched tags may be put before the first line. -/
theorem Leads.prepend {tags line : List Char} {rest : List (List Char)} (isTags : Tags tags)
    (matched : Matched (all tags)) (leads : Leads (line :: rest)) :
    Leads ((tags ++ line) :: rest) := by
  intro front starts blank
  rcases List.prefix_cons_iff.mp starts with rfl | ⟨more, rfl, inside⟩
  · exact Matched.nil
  · have same := isBlankLine_of_erase_eq (isTags.erase_append line)
    obtain ⟨first, later⟩ := List.forall_mem_cons.mp blank
    have read := leads (line :: more) (List.prefix_cons_iff.mpr (Or.inr ⟨more, rfl, inside⟩))
      (List.forall_mem_cons.mpr ⟨same.symm.trans first, later⟩)
    have spread : ((tags ++ line) :: more).flatMap all =
        all tags ++ (line :: more).flatMap all := by
      simp [isTags.all_append]
    rw [spread]
    exact matched.append read

/-- Lines whose markers are matched, also without blank lines at the end. -/
structure MatchedLines (texts : List (List Char)) : Prop where
  /-- Lines hold no newline. -/
  whole : ∀ line ∈ texts, '\n' ∉ line
  /-- The markers are matched. -/
  matched : Matched (texts.flatMap all)
  /-- So are those of the blank lines at the end. -/
  tail : ∀ back, back <:+ texts → (∀ line ∈ back, isBlankLine true line = true) →
    Matched (back.flatMap all)

/-- An end of two lists is an end of the second, or of the first with the second behind
it. -/
theorem suffix_append_cases {α : Type} {back first second : List α}
    (ends : back <:+ first ++ second) :
    back <:+ second ∨ ∃ part, part <:+ first ∧ back = part ++ second := by
  obtain ⟨front, whole⟩ := ends
  rcases List.append_eq_append_iff.mp whole with ⟨part, parts, same⟩ | ⟨part, -, parts⟩
  · exact Or.inr ⟨part, ⟨front, parts.symm⟩, same⟩
  · exact Or.inl ⟨part, parts.symm⟩

namespace MatchedLines

variable {texts others rest : List (List Char)} {line : List Char}

theorem nil : MatchedLines [] := by
  refine ⟨by simp, Matched.nil, fun back ends _ => ?_⟩
  rw [List.suffix_nil.mp ends]
  exact Matched.nil

theorem append (left : MatchedLines texts) (right : MatchedLines others) :
    MatchedLines (texts ++ others) := by
  refine ⟨List.forall_mem_append.mpr ⟨left.whole, right.whole⟩, ?_, fun back ends blank => ?_⟩
  · rw [List.flatMap_append]
    exact left.matched.append right.matched
  · rcases suffix_append_cases ends with inside | ⟨part, inside, rfl⟩
    · exact right.tail back inside blank
    · obtain ⟨before, behind⟩ := List.forall_mem_append.mp blank
      rw [List.flatMap_append]
      exact (left.tail part inside before).append (right.tail others (List.suffix_refl _) behind)

theorem singleton (whole : '\n' ∉ line) (matched : Matched (all line)) : MatchedLines [line] := by
  have alone : Matched ([line].flatMap all) := by simpa using matched
  refine ⟨by simpa using whole, alone, fun back ends _ => ?_⟩
  rcases List.suffix_cons_iff.mp ends with rfl | none
  · exact alone
  · rw [List.suffix_nil.mp none]
    exact Matched.nil

/-- Where the last line shows something, no blank lines are at the end. -/
theorem of_lasts (whole : ∀ line ∈ texts, '\n' ∉ line) (matched : Matched (texts.flatMap all))
    (lasts : Lasts texts) : MatchedLines texts := by
  refine ⟨whole, matched, fun back ends blank => ?_⟩
  cases back with
  | nil => exact Matched.nil
  | cons first others =>
      obtain ⟨front, last, parts, shown⟩ := lasts.of_suffix ends (List.cons_ne_nil first others)
      rw [blank last (by rw [parts]; simp)] at shown
      cases shown

/-- Matched tags may be put before the first line. -/
theorem prepend {tags : List Char} (isTags : Tags tags) (matched : Matched (all tags))
    (lines : MatchedLines (line :: rest)) : MatchedLines ((tags ++ line) :: rest) := by
  obtain ⟨here, others⟩ := List.forall_mem_cons.mp lines.whole
  have spread : ((tags ++ line) :: rest).flatMap all = all tags ++ (line :: rest).flatMap all := by
    simp [isTags.all_append]
  refine ⟨List.forall_mem_cons.mpr ⟨?_, others⟩, ?_, fun back ends blank => ?_⟩
  · rw [List.mem_append, not_or]
    exact ⟨isTags.not_newline, here⟩
  · rw [spread]
    exact matched.append lines.matched
  · rcases List.suffix_cons_iff.mp ends with rfl | inside
    · have same := isBlankLine_of_erase_eq (isTags.erase_append line)
      obtain ⟨first, later⟩ := List.forall_mem_cons.mp blank
      rw [spread]
      exact matched.append (lines.tail _ (List.suffix_refl _)
        (List.forall_mem_cons.mpr ⟨same.symm.trans first, later⟩))
    · exact lines.tail back (inside.trans (List.suffix_cons line rest)) blank

/-- A first line that shows something may be replaced by one with the same markers. -/
theorem replace_head {other : List Char} (lines : MatchedLines (line :: rest))
    (whole : '\n' ∉ other)
    (same : all other = all line) (shown : isBlankLine true other = false) :
    MatchedLines (other :: rest) := by
  refine ⟨List.forall_mem_cons.mpr ⟨whole, (List.forall_mem_cons.mp lines.whole).2⟩, ?_,
    fun back ends blank => ?_⟩
  · rw [List.flatMap_cons, same, ← List.flatMap_cons]
    exact lines.matched
  · rcases List.suffix_cons_iff.mp ends with rfl | inside
    · rw [blank other (by simp)] at shown
      cases shown
    · exact lines.tail back (inside.trans (List.suffix_cons line rest)) blank

end MatchedLines

/-! ## Lines that show the same -/

theorem Lasts.congr {texts others : List (List Char)}
    (same : texts.map (isBlankLine true) = others.map (isBlankLine true)) (lasts : Lasts others) :
    Lasts texts := by
  obtain ⟨front, last, rfl, shown⟩ := lasts
  rw [List.map_append, List.map_singleton] at same
  obtain ⟨front', back, rfl, -, last'⟩ := List.map_eq_append_iff.mp same
  obtain ⟨final, rfl, kept⟩ := List.map_eq_singleton_iff.mp last'
  exact ⟨front', final, rfl, kept.trans shown⟩

/-- The tags of a block stand on the first and the last line of its region. -/
theorem exists_tag_close {node : Node} (known : node.kind.isKnown = true)
    (block : (node.isSpan && node.kind != .inlineCode) = false) {texts : List (List Char)}
    (some : texts ≠ []) (whole : ∀ line ∈ texts, '\n' ∉ line) :
    ∃ tagged, tag node (close texts) = close tagged ∧ (∀ line ∈ tagged, '\n' ∉ line) ∧
      tagged.flatMap all = opening blockClass node.kind.name.toList :: texts.flatMap all ++
        [closing blockClass node.kind.name.toList] ∧
      tagged.map (isBlankLine true) = texts.map (isBlankLine true) := by
  obtain ⟨opened, closed⟩ := isMarker_opening (Or.inl rfl) known
  have opens := Tags.of_isMarker opened
  have closes := Tags.of_isMarker closed
  have allOpened := all_flatten (List.forall_mem_singleton.mpr opened)
  have allClosed := all_flatten (List.forall_mem_singleton.mpr closed)
  rw [List.flatten_singleton] at allOpened allClosed
  obtain ⟨front, last, ended⟩ := (List.eq_nil_or_concat' texts).resolve_left some
  have around := tag_closed block front last
  rw [← ended] at around
  obtain ⟨first, rest, rfl⟩ := List.exists_cons_of_ne_nil some
  obtain ⟨here, others⟩ := List.forall_mem_cons.mp whole
  have wholeInserted :
      ∀ line ∈ insert (opening blockClass node.kind.name.toList) first :: rest, '\n' ∉ line :=
    List.forall_mem_cons.mpr ⟨not_newline_insert opens here, others⟩
  have allInserted := all_insert opens first
  have shownInserted := isBlankLine_of_erase_eq (erase_insert opens first)
  rw [insert_close] at around
  -- The last line may be the first one, with the opening tag on it.
  obtain ⟨before, final, parts⟩ := (List.eq_nil_or_concat'
    (insert (opening blockClass node.kind.name.toList) first :: rest)).resolve_left (by simp)
  rw [parts, dropLast_close_append] at around
  rw [parts] at wholeInserted
  obtain ⟨wholeBefore, wholeFinal⟩ := List.forall_mem_append.mp wholeInserted
  refine ⟨_, around, List.forall_mem_append.mpr ⟨wholeBefore, List.forall_mem_singleton.mpr ?_⟩,
    ?_, ?_⟩
  · rw [List.mem_append, not_or]
    exact ⟨wholeFinal final (by simp), closes.not_newline⟩
  · have spread := congrArg (List.flatMap all) parts
    rw [List.flatMap_cons, allInserted, allOpened] at spread
    rw [List.flatMap_append, List.flatMap_singleton, closes.all_append_right, allClosed,
      ← List.append_assoc, ← List.flatMap_singleton all final, ← List.flatMap_append, ← spread]
    rfl
  · have shown := congrArg (List.map (isBlankLine true)) parts
    rw [List.map_cons, shownInserted] at shown
    rw [List.map_append, List.map_singleton,
      isBlankLine_of_erase_eq (closes.erase_append_right final), List.map_cons, shown,
      List.map_append, List.map_singleton]

/-! ## Matched blocks -/

/-- A closed block with matched markers and a given start.  Its last line shows
something, or it is its only line. -/
def MatchedSealed (start : Start) (text : List Char) : Prop :=
  ∃ texts, text = close texts ∧ (∀ line ∈ texts, '\n' ∉ line) ∧ Matched (texts.flatMap all) ∧
    (Lasts texts ∨ texts.length = 1) ∧ Start.ofLines texts = start

/-- A region of matched lines with a given start, behind the last newline of which
matched tags may wait.  Where it is asked for, the lines that show nothing at its start
have matched markers. -/
def MatchedLaid (start : Start) (leads : Prop) (text : List Char) : Prop :=
  ∃ texts tags, text = close texts ++ tags ∧ MatchedLines texts ∧ Tags tags ∧ Matched (all tags) ∧
    Start.ofLines texts = start ∧ (leads → Leads texts)

namespace MatchedSealed

variable {start : Start} {text : List Char}

theorem laid (stands : MatchedSealed start text) : MatchedLaid start (start ≠ .late) text := by
  obtain ⟨texts, rfl, whole, matched, lasts, starts⟩ := stands
  refine ⟨texts, [], by simp, ?_, Tags.nil, Matched.nil, starts, fun early => ?_⟩
  · rcases lasts with lasts | alone
    · exact MatchedLines.of_lasts whole matched lasts
    · obtain ⟨line, rfl⟩ := List.length_eq_one_iff.mp alone
      exact MatchedLines.singleton (whole line (by simp)) (by simpa using matched)
  · cases start with
    | none =>
        rw [Start.ofLines_eq_none_iff.mp starts]
        exact leads_nil
    | shown => exact leads_of_heads (Start.ofLines_eq_shown_iff.mp starts)
    | late => exact absurd rfl early
    | blank =>
        rcases lasts with ⟨front, last, rfl, shown⟩ | alone
        · have nothing := Start.shows_eq_false_iff.mp (congrArg Start.shows starts)
          rw [nothing last (by simp)] at shown
          cases shown
        · obtain ⟨line, rfl⟩ := List.length_eq_one_iff.mp alone
          exact leads_singleton (by simpa using matched)

theorem matched (stands : MatchedSealed start text) : Matched (all text) := by
  obtain ⟨texts, rfl, -, matched, -⟩ := stands
  rwa [all_close]

/-- A single line with matched markers. -/
theorem singleton {line : List Char} (whole : '\n' ∉ line) (matched : Matched (all line)) :
    MatchedSealed (Start.ofLine line) (line ++ ['\n']) :=
  ⟨[line], (close_singleton line).symm, by simpa using whole, by simpa using matched,
    Or.inr rfl, Start.ofLines_singleton line⟩

/-- A chunk with matched markers. -/
theorem of_chunk {tags : List (List Char)} (chunk : Chunk tags text) (matched : Matched tags) :
    MatchedSealed .shown text := by
  obtain ⟨texts, rfl, whole, heads, lasts, rfl⟩ := chunk
  exact ⟨texts, rfl, whole, matched, Or.inl lasts, Start.ofLines_eq_shown_iff.mpr heads⟩

/-- A block that begins with text is a chunk. -/
theorem chunk (stands : MatchedSealed .shown text) : Chunk (all text) text := by
  obtain ⟨texts, rfl, whole, -, lasts, starts⟩ := stands
  have heads := Start.ofLines_eq_shown_iff.mp starts
  refine ⟨texts, rfl, whole, heads, ?_, (all_close texts).symm⟩
  rcases lasts with lasts | alone
  · exact lasts
  · obtain ⟨first, rest, rfl, shown⟩ := heads
    obtain rfl : rest = [] := by simpa using alone
    exact ⟨[], first, rfl, shown⟩

/-- The tags of a node are put around its block. -/
theorem tag (stands : MatchedSealed start text) {node : Node} (known : node.kind.isKnown = true)
    (block : (node.isSpan && node.kind != .inlineCode) = false) :
    MatchedSealed start (Layout.tag node text) := by
  obtain ⟨texts, rfl, whole, matched, lasts, rfl⟩ := stands
  have some : texts ≠ [] := by
    rintro rfl
    rcases lasts with lasts | alone
    · exact lasts.ne_nil rfl
    · cases alone
  obtain ⟨tagged, around, wholeTagged, spread, same⟩ := exists_tag_close known block some whole
  refine ⟨tagged, around, wholeTagged, ?_, ?_, Start.ofLines_congr same⟩
  · rw [spread]
    exact matched.enclose (Or.inl rfl)
  · refine lasts.imp (Lasts.congr same) fun alone => ?_
    have size := congrArg List.length same
    rwa [List.length_map, List.length_map, alone] at size

end MatchedSealed

end Layout
end Galley
