import Galley.Proofs.Layout.Akin
import Galley.Proofs.Wrap.Tags

/-!
# Chunks

A chunk is what span text or code becomes when it is laid out: closed lines, the first
and the last of which show something.  Nothing is trimmed off a chunk with its lines, so
its markers stay.  Filling a region with span text whose last line shows something gives
a chunk with the markers of the text.
-/

namespace Galley
namespace Layout

open Marker Text

/-- The first of some lines shows something. -/
def Heads (texts : List (List Char)) : Prop :=
  ∃ first rest, texts = first :: rest ∧ isBlankLine true first = false

/-- The last of some lines shows something. -/
def Lasts (texts : List (List Char)) : Prop :=
  ∃ front last, texts = front ++ [last] ∧ isBlankLine true last = false

/-- Closed lines with some markers, the first and the last of which show something. -/
def Chunk (tags : List (List Char)) (text : List Char) : Prop :=
  ∃ texts, text = close texts ∧ (∀ line ∈ texts, '\n' ∉ line) ∧ Heads texts ∧ Lasts texts ∧
    texts.flatMap all = tags

section Lines

variable {texts : List (List Char)}

theorem Heads.map {spread : List Char → List Char} (heads : Heads texts)
    (kept : ∀ line, isBlankLine true (spread line) = isBlankLine true line) :
    Heads (texts.map spread) := by
  obtain ⟨first, rest, rfl, shown⟩ := heads
  exact ⟨spread first, rest.map spread, rfl, by rw [kept, shown]⟩

theorem Lasts.map {spread : List Char → List Char} (lasts : Lasts texts)
    (kept : ∀ line, isBlankLine true (spread line) = isBlankLine true line) :
    Lasts (texts.map spread) := by
  obtain ⟨front, last, rfl, shown⟩ := lasts
  exact ⟨front.map spread, spread last, by simp, by rw [kept, shown]⟩

variable {spread : List Char → List (List Char)} (some : ∀ line, spread line ≠ [])
  (shows : ∀ line, isBlankLine true line = false →
    ∀ laid ∈ spread line, isBlankLine true laid = false)

include some shows

theorem Heads.flatMap (heads : Heads texts) : Heads (texts.flatMap spread) := by
  obtain ⟨first, rest, rfl, shown⟩ := heads
  obtain ⟨laid, others, found⟩ := List.exists_cons_of_ne_nil (some first)
  refine ⟨laid, others ++ rest.flatMap spread, by simp [found], ?_⟩
  exact shows first shown laid (by simp [found])

theorem Lasts.flatMap (lasts : Lasts texts) : Lasts (texts.flatMap spread) := by
  obtain ⟨front, last, rfl, shown⟩ := lasts
  obtain ⟨others, laid, found⟩ := (List.eq_nil_or_concat' (spread last)).resolve_left (some last)
  refine ⟨front.flatMap spread ++ others, laid, by simp [found], ?_⟩
  exact shows last shown laid (by simp [found])

end Lines

theorem Heads.append {texts : List (List Char)} (heads : Heads texts) (others : List (List Char)) :
    Heads (texts ++ others) := by
  obtain ⟨first, rest, rfl, shown⟩ := heads
  exact ⟨first, rest ++ others, rfl, shown⟩

theorem Lasts.ne_nil {texts : List (List Char)} (lasts : Lasts texts) : texts ≠ [] := by
  obtain ⟨front, last, rfl, -⟩ := lasts
  simp

/-- The last lines of a text are those of its end. -/
theorem Lasts.of_suffix {texts back : List (List Char)} (lasts : Lasts texts)
    (ends : back <:+ texts)
    (some : back ≠ []) : Lasts back := by
  obtain ⟨front, last, rfl, shown⟩ := lasts
  obtain ⟨before, whole⟩ := ends
  obtain ⟨others, final, rfl⟩ := (List.eq_nil_or_concat' back).resolve_left some
  rw [← List.append_assoc] at whole
  obtain ⟨-, same⟩ := List.append_inj' whole rfl
  obtain rfl : final = last := by simpa using same
  exact ⟨others, final, rfl, shown⟩

/-! ## Markers of closed lines -/

/-- The markers of closed lines stand before those of what follows. -/
theorem all_close_append (texts : List (List Char)) (rest : List Char) :
    all (close texts ++ rest) = texts.flatMap all ++ all rest := by
  induction texts with
  | nil => rfl
  | cons line others inductionHypothesis =>
      have newline := all_append_left (show '<' ∉ ['\n'] by decide) (close others ++ rest)
      rw [List.singleton_append] at newline
      rw [close_cons, List.append_assoc, List.cons_append,
        all_append line (opens_newline _), newline,
        inductionHypothesis, List.flatMap_cons, List.append_assoc]

theorem all_close (texts : List (List Char)) : all (close texts) = texts.flatMap all := by
  have closed := all_close_append texts []
  rwa [List.append_nil, all_nil, List.append_nil] at closed

/-- Tags behind the indentation of a line are read before the markers of the line. -/
theorem all_insert {text : List Char} (tags : Tags text) (line : List Char) :
    all (insert text line) = all text ++ all line := by
  obtain ⟨count, rest, rfl, -, taken, dropped⟩ := exists_margin line
  have margin := (Akin.blank_append (allBlank_spaces count) rest).all_eq
  have inserted := (Akin.blank_append (allBlank_spaces count) (text ++ rest)).all_eq
  rw [insert, taken, dropped, List.append_assoc, inserted, tags.all_append, margin]

namespace Chunk

variable {tags : List (List Char)} {text added : List Char}

theorem all_append (chunk : Chunk tags text) (rest : List Char) :
    all (text ++ rest) = tags ++ all rest := by
  obtain ⟨texts, rfl, -, -, -, rfl⟩ := chunk
  exact all_close_append texts rest

theorem all_eq (chunk : Chunk tags text) : all text = tags := by
  have alone := chunk.all_append []
  rwa [List.append_nil, all_nil, List.append_nil] at alone

/-- Tags may be put before a chunk. -/
theorem insert (chunk : Chunk tags text) (isTags : Tags added) :
    Chunk (all added ++ tags) (Layout.insert added text) := by
  obtain ⟨_, rfl, whole, ⟨first, rest, rfl, shown⟩, ⟨front, last, parts, shows⟩, rfl⟩ := chunk
  obtain ⟨here, others⟩ := List.forall_mem_cons.mp whole
  have kept := isBlankLine_of_erase_eq (erase_insert isTags first)
  refine ⟨Layout.insert added first :: rest, insert_close added first rest,
    List.forall_mem_cons.mpr ⟨not_newline_insert isTags here, others⟩,
      ⟨_, _, rfl, kept.trans shown⟩,
    ?_, by simp [all_insert isTags]⟩
  cases front with
  | nil =>
      obtain ⟨rfl, rfl⟩ := List.cons.inj parts
      exact ⟨[], _, rfl, kept.trans shown⟩
  | cons before more =>
      obtain ⟨rfl, rfl⟩ := List.cons.inj parts
      exact ⟨_ :: more, last, rfl, shows⟩

/-- Tags may be put behind a chunk. -/
theorem append_tags (chunk : Chunk tags text) (isTags : Tags added) :
    Chunk (tags ++ all added) (text.dropLast ++ added ++ ['\n']) := by
  obtain ⟨_, rfl, whole, heads, ⟨front, last, rfl, shown⟩, rfl⟩ := chunk
  obtain ⟨others, here⟩ := List.forall_mem_append.mp whole
  have kept := isBlankLine_of_erase_eq (isTags.erase_append_right last)
  refine ⟨front ++ [last ++ added], dropLast_close_append front last added, ?_, ?_,
    ⟨front, _, rfl, kept.trans shown⟩, by simp [isTags.all_append_right]⟩
  · refine List.forall_mem_append.mpr ⟨others, List.forall_mem_singleton.mpr ?_⟩
    rw [List.mem_append, not_or]
    exact ⟨here last (by simp), isTags.not_newline⟩
  · obtain ⟨first, rest, parts, shows⟩ := heads
    cases front with
    | nil =>
        obtain ⟨rfl, rfl⟩ := List.cons.inj parts
        exact ⟨_, [], rfl, kept.trans shown⟩
    | cons before more =>
        obtain ⟨rfl, rfl⟩ := List.cons.inj parts
        exact ⟨before, _, rfl, shows⟩

/-- Chunks may be put one behind the other. -/
theorem append {tags' : List (List Char)} {text' : List Char} (left : Chunk tags text)
    (right : Chunk tags' text') : Chunk (tags ++ tags') (text ++ text') := by
  obtain ⟨texts, rfl, whole, heads, -, rfl⟩ := left
  obtain ⟨texts', rfl, whole', -, ⟨front, last, rfl, shown⟩, rfl⟩ := right
  refine ⟨texts ++ (front ++ [last]), (close_append ..).symm,
    List.forall_mem_append.mpr ⟨whole, whole'⟩, heads.append _, ⟨texts ++ front, last, ?_, shown⟩,
    List.flatMap_append⟩
  rw [List.append_assoc]

/-- Trimming the tail of lines whose last shows something cuts off the blanks at its
end. -/
theorem trimTail {texts : List (List Char)} (whole : ∀ line ∈ texts, '\n' ∉ line)
    (heads : Heads texts) (lasts : Lasts texts) :
    Chunk (texts.flatMap all) (Layout.trimTail true (unlines texts) ++ ['\n']) := by
  obtain ⟨front, last, rfl, shown⟩ := lasts
  rw [trimTail_of_shown whole shown (by simp), unlines_append_newline]
  refine ⟨_, rfl, whole_cut whole, ?_, ⟨front, _, rfl, by rw [isBlankLine_trimEnd, shown]⟩,
    by simp [(Akin.trimEnd last).all_eq]⟩
  obtain ⟨first, rest, parts, shows⟩ := heads
  cases front with
  | nil => exact ⟨_, [], rfl, by rw [isBlankLine_trimEnd, shown]⟩
  | cons before more =>
      obtain ⟨rfl, -⟩ := List.cons.inj parts
      exact ⟨before, _, rfl, shows⟩

/-! ## Filled regions -/

/-- Lines that show something at both ends are laid out as a chunk. -/
theorem lay {texts : List (List Char)} (indent : Nat) (whole : ∀ line ∈ texts, '\n' ∉ line)
    (heads : Heads texts) (lasts : Lasts texts) :
    Chunk (texts.flatMap all)
      (Layout.trimTail true (indentLines true indent (unlines texts)) ++ ['\n']) := by
  rw [indentLines_unlines true indent lasts.ne_nil whole]
  have chunk := trimTail (List.forall_mem_map.mpr fun line present =>
    newline_not_mem_layLine (whole line present))
    (heads.map (isBlankLine_layLine indent)) (lasts.map (isBlankLine_layLine indent))
  have same : (texts.map (layLine true indent)).flatMap all = texts.flatMap all := by
    rw [List.flatMap_map]
    exact congrArg (texts.flatMap ·) (funext fun line => (Akin.layLine indent line).all_eq)
  rwa [same] at chunk

/-- Span text whose last line shows something fills a region with its markers. -/
theorem fill (options : Options) (indent : Nat) (wraps : Bool) (lasts : Lasts (lines text))
    (shown : isBlankLine true text = false) :
    Chunk (all text) (Layout.fill { options with debug := true } indent wraps text) := by
  obtain ⟨first, others, found, shows, ends⟩ := lines_trimMarkedStart shown
  have whole : ∀ line ∈ lines (trimMarkedStart text), '\n' ∉ line := fun _ => not_mem_of_mem_lines
  have heads : Heads (lines (trimMarkedStart text)) := ⟨first, others, found, shows⟩
  have final : Lasts (lines (trimMarkedStart text)) := by
    rw [found]
    cases others with
    | nil => exact ⟨[], first, rfl, shows⟩
    | cons next more =>
        obtain ⟨front, last, parts, lastShown⟩ :=
          lasts.of_suffix (ends.trans (List.tail_suffix _)) (List.cons_ne_nil next more)
        exact ⟨first :: front, last, by rw [parts, List.cons_append], lastShown⟩
  have tags : (lines (trimMarkedStart text)).flatMap all = all text := by
    rw [← all_unlines, unlines_lines, (Akin.trimMarkedStart text).all_eq]
  unfold Layout.fill
  dsimp only
  rw [trimTextStart, if_pos rfl]
  split
  · -- The lines are wrapped one by one.
    have wrapped := Wrap.lines_wrap true ((options.maxColumn : Int) - indent) (trimMarkedStart text)
    generalize Wrap.wrap true ((options.maxColumn : Int) - indent) (trimMarkedStart text) = flowed
      at wrapped
    have some := Wrap.wrapLine_ne_nil true (Wrap.budget ((options.maxColumn : Int) - indent))
    have shows (line : List Char) (shown : isBlankLine true line = false) :=
      Wrap.shown_of_mem_wrapLine (Wrap.budget ((options.maxColumn : Int) - indent)) shown
    have whole : ∀ line ∈ lines flowed, '\n' ∉ line := fun _ => not_mem_of_mem_lines
    have chunk := lay indent whole
      (wrapped ▸ heads.flatMap some shows) (wrapped ▸ final.flatMap some shows)
    have kept : (lines flowed).flatMap all = all text := by
      rw [wrapped, List.flatMap_assoc, ← tags]
      exact congrArg ((lines (trimMarkedStart text)).flatMap ·)
        (funext fun line => Wrap.all_wrapLine _ line)
    rwa [kept, unlines_lines] at chunk
  · have chunk := lay indent whole heads final
    rwa [tags, unlines_lines] at chunk

end Chunk

/-- Chunks one behind the other are a chunk. -/
theorem chunk_flatten {chunks : List (List Char)} (some : chunks ≠ [])
    (each : ∀ chunk ∈ chunks, Chunk (all chunk) chunk) :
    Chunk (chunks.flatMap all) chunks.flatten := by
  induction chunks with
  | nil => exact absurd rfl some
  | cons chunk rest inductionHypothesis =>
      obtain ⟨here, others⟩ := List.forall_mem_cons.mp each
      cases rest with
      | nil => simpa using here
      | cons next more =>
          exact here.append (inductionHypothesis (List.cons_ne_nil next more) others)

end Layout
end Galley
