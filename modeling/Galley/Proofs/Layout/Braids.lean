import Galley.Proofs.Layout.MatchedRegions
import Galley.Proofs.Layout.Woven

/-!
# Laying out span text with matched tags

Span text with tags is cut at its placeholders.  Each run of it that shows something
becomes a chunk, and so does each code; the markers of runs that show nothing wait and
are put on a neighbouring chunk.  So markers are read in their order, with those of the
code among them, and where they are matched, the tags of the laid out text are.
-/

namespace Galley
namespace Layout

open Marker Text

/-! ## Runs of span text -/

/-- The runs of traced text: what stands between its signs of code. -/
def runs (traced : List Char) : List (List Char) :=
  traced.splitOnP (· == '\x00')

/-- A run of span text shows nothing, or its last line shows something. -/
def Ends (run : List Char) : Prop :=
  isBlankLine true run = true ∨ ∀ line ∈ (lines run).getLast?, isBlankLine true line = false

instance : DecidablePred Ends := fun run =>
  inferInstanceAs (Decidable (_ ∨ ∀ line ∈ (lines run).getLast?, isBlankLine true line = false))

theorem Ends.lasts {run : List Char} (ends : Ends run) (shown : isBlankLine true run = false) :
    Lasts (lines run) := by
  obtain ⟨front, last, parts⟩ := (List.eq_nil_or_concat' (lines run)).resolve_left
      (lines_ne_nil run)
  rcases ends with blank | last'
  · rw [blank] at shown
    cases shown
  · exact ⟨front, last, parts, last' last (by simp [parts])⟩

/-- A run on one line ends with that line. -/
theorem ends_of_not_mem {run : List Char} (whole : '\n' ∉ run) : Ends run := by
  have alone : lines run = [run] := by
    have found := lines_unlines (List.cons_ne_nil run []) (List.forall_mem_singleton.mpr whole)
    rwa [unlines_singleton] at found
  cases shown : isBlankLine true run with
  | true => exact Or.inl shown
  | false => exact Or.inr (by simpa [alone] using shown)

theorem runs_of_nulFree {piece : List Char} (plain : NulFree piece) : runs piece = [piece] :=
  List.splitOnP_eq_singleton fun character present => by
    rw [beq_eq_false_iff_ne]
    rintro rfl
    exact plain present

/-- A run holds nothing but what the traced text holds. -/
theorem not_mem_of_mem_runs {character : Char} {traced : List Char} (absent : character ∉ traced) :
    ∀ run ∈ runs traced, character ∉ run := by
  induction traced with
  | nil => simp [runs]
  | cons first rest inductionHypothesis =>
      obtain ⟨other, absentRest⟩ := List.ne_and_not_mem_of_not_mem_cons absent
      have below := inductionHypothesis absentRest
      rw [runs, List.splitOnP_cons_eq_if_modifyHead]
      split
      · exact List.forall_mem_cons.mpr ⟨List.not_mem_nil, below⟩
      · obtain ⟨run, others, found⟩ :=
          List.exists_cons_of_ne_nil (List.splitOnP_ne_nil (· == '\x00') rest)
        rw [runs, found] at below
        obtain ⟨here, later⟩ := List.forall_mem_cons.mp below
        rw [found, List.modifyHead_cons]
        exact List.forall_mem_cons.mpr ⟨List.not_mem_cons_of_ne_of_not_mem other here, later⟩

/-- A sign of code parts the runs before it from those behind it. -/
theorem runs_append_sign (front back : List Char) :
    runs (front ++ (codeSign ++ back)) = runs front ++ runs back :=
  List.splitOnP_append_cons front back (by decide)

theorem runs_sign {piece : List Char} (plain : NulFree piece) (traced : List Char) :
    runs (piece ++ (codeSign ++ traced)) = piece :: runs traced := by
  rw [runs_append_sign, runs_of_nulFree plain, List.singleton_append]

/-! ## Placeholders and signs -/

/-- Span text in which placeholders stand for code, and the same text with a sign for
each code. -/
inductive Braids : List Char → List Char → Prop
  /-- A piece. -/
  | piece {piece : List Char} : NulFree piece → Braids piece piece
  /-- A piece, a placeholder and what follows. -/
  | code {piece text traced : List Char} (index : Nat) : NulFree piece → Braids text traced →
      Braids (piece ++ (placeholder index ++ text)) (piece ++ (codeSign ++ traced))

/-- The markers of a text go on behind what stands for code. -/
theorem all_sign (piece rest : List Char) :
    all (piece ++ (codeSign ++ rest)) = all piece ++ all rest := by
  rw [all_append piece (opens_sign rest), all_append_left (by decide)]

theorem isBlankLine_sign (piece rest : List Char) :
    isBlankLine true (piece ++ (codeSign ++ rest)) = false := by
  have sign : isBlankLine true (codeSign ++ rest) = false := by
    rw [isBlankLine, if_pos rfl, erase_append_left (by decide)]
    rfl
  rw [isBlankLine_append piece (opens_sign rest), sign, Bool.and_false]

namespace Braids

variable {text traced text' traced' : List Char}

theorem nil : Braids [] [] := piece nulFree_nil

/-- What was just held. -/
theorem held (index : Nat) : Braids (placeholder index) codeSign := by
  have alone := code index nulFree_nil nil
  simpa using alone

theorem prepend {front : List Char} (plain : NulFree front) (braids : Braids text traced) :
    Braids (front ++ text) (front ++ traced) := by
  cases braids with
  | piece textPlain => exact piece (nulFree_append.mpr ⟨plain, textPlain⟩)
  | code index textPlain braids =>
      simp only [← List.append_assoc front]
      exact code index (nulFree_append.mpr ⟨plain, textPlain⟩) braids

theorem append (left : Braids text traced) (right : Braids text' traced') :
    Braids (text ++ text') (traced ++ traced') := by
  induction left with
  | piece plain => exact right.prepend plain
  | code index plain _ inductionHypothesis =>
      simp only [List.append_assoc]
      exact code index plain inductionHypothesis

theorem enclose {kind : Kind} (known : kind.isKnown = true) (braids : Braids text traced) :
    Braids (Layout.enclose spanClass kind.name.toList text)
      (Layout.enclose spanClass kind.name.toList traced) := by
  obtain ⟨opened, closed⟩ := isMarker_opening (Or.inr rfl) known
  exact (braids.prepend (nulFree_of_isMarker opened)).append (piece (nulFree_of_isMarker closed))

theorem joinLines (braids : Braids text traced) :
    Braids (Layout.joinLines text) (Layout.joinLines traced) := by
  induction braids with
  | piece plain => exact piece (nulFree_of_sublist plain (joinLines_sublist _))
  | code index plain _ inductionHypothesis =>
      rw [joinLines_placeholder, joinLines_sign]
      exact code index (nulFree_of_sublist plain (joinLines_sublist _)) inductionHypothesis

theorem all_eq (braids : Braids text traced) : all text = all traced := by
  induction braids with
  | piece => rfl
  | @code piece text traced index _ _ inductionHypothesis =>
      rw [all_sign, all_append piece (opens_placeholder index text),
        all_append_left (not_bracket_placeholder index), inductionHypothesis]

/-- Code is shown, so a sign stands for it. -/
theorem blank_eq (braids : Braids text traced) :
    isBlankLine true text = isBlankLine true traced := by
  cases braids with
  | piece => rfl
  | @code piece text traced index _ _ =>
      have stand : isBlankLine true (placeholder index ++ text) = false := by
        rw [isBlankLine, if_pos rfl, erase_append_left (not_bracket_placeholder index)]
        rfl
      rw [isBlankLine_sign, isBlankLine_append piece (opens_placeholder index text), stand,
        Bool.and_false]

/-- The text is cut into the runs of the traced text. -/
theorem split (braids : Braids text traced) :
    runs traced = (splitHeld text).1 :: (splitHeld text).2.map Prod.snd ∧
      all traced = all (splitHeld text).1 ++ (splitHeld text).2.flatMap (all ·.2) ∧
      isBlankLine true traced =
        (isBlankLine true (splitHeld text).1 && (splitHeld text).2.isEmpty) := by
  induction braids with
  | piece plain =>
      rw [splitHeld_of_nulFree plain]
      exact ⟨runs_of_nulFree plain, by simp, by simp⟩
  | @code piece text traced index plain _ inductionHypothesis =>
      obtain ⟨cut, spread, -⟩ := inductionHypothesis
      rw [splitHeld_append plain, splitHeld_placeholder]
      refine ⟨?_, ?_, ?_⟩
      · rw [runs_sign plain, cut]
        simp
      · rw [all_sign, spread]
        simp
      · rw [isBlankLine_sign]
        simp

end Braids

/-! ## Assembling -/

namespace Assembly

/-- Waiting tags are put behind the last chunk. -/
theorem chunk_attachMarkers {chunks : List (List Char)} {tags : List Char} (isTags : Tags tags)
    (some : chunks ≠ []) (each : ∀ chunk ∈ chunks, Chunk (all chunk) chunk) :
    attachMarkers chunks tags ≠ [] ∧
      (∀ chunk ∈ attachMarkers chunks tags, Chunk (all chunk) chunk) ∧
      (attachMarkers chunks tags).flatMap all = chunks.flatMap all ++ all tags := by
  induction chunks with
  | nil => exact absurd rfl some
  | cons chunk rest inductionHypothesis =>
      obtain ⟨here, others⟩ := List.forall_mem_cons.mp each
      cases rest with
      | nil =>
          have longer := here.append_tags isTags
          rw [← longer.all_eq] at longer
          exact ⟨by simp [attachMarkers], by simpa [attachMarkers] using longer,
            by simpa [attachMarkers] using (here.append_tags isTags).all_eq⟩
      | cons next more =>
          obtain ⟨-, chunks, spread⟩ := inductionHypothesis (List.cons_ne_nil next more) others
          have step : attachMarkers (chunk :: next :: more) tags =
              chunk :: attachMarkers (next :: more) tags := rfl
          rw [step]
          refine ⟨by simp, List.forall_mem_cons.mpr ⟨here, chunks⟩, ?_⟩
          rw [List.flatMap_cons, spread, ← List.append_assoc, ← List.flatMap_cons]

/-- An assembly has read some markers: those of its chunks and those that wait leave the
same tags open.  There are chunks once something is shown. -/
structure Reads (shown : Bool) (tags : List (List Char)) (assembly : Assembly) : Prop where
  /-- Chunks are chunks. -/
  chunks : ∀ chunk ∈ assembly.chunks, Chunk (all chunk) chunk
  /-- There are chunks once something is shown. -/
  none : assembly.chunks = [] ↔ shown = false
  /-- Tags wait. -/
  waits : Tags assembly.markers
  /-- The tags are read in order. -/
  reads : ∀ opened, readTags opened (assembly.chunks.flatMap all ++ all assembly.markers) =
    readTags opened tags

variable {shown : Bool} {tags added : List (List Char)} {assembly : Assembly}

theorem reads_start : Reads false [] {} :=
  ⟨by simp, by simp, Tags.nil, fun _ => rfl⟩

/-- What is read behind the same tags leaves the same tags open. -/
theorem readTags_congr {first second : List (List Char)}
    (same : ∀ opened, readTags opened first = readTags opened second) (opened : List (List Char))
    (behind : List (List Char)) :
    readTags opened (first ++ behind) = readTags opened (second ++ behind) := by
  rw [readTags_append, readTags_append, same]

theorem Reads.addChunk (stands : Reads shown tags assembly) {chunk : List Char}
    (laid : Chunk added chunk) : Reads true (tags ++ added) (assembly.addChunk chunk) := by
  have reads := stands.reads
  have single : Chunk (all chunk) chunk := laid.all_eq.symm ▸ laid
  unfold Assembly.addChunk
  split
  · rename_i empty
    rw [List.isEmpty_iff.mp empty, all_nil, List.append_nil] at reads
    refine ⟨List.forall_mem_append.mpr ⟨stands.chunks, List.forall_mem_singleton.mpr single⟩,
      by simp, stands.waits, fun opened => ?_⟩
    have behind := readTags_congr (by simpa using reads) opened added
    simpa [List.isEmpty_iff.mp empty, laid.all_eq] using behind
  · split
    · rename_i none
      rw [none] at reads
      have marked := laid.insert stands.waits
      refine ⟨List.forall_mem_singleton.mpr ?_, by simp, Tags.nil, fun opened => ?_⟩
      · rw [← marked.all_eq] at marked
        exact marked
      · have behind := readTags_congr (by simpa using reads) opened added
        change readTags opened ([Layout.insert assembly.markers chunk].flatMap all ++ all []) = _
        rwa [List.flatMap_singleton, marked.all_eq, all_nil, List.append_nil]
    · rename_i some
      have nonempty : assembly.chunks ≠ [] := fun none => by simp_all
      obtain ⟨-, chunks, spread⟩ := chunk_attachMarkers stands.waits nonempty stands.chunks
      refine ⟨List.forall_mem_append.mpr ⟨chunks, List.forall_mem_singleton.mpr single⟩,
        by simp, Tags.nil, fun opened => ?_⟩
      have behind := readTags_congr reads opened added
      simpa [spread, laid.all_eq] using behind

theorem Reads.addPiece (stands : Reads shown tags assembly) {options : Options} {piece : List Char}
    (ends : Ends piece) (indent : Nat) (wraps : Bool) :
    Reads (shown || !isBlankLine true piece) (tags ++ all piece)
      (assembly.addPiece { options with debug := true } indent wraps piece) := by
  unfold Assembly.addPiece
  dsimp only
  cases blank : isBlankLine true piece with
  | true =>
      have kept : all (all piece).flatten = all piece := all_flatten fun _ => isMarker_of_mem_all
      refine ⟨stands.chunks, by simpa using stands.none, stands.waits.append (Tags.of_all piece),
        fun opened => ?_⟩
      have behind := readTags_congr stands.reads opened (all piece)
      rw [List.append_assoc] at behind
      simpa [stands.waits.all_append, kept] using behind
  | false =>
      have filled := stands.addChunk (Chunk.fill options indent wraps (ends.lasts blank) blank)
      simpa using filled

/-- Code with matched markers may stand anywhere among the tags that are read. -/
theorem Reads.addCode (stands : Reads shown tags assembly) {code : List Char}
    (sealed : MatchedSealed .shown code) : Reads true tags (assembly.addChunk code) := by
  have added := stands.addChunk sealed.chunk
  refine ⟨added.chunks, added.none, added.waits, fun opened => (added.reads opened).trans ?_⟩
  have inserted := sealed.matched.readTags_insert opened tags []
  simpa using inserted

/-- Once something is shown, the text of an assembly is a chunk whose markers leave the
tags open that were read. -/
theorem Reads.text (stands : Reads true tags assembly) :
    Chunk (all assembly.text) assembly.text ∧
      ∀ opened, readTags opened (all assembly.text) = readTags opened tags := by
  have some : assembly.chunks ≠ [] := fun none => by simpa using stands.none.mp none
  have reads := stands.reads
  unfold Assembly.text
  split
  · rename_i empty
    have whole := chunk_flatten some stands.chunks
    rw [List.isEmpty_iff.mp empty, all_nil, List.append_nil] at reads
    rw [whole.all_eq]
    exact ⟨whole, reads⟩
  · obtain ⟨some', chunks, spread⟩ := chunk_attachMarkers stands.waits some stands.chunks
    have whole := chunk_flatten some' chunks
    rw [whole.all_eq, spread]
    exact ⟨spread ▸ whole, reads⟩

/-- While nothing is shown, no text is laid out. -/
theorem Reads.text_nil (stands : Reads false tags assembly) : assembly.text = [] := by
  have none := stands.none.mpr rfl
  unfold Assembly.text
  split <;> simp [none, attachMarkers]

end Assembly

/-- Held code is found among what is held. -/
theorem mem_of_heldAt {held : List (List Char)} {digits code : List Char}
    (found : heldAt held digits = .ok code) : code ∈ held := by
  unfold heldAt at found
  split at found
  · cases found
  · split at found
    · rename_i other at?
      obtain rfl := Except.ok.inj found
      exact List.mem_of_getElem? at?
    · cases found

section Layout

variable {options : Options} {held : List (List Char)} {indent : Nat} {wraps : Bool}
  (codes : ∀ code ∈ held, MatchedSealed .shown code)

include codes

/-- Pieces and the code before each are read in order. -/
theorem assemble_reads {others : List (List Char × List Char)}
    (ends : ∀ entry ∈ others, Ends entry.2) {shown : Bool} {tags : List (List Char)}
    {start final : Assembly} (stands : start.Reads shown tags)
    (assembled : assemble { options with debug := true } held indent wraps start others =
        .ok final) :
    final.Reads (shown || !others.isEmpty) (tags ++ others.flatMap (all ·.2)) := by
  induction others generalizing shown tags start with
  | nil =>
      obtain rfl := Except.ok.inj assembled
      simpa using stands
  | cons entry rest inductionHypothesis =>
      obtain ⟨digits, piece⟩ := entry
      obtain ⟨here, later⟩ := List.forall_mem_cons.mp ends
      rw [assemble] at assembled
      obtain ⟨code, found, assembled⟩ := exists_of_bind_eq_ok assembled
      have coded := stands.addCode (codes code (mem_of_heldAt found))
      have read := inductionHypothesis later (coded.addPiece here indent wraps) assembled
      simpa using read

/-- Span text with matched markers is laid out with matched markers, where each of its
runs ends with text; nothing is laid out where nothing is shown. -/
theorem layoutSpan_matched {text traced laid : List Char} (braids : Braids text traced)
    (matched : Matched (all traced)) (ends : ∀ run ∈ runs traced, Ends run)
    (returned : layoutSpan { options with debug := true } held indent wraps text = .ok laid) :
    (isBlankLine true traced = true → laid = []) ∧
      (isBlankLine true traced = false → MatchedSealed .shown laid) := by
  obtain ⟨cut, spread, blank⟩ := braids.split
  rw [cut] at ends
  obtain ⟨here, later⟩ := List.forall_mem_cons.mp ends
  rw [layoutSpan] at returned
  obtain ⟨final, assembled, returned⟩ := exists_of_bind_eq_ok returned
  obtain rfl := Except.ok.inj returned
  have read := assemble_reads codes (List.forall_mem_map.mp later)
    (Assembly.reads_start.addPiece here indent wraps) assembled
  rw [List.nil_append, ← spread, Bool.false_or, ← Bool.not_and, ← blank] at read
  constructor
  · intro nothing
    rw [nothing] at read
    exact read.text_nil
  · intro something
    rw [something] at read
    obtain ⟨chunk, same⟩ := read.text
    exact MatchedSealed.of_chunk chunk fun opened => (same opened).trans (matched opened)

end Layout

end Layout
end Galley
