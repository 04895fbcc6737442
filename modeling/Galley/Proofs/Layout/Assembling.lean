import Galley.Proofs.Balance
import Galley.Proofs.Layout.Woven

/-!
# Laying out span text with tags

Pieces and held code are assembled chunk by chunk.  Tags of pieces that show nothing
wait, and are put into a neighbouring chunk; since chunks are sealed, that changes
nothing but the tags.
-/

namespace Galley
namespace Layout

open Marker Text

variable {indent : Nat}

namespace Assembly

/-- Assemblies with and without tags: their chunks are sealed pairwise, and tags wait in
the marked one only. -/
structure Stands (indent : Nat) (marked plain : Assembly) : Prop where
  /-- The chunks differ by tags. -/
  chunks : List.Forall₂ (Sealed indent) marked.chunks plain.chunks
  /-- Tags wait. -/
  tags : Tags marked.markers
  /-- Nothing waits in the plain assembly. -/
  bare : plain.markers = []

theorem stands_start : Stands indent {} {} :=
  ⟨List.Forall₂.nil, Tags.nil, rfl⟩

/-- Tags may be put at the end of the last chunk. -/
theorem sealed_attachMarkers {chunks chunks' : List (List Char)} {tags : List Char}
    (pairs : List.Forall₂ (Sealed indent) chunks chunks') (isTags : Tags tags) :
    List.Forall₂ (Sealed indent) (attachMarkers chunks tags) chunks' := by
  induction pairs with
  | nil => exact List.Forall₂.nil
  | cons first rest inductionHypothesis =>
      cases rest with
      | nil => exact List.Forall₂.cons (first.append_tags isTags) List.Forall₂.nil
      | cons next others => exact List.Forall₂.cons first inductionHypothesis

variable {marked plain : Assembly}

theorem Stands.addChunk (stands : Stands indent marked plain) {chunk chunk' : List Char}
    (pair : Sealed indent chunk chunk') :
    Stands indent (marked.addChunk chunk) (plain.addChunk chunk') := by
  have added : plain.addChunk chunk' = { plain with chunks := plain.chunks ++ [chunk'] } := by
    simp [Assembly.addChunk, stands.bare]
  have last : List.Forall₂ (Sealed indent) [chunk] [chunk'] :=
    List.Forall₂.cons pair List.Forall₂.nil
  rw [added]
  unfold Assembly.addChunk
  split
  · exact ⟨List.rel_append stands.chunks last, stands.tags, stands.bare⟩
  · split
    · rename_i none
      have pairs := stands.chunks
      rw [none, List.forall₂_nil_left_iff] at pairs
      refine ⟨?_, Tags.nil, stands.bare⟩
      rw [pairs]
      exact List.Forall₂.cons (pair.insert stands.tags) List.Forall₂.nil
    · exact ⟨List.rel_append (sealed_attachMarkers stands.chunks stands.tags) last, Tags.nil,
        stands.bare⟩

/-- A piece becomes a sealed chunk; of a piece that shows nothing the tags wait. -/
theorem Stands.addPiece (stands : Stands indent marked plain) (options : Options) (wraps : Bool)
    {piece : List Char} (blanks : PlainBlanks piece)
    (wrappable : wraps = true → options.wraps = true → Wrap.Wrappable piece) :
    Stands indent (marked.addPiece { options with debug := true } indent wraps piece)
      (plain.addPiece { options with debug := false } indent wraps (erase piece)) := by
  unfold Assembly.addPiece
  dsimp only
  rw [isBlankLine_erase]
  cases shown : isBlankLine true piece with
  | true =>
      simp only [if_true, Bool.false_eq_true, if_false]
      exact ⟨stands.chunks, stands.tags.append (Tags.of_all piece), stands.bare⟩
  | false =>
      simp only [Bool.false_eq_true, if_false]
      exact stands.addChunk (sealed_fill options indent wraps shown blanks wrappable)

theorem sealed_flatten {chunks chunks' : List (List Char)}
    (pairs : List.Forall₂ (Sealed indent) chunks chunks') (some : chunks' ≠ []) :
    Sealed indent chunks.flatten chunks'.flatten := by
  induction pairs with
  | nil => exact absurd rfl some
  | cons first rest inductionHypothesis =>
      cases rest with
      | nil => simpa using first
      | cons next others => exact first.append (inductionHypothesis (by simp))

/-- The texts of two assemblies are sealed, unless there are no chunks. -/
theorem Stands.text (stands : Stands indent marked plain) :
    if plain.chunks = [] then marked.text = [] ∧ plain.text = []
    else Sealed indent marked.text plain.text := by
  have bare : plain.text = plain.chunks.flatten := by simp [Assembly.text, stands.bare]
  split
  · rename_i none
    have pairs := stands.chunks
    rw [none, List.forall₂_nil_right_iff] at pairs
    rw [bare, none]
    simp [Assembly.text, pairs, attachMarkers]
  · rename_i some
    rw [bare]
    unfold Assembly.text
    split
    · exact sealed_flatten stands.chunks some
    · exact sealed_flatten (sealed_attachMarkers stands.chunks stands.tags) some

/-- Chunks are only added. -/
theorem chunks_addPiece (assembly : Assembly) (options : Options) (wraps : Bool) (piece : List Char)
    (undebugged : options.debug = false) :
    (assembly.addPiece options indent wraps piece).chunks = [] →
      assembly.chunks = [] ∧ isBlankLine false piece = true := by
  intro none
  unfold Assembly.addPiece at none
  rw [undebugged] at none
  split at none
  · rename_i blank
    exact ⟨by simpa using none, blank⟩
  · exfalso
    unfold Assembly.addChunk at none
    split at none
    · simp at none
    · split at none <;> simp at none

end Assembly

variable {codes codes' : List (List Char)}

/-- Where the plain texts are assembled, so are the marked ones. -/
theorem assemble_stands (options : Options) (wraps : Bool)
    {others others' : List (List Char × List Char)}
    (pairs : List.Forall₂ (Paired codes codes' indent) others others')
    (wrappable : wraps = true → options.wraps = true →
      ∀ entry ∈ others, Wrap.Wrappable entry.2)
    {marked plain final' : Assembly} (stands : Assembly.Stands indent marked plain)
    (assembled : assemble { options with debug := false } codes' indent wraps plain others' =
      .ok final') :
    ∃ final, assemble { options with debug := true } codes indent wraps marked others = .ok final ∧
      Assembly.Stands indent final final' := by
  induction pairs generalizing marked plain with
  | nil =>
      obtain rfl := Except.ok.inj assembled
      exact ⟨marked, rfl, stands⟩
  | @cons entry entry' others others' pair _ inductionHypothesis =>
      obtain ⟨digits, piece⟩ := entry
      obtain ⟨digits', piece'⟩ := entry'
      obtain ⟨same, refers, erased, blanks, -⟩ := pair
      obtain rfl : digits = digits' := same
      obtain rfl : erase piece = piece' := erased
      rw [assemble] at assembled ⊢
      cases found' : heldAt codes' digits with
      | error fault =>
          rw [found'] at assembled
          cases assembled
      | ok code' =>
          obtain ⟨code, found, pair⟩ := refers code' found'
          rw [found'] at assembled
          rw [found]
          refine inductionHypothesis
            (fun wrap wrapOption entry present => wrappable wrap wrapOption entry
                (by simp [present]))
            ((stands.addChunk pair).addPiece options wraps blanks
              fun wrap wrapOption => wrappable wrap wrapOption (digits, piece) (by simp)) assembled

/-- Held code is assembled as chunks. -/
theorem chunks_assemble {options : Options} (undebugged : options.debug = false) (wraps : Bool)
    {others : List (List Char × List Char)} {start final : Assembly}
    (assembled : assemble options codes' indent wraps start others = .ok final)
    (none : final.chunks = []) : start.chunks = [] ∧ others = [] := by
  induction others generalizing start with
  | nil =>
      obtain rfl := Except.ok.inj assembled
      exact ⟨none, rfl⟩
  | cons entry rest inductionHypothesis =>
      obtain ⟨digits, piece⟩ := entry
      rw [assemble] at assembled
      cases found : heldAt codes' digits with
      | error fault =>
          rw [found] at assembled
          cases assembled
      | ok code =>
          rw [found] at assembled
          have added := (inductionHypothesis assembled).1
          have chunks := (Assembly.chunks_addPiece _ options wraps piece undebugged added).1
          exfalso
          unfold Assembly.addChunk at chunks
          split at chunks
          · simp at chunks
          · split at chunks <;> simp at chunks

/-- Pieces with signs of code between them are wrapped by themselves. -/
theorem wrappable_pieces {others others' : List (List Char × List Char)}
    (pairs : List.Forall₂ (Paired codes codes' indent) others others') {first : List Char}
    (plain : NulFree first)
    (wrappable : Wrap.Wrappable
      (openCodes (first ++ others.flatMap fun entry => codeSign ++ entry.2))) :
    Wrap.Wrappable first ∧ ∀ entry ∈ others, Wrap.Wrappable entry.2 := by
  induction pairs generalizing first with
  | nil =>
      rw [List.flatMap_nil, List.append_nil, openCodes_of_nulFree plain] at wrappable
      exact ⟨wrappable, by simp⟩
  | cons pair _ inductionHypothesis =>
      rw [List.flatMap_cons, List.append_assoc, openCodes_append, openCodes_append,
        openCodes_codeSign, openCodes_of_nulFree plain] at wrappable
      obtain ⟨before, behind⟩ := Wrap.wrappable_append_newline wrappable
      obtain ⟨here, later⟩ := inductionHypothesis pair.nulFree behind
      exact ⟨before, List.forall_mem_cons.mpr ⟨here, later⟩⟩

/-- Where plain span text is laid out, so is the text with tags.  Nothing is laid out
only where nothing is shown. -/
theorem layoutSpan_sealed (options : Options) (wraps : Bool) {marked plain traced laid' : List Char}
    (stands : Woven codes codes' indent marked plain traced)
    (wrappable : wraps = true → options.wraps = true → Wrap.Wrappable (openCodes traced))
    (returned : layoutSpan { options with debug := false } codes' indent wraps plain = .ok laid') :
    ∃ laid, layoutSpan { options with debug := true } codes indent wraps marked = .ok laid ∧
      (Sealed indent laid laid' ∨ laid = [] ∧ laid' = [] ∧ allBlank (erase traced) = true) := by
  obtain ⟨erased, blanks, nulFree, pairs, rfl⟩ := stands.split
  have pieces := fun wrap wrapOption => wrappable_pieces pairs nulFree (wrappable wrap wrapOption)
  have none : Assembly.Stands indent {} {} := Assembly.stands_start
  have start := none.addPiece options wraps blanks fun wrap wrapOption => (pieces wrap wrapOption).1
  rw [layoutSpan] at returned ⊢
  dsimp only at returned ⊢
  rw [← erased] at returned
  cases found' : assemble { options with debug := false } codes' indent wraps
      (Assembly.addPiece { options with debug := false } indent wraps {}
          (erase (splitHeld marked).1))
      (splitHeld plain).2 with
  | error fault =>
      rw [found'] at returned
      cases returned
  | ok final' =>
      obtain ⟨final, found, finalStands⟩ := assemble_stands options wraps pairs
        (fun wrap wrapOption => (pieces wrap wrapOption).2) start found'
      rw [found'] at returned
      obtain rfl := Except.ok.inj returned
      rw [found]
      refine ⟨final.text, rfl, ?_⟩
      have texts := finalStands.text
      split at texts
      · rename_i none
        obtain ⟨chunks, others⟩ := chunks_assemble rfl wraps found' none
        have blank := (Assembly.chunks_addPiece _ _ wraps _ rfl chunks).2
        rw [others, List.forall₂_nil_right_iff] at pairs
        refine Or.inr ⟨texts.1, texts.2, ?_⟩
        rw [pairs, List.flatMap_nil, List.append_nil]
        exact blank
      · exact Or.inl texts

end Layout
end Galley
