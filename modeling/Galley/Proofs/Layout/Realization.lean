import Galley.Proofs.Layout.Conveying
import Galley.Proofs.Layout.Meaning

/-!
# Realizing a meaning

A computation of the renderer realizes a meaning where it gives what is meant, and stops
at the fault that the meaning stops at, or because so much code is held that a numeral
is too long.  Leaves realize their meaning whatever code is held before.
-/

namespace Galley
namespace Layout

open Text

/-- A computation gives what something means, or stops at the fault that the meaning
stops at, unless so much code is held that a numeral is too long. -/
def Realizes (bound : Nat) (action : Render α) (before : Workspace) (meaning : Except Fault β)
    (related : α → β → Workspace → Prop) : Prop :=
  Meets action before (fun fault => meaning = .error fault ∨ Overfull bound fault)
    fun value after => ∃ denoted, meaning = .ok denoted ∧ related value denoted after

namespace Realizes

variable {α β γ δ : Type} {bound : Nat} {action : Render α} {before : Workspace}
  {meaning : Except Fault β} {related : α → β → Workspace → Prop}

theorem imp {weaker : α → β → Workspace → Prop}
    (realizes : Realizes bound action before meaning related)
    (results : ∀ value denoted after, related value denoted after → weaker value denoted after) :
    Realizes bound action before meaning weaker := by
  refine Meets.imp realizes ?_
  rintro value after ⟨denoted, same, holds⟩
  exact ⟨denoted, same, results value denoted after holds⟩

/-- Sequences realize sequences part by part. -/
theorem bind {next : α → Render γ} {next' : β → Except Fault δ} {final : γ → δ → Workspace → Prop}
    (first : Realizes bound action before meaning related)
    (second : ∀ value denoted after, related value denoted after →
      Realizes bound (next value) after (next' denoted) final) :
    Realizes bound (action >>= next) before (meaning >>= next') final := by
  have stopped {fault : Fault} (same : meaning = .error fault) :
      (meaning >>= next') = .error fault := by rw [same]; rfl
  refine Meets.bind (first.mono (fun fault => Or.imp_left stopped) fun _ _ holds => holds) ?_
  rintro value after ⟨denoted, rfl, holds⟩
  exact second value denoted after holds

/-- What means a value gives it, unless a numeral is too long. -/
theorem meets {denoted : β} (realizes : Realizes bound action before (.ok denoted) related) :
    Meets action before (Overfull bound) fun value after => related value denoted after := by
  refine Meets.mono realizes (fun fault stopped => stopped.resolve_left nofun) ?_
  rintro value after ⟨_, same, holds⟩
  cases same
  exact holds

/-- What means a value without more ado may come first. -/
theorem give_bind {denoted : β} {next : α → Render γ} {meaning' : Except Fault δ}
    {final : γ → δ → Workspace → Prop} (first : Realizes bound action before (.ok denoted) related)
    (second : ∀ value after, related value denoted after →
      Realizes bound (next value) after meaning' final) :
    Realizes bound (action >>= next) before meaning' final :=
  Meets.bind (first.meets.mono (fun _ => Or.inr) fun _ _ holds => holds) second

theorem give {value : α} {denoted : β} (holds : related value denoted before) :
    Realizes bound (pure value) before (pure denoted) related :=
  Meets.give ⟨denoted, rfl, holds⟩

theorem stop {fault : Fault} :
    Realizes bound (throw fault : Render α) before (throw fault : Except Fault β) related :=
  Meets.stop (Or.inl rfl)

/-- Events are no part of the meaning. -/
theorem report_bind {event : LogEvent} {next : Unit → Render α}
    (rest : ∀ log, Realizes bound (next ()) { before with log := log } meaning related) :
    Realizes bound (report event >>= next) before meaning related :=
  Meets.change_bind (rest _)

end Realizes

/-! ## Leaves -/

/-- What a computation gives depends on nothing that is kept, and no code is held by
it. -/
structure Quiet (action : Render α) : Prop where
  /-- The result is always the same. -/
  result : ∀ workspace workspace', (outcome action workspace).1 = (outcome action workspace').1
  /-- No code is held. -/
  held : ∀ workspace, (outcome action workspace).2.held = workspace.held

namespace Quiet

/-- A leaf is quiet: what it reports has no part in what it gives. -/
theorem of_terse {action : Render α} (terse : Terse action) : Quiet action := by
  cases terse with
  | give value => exact ⟨fun _ _ => rfl, fun _ => rfl⟩
  | stop fault => exact ⟨fun _ _ => rfl, fun _ => rfl⟩
  | report _ value => exact ⟨fun _ _ => rfl, fun _ => rfl⟩

end Quiet

/-- What the conversion of a node puts together holds no NUL, and a row has nothing but
blocks. -/
structure Settled (setting : Setting) (node : Node) : Prop where
  /-- No string of the node holds NUL. -/
  nulFree : node.NulFree
  /-- The cells of a row are blocks. -/
  cells : node.kind = .tableRow → ∀ child ∈ node.children, child.isBlock = true
  /-- The tree that a reference is looked up in holds no NUL. -/
  tables : node.kind = .reference → ∀ numbered, setting.numbered = some numbered →
    numbered.tree.Everywhere Node.NulFree

instance (setting : Setting) : DecidablePred (Settled setting) := fun node =>
  decidable_of_iff
    (node.NulFree ∧
      (node.kind = .tableRow → ∀ child ∈ node.children, child.isBlock = true) ∧
      (node.kind = .reference → ∀ numbered ∈ setting.numbered,
        numbered.tree.Everywhere Node.NulFree))
    ⟨fun ⟨nulFree, cells, tables⟩ => ⟨nulFree, cells, tables⟩,
      fun settled => ⟨settled.nulFree, settled.cells, settled.tables⟩⟩

variable {setting : Setting}

theorem nulFree_attributeText {value : Datum} (plain : value.NulFree) (workspace : Workspace) :
    Meets (attributeText setting value) workspace (fun _ => True) fun text _ => NulFree text := by
  unfold attributeText
  split
  · exact Meets.give plain
  · split
    · exact Meets.give (Datum.nulFree_display plain)
    · exact Meets.stop trivial

theorem nulFree_substitute {table : List (String × String)}
    (plain : ∀ entry ∈ table, NulFree entry.2.toList) (key : String) (unknown : String → LogEvent)
    (workspace : Workspace) :
    Meets (substitute table key unknown) workspace (fun _ => True) fun text _ => NulFree text := by
  refine (substitute_meets table key unknown workspace).mono (fun _ _ => trivial) ?_
  rintro text _ ⟨-, rfl⟩
  exact nulFree_lookup plain key

/-- The text of a leaf holds no NUL. -/
theorem nulFree_leafText {node : Node} (settled : Settled setting node)
    (below : ∀ child ∈ node.children, child.NulFree) (place : Place) (indent : Nat)
    (workspace : Workspace) :
    Meets (leafText setting node place indent) workspace (fun _ => True) fun text _ =>
      NulFree text := by
  have plain := settled.nulFree
  have content : NulFree node.payload.content.toList := Payload.nulFree_content plain.payload
  have empty : (Datum.text "").NulFree := nulFree_nil
  have target : Meets (attributeText setting (node.attributes.getD "href" (.text ""))) workspace
      (fun _ => True) fun text _ => NulFree text :=
    nulFree_attributeText (nulFree_getD plain.attributes "href" empty) workspace
  unfold leafText
  split
  · exact Meets.give (nulFree_horizontalRule _ _)
  · exact Meets.give (nulFree_verbatim content _ _)
  · exact Meets.give (nulFree_verbatim content _ _)
  · exact Meets.give content
  · exact Meets.give (by decide)
  · unfold linkText
    split
    · rename_i found
      split
      · have shown := Payload.nulFree_display (below _ (found ▸ List.mem_singleton_self _)).payload
        exact Meets.give (by simp [shown])
      · exact target
    · exact target
  · unfold imageText
    dsimp only
    split
    · exact nulFree_attributeText
        (nulFree_getD plain.attributes "src" (show Datum.NulFree .null from trivial)) workspace
    · exact target
  · exact nulFree_substitute (by decide) _ _ workspace
  · exact nulFree_substitute (by decide) _ _ workspace
  · unfold referenceText
    split
    · unfold report
      exact Meets.change_bind (Meets.give (by decide))
    · rename_i numbered found
      have shown := nulFree_lookUp (settled.tables ‹_› numbered found) place node.payload.content
      rcases looked : numbered.lookUp place node.payload.content with ⟨text, event | event⟩
      · rw [looked] at shown
        exact Meets.give shown
      · rw [looked] at shown
        unfold report
        exact Meets.change_bind (Meets.give shown)
  · have assignee := Datum.nulFree_display (nulFree_getD plain.options "assignee" empty)
    exact Meets.give (by simp [assignee])
  · exact Meets.give (nulFree_issueText plain)
  · exact Meets.give (by split <;> simp [content])
  · exact Meets.give nulFree_nil

/-- A leaf has its text, whatever code is held. -/
theorem leafText_realizes (bound : Nat) {node : Node} (settled : Settled setting node)
    (below : ∀ child ∈ node.children, child.NulFree)
    (place : Place) (indent : Nat) (before : Workspace) :
    Realizes bound (leafText setting node place indent) before
      (leafMeaning setting node place indent)
      fun text denoted after => after.held = before.held ∧ text = denoted ∧ NulFree denoted := by
  have quiet := Quiet.of_terse (Terse.leafText setting node place indent)
  have kept := quiet.held before
  have textPlain := nulFree_leafText settled below place indent before
  unfold Realizes leafMeaning
  unfold Meets at textPlain ⊢
  rw [← quiet.result before {}]
  rcases found : outcome (leafText setting node place indent) before with ⟨fault | text, after⟩
  · exact Or.inl rfl
  · rw [found] at kept textPlain
    exact ⟨text, rfl, kept, rfl, textPlain⟩

/-- The text of a span leaf knows no indentation. -/
theorem leafText_of_span {node : Node} (span : node.isBlock = false)
    (noCode : node.kind ≠ .inlineCode)
    (place : Place) (indent : Nat) :
    leafText setting node place indent = leafText setting node place 0 := by
  obtain ⟨kind, payload, attributes, options, children⟩ := node
  cases kind with
  | horizontalRule => cases span
  | codeblock => cases span
  | inlineCode => exact absurd rfl noCode
  | _ => rfl

end Layout
end Galley
