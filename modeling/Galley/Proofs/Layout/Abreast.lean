import Galley.Proofs.Layout.Clarity
import Galley.Proofs.Layout.Shapes

/-!
# Two renderings side by side

A rendering with tags does what the plain rendering does, step by step: it holds code at
the same times, and what it gives is the plain text with tags in it.
-/

namespace Galley
namespace Layout

open Marker Text

/-- Two renderers hold more code than before, and as many codes as each other. -/
structure Abreast (before before' after after' : Workspace) : Prop where
  /-- With tags code is added. -/
  grown : before.held <+: after.held
  /-- Without tags code is added. -/
  grown' : before'.held <+: after'.held
  /-- The numbers of codes are the same. -/
  level : after.held.length = after'.held.length

namespace Abreast

variable {first first' second second' third third' : Workspace}

theorem of_held (level : first.held.length = first'.held.length) (same : second.held = first.held)
    (same' : second'.held = first'.held) : Abreast first first' second second' :=
  ⟨by rw [same], by rw [same'], by rw [same, same', level]⟩

theorem trans (left : Abreast first first' second second')
    (right : Abreast second second' third third') : Abreast first first' third third' :=
  ⟨left.grown.trans right.grown, left.grown'.trans right.grown', right.level⟩

/-- Span text stays what it is while more code is held. -/
theorem woven (abreast : Abreast first first' second second') {indent : Nat}
    {marked plain traced : List Char}
    (stands : Woven first.held first'.held indent marked plain traced) :
    Woven second.held second'.held indent marked plain traced :=
  stands.extend abreast.grown abreast.grown'

end Abreast

variable {options : Options} {numbered : Numbering.Numbered} {workspace workspace' : Workspace}

/-- Sealed code is held in both renderers under the same placeholder. -/
theorem hold_follows {indent : Nat} {code code' : List Char}
    (level : workspace.held.length = workspace'.held.length) (pair : Sealed indent code code') :
    Follows (hold code) (hold code') workspace workspace' fun stand stand' after after' =>
      Abreast workspace workspace' after after' ∧
        Woven after.held after'.held indent stand stand' codeSign ∧ Opens stand := by
  unfold hold
  refine Follows.read (Follows.write (Follows.give ⟨⟨?_, ?_, ?_⟩, Woven.held level pair, ?_⟩))
  · exact List.prefix_append _ _
  · exact List.prefix_append _ _
  · simp [level]
  · have opens := opens_placeholder workspace.held.length []
    rwa [List.append_nil] at opens

/-- Span text is laid out in both renderers. -/
theorem flush_follows {indent : Nat} {wraps : Bool} {marked plain traced : List Char}
    (stands : Woven workspace.held workspace'.held indent marked plain traced)
    (wrappable : wraps = true → options.wraps = true → Wrap.Wrappable (openCodes traced)) :
    Follows (flush (tagging options numbered true) indent wraps marked)
      (flush (tagging options numbered false) indent wraps plain) workspace workspace'
      fun laid laid' after after' => after = workspace ∧ after' = workspace' ∧
        (Sealed indent laid laid' ∨ laid = [] ∧ laid' = [] ∧ allBlank (erase traced) = true) := by
  unfold flush
  refine Follows.read (Follows.lift fun laid' returned => ?_)
  obtain ⟨laid, returned', pair⟩ := layoutSpan_sealed options wraps stands wrappable returned
  exact ⟨laid, returned', rfl, rfl, pair⟩

/-! ## Leaves -/

/-- The text of a leaf before its tags. -/
def leafLaid (options : Options) (numbered : Numbering.Numbered) (node : Node) (place : Place)
    (indent : Nat) : List Char :=
  match node.kind with
  | .horizontalRule => horizontalRule options.maxColumn indent
  | .codeblock | .inlineCode => verbatim options.ruleWidth indent node.payload.content.toList
  | .rawPassthrough => node.payload.content.toList ++ if node.isBlock then ['\n'] else []
  | _ => leafShown numbered node place

/-- Both renderers give one text and hold no code. -/
def GivesBoth (text : List Char) (workspace workspace' : Workspace) (marked plain : List Char)
    (after after' : Workspace) : Prop :=
  after.held = workspace.held ∧ after'.held = workspace'.held ∧ marked = text ∧ plain = text

theorem give_both (text : List Char) :
    Follows (pure text : Render (List Char)) (pure text) workspace workspace'
      (GivesBoth text workspace workspace') :=
  Follows.give ⟨rfl, rfl, rfl, rfl⟩

/-- Where an attribute can be shown, both renderers show it. -/
theorem attributeText_follows (value : Datum) :
    Follows (attributeText (tagging options numbered true) value)
      (attributeText (tagging options numbered false) value) workspace workspace'
      (GivesBoth value.display.toList workspace workspace') := by
  cases value with
  | text text => exact give_both _
  | _ => exact Follows.stop

theorem linkText_follows (node : Node) :
    Follows (linkText (tagging options numbered true) node)
      (linkText (tagging options numbered false) node) workspace workspace'
      (GivesBoth (linkShown node) workspace workspace') := by
  rcases linkText_cases node with text | ⟨target, shown⟩
  · rw [text, text]
    exact give_both _
  · rw [target, target, shown]
    exact attributeText_follows _

theorem imageText_follows (node : Node) :
    Follows (imageText (tagging options numbered true) node)
      (imageText (tagging options numbered false) node) workspace workspace'
      (GivesBoth (imageShown node) workspace workspace') := by
  obtain ⟨name, shown, text⟩ := imageText_cases node
  rw [shown, text, text]
  exact attributeText_follows _

theorem substitute_follows (table : List (String × String)) (key : String)
    (unknown : String → LogEvent) :
    Follows (substitute table key unknown) (substitute table key unknown) workspace workspace'
      (GivesBoth ((table.lookup key).getD "").toList workspace workspace') := by
  unfold substitute report
  split
  · rename_i text found
    rw [found]
    exact give_both _
  · rename_i missing
    rw [missing]
    exact Follows.change_bind (Follows.give ⟨rfl, rfl, rfl, rfl⟩)

theorem referenceText_follows (options : Options) (node : Node) (place : Place) :
    Follows (referenceText (tagging options numbered true) node place)
      (referenceText (tagging options numbered false) node place) workspace workspace'
      (GivesBoth (numbered.lookUp place node.payload.content).1.toList workspace workspace') := by
  intro plain after' returned
  have outcomes := (outcome_referenceText { options with debug := false } numbered node place
    workspace').symm.trans returned
  cases outcomes
  exact ⟨_, _, outcome_referenceText { options with debug := true } numbered node place workspace,
    rfl, rfl, rfl, rfl⟩

/-- A leaf has one text in both renderers. -/
theorem leafText_follows (options : Options) (node : Node) (place : Place) (indent : Nat) :
    Follows (leafText (tagging options numbered true) node place indent)
      (leafText (tagging options numbered false) node place indent) workspace workspace'
      (GivesBoth (leafLaid options numbered node place indent) workspace workspace') := by
  obtain ⟨kind, payload, attributes, fields, children⟩ := node
  cases kind with
  | link => exact linkText_follows _
  | image => exact imageText_follows _
  | typographicSymbol =>
      have both : Follows _ _ workspace workspace' _ :=
        substitute_follows symbolSubstitutes payload.display .unknownSymbol
      rw [lookup_symbol] at both
      exact both
  | smartQuote =>
      have both : Follows _ _ workspace workspace' _ :=
        substitute_follows quoteSubstitutes payload.display .unknownQuote
      rw [lookup_quote] at both
      exact both
  | reference => exact referenceText_follows options _ place
  | actionItem =>
      have spelled : leafLaid options numbered
          ⟨.actionItem, payload, attributes, fields, children⟩ place indent =
            ("-->(" ++ (fields.getD "assignee" (.text "")).display ++ ")").toList := by
        simp [leafLaid, leafShown]
      rw [spelled]
      exact give_both _
  | issueLink =>
      have spelled : leafLaid options numbered
          ⟨.issueLink, payload, attributes, fields, children⟩ place indent =
            issueText ⟨.issueLink, payload, attributes, fields, children⟩ := (issueText_eq _).symm
      rw [spelled]
      exact give_both _
  | _ => exact give_both _

end Layout
end Galley
