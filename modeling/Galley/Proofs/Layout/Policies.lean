import Galley.Proofs.Document.Paths
import Galley.Proofs.Layout.Shapes
import Galley.Proofs.Numbering.Events

/-!
# The two nesting policies

Under both policies a rendering does the same until it meets a block directly inside a
span: there the one policy reports that it flattens the block, and the other refuses the
tree.
-/

namespace Galley
namespace Layout

/-- Options with another nesting policy. -/
def Options.withNesting (options : Options) (policy : NestingPolicy) : Options :=
  { options with nesting := policy }

/-- A setting with another nesting policy. -/
def Setting.withNesting (setting : Setting) (policy : NestingPolicy) : Setting :=
  { setting with options := setting.options.withNesting policy }

/-- The spans and blocks of the flattenings that an event reports. -/
def flattening? : LogEvent → Option (Kind × Kind)
  | .blockFlattened outer inner => some (outer, inner)
  | _ => none

/-- The flattenings in a log, in order. -/
def flattenings (log : Log) : List (Kind × Kind) :=
  log.filterMap flattening?

@[simp] theorem flattenings_nil : flattenings [] = [] := rfl

@[simp] theorem flattenings_append (first second : Log) :
    flattenings (first ++ second) = flattenings first ++ flattenings second :=
  List.filterMap_append

/-! ## What reports no flattening -/

/-- A computation reports no flattening. -/
abbrev Silent (action : Render α) : Prop :=
  Adds Workspace.log (fun event => flattening? event = none) action

namespace Silent

variable {α : Type}

theorem hold (code : List Char) : Silent (Layout.hold code) :=
  Adds.of_log fun _ => rfl

theorem flush (setting : Setting) (indent : Nat) (wraps : Bool) (text : List Char) :
    Silent (Layout.flush setting indent wraps text) :=
  Adds.read_bind fun _ => Adds.lift _

theorem report {event : LogEvent} (other : flattening? event = none) :
    Silent (Layout.report event) :=
  Adds.report other fun _ => rfl

theorem of_terse {action : Render α} (terse : Terse action) : Silent action := by
  cases terse with
  | give value => exact Adds.give value
  | stop fault => exact Adds.stop fault
  | @report event unlike value =>
      have other : flattening? event = none := by
        cases event with
        | blockFlattened outer inner => exact absurd rfl (unlike outer inner)
        | _ => rfl
      exact (report other).bind fun _ => Adds.give value

end Silent

/-! ## Refusing instead of flattening -/

/-- A strict computation does what a lax one does if the lax one flattens nothing, and
otherwise it stops at what the lax one flattens first. -/
def Mirrors (strict lax : Render α) : Prop :=
  ∀ before, ∃ events, (outcome lax before).2.log = before.log ++ events ∧
    match (flattenings events).head? with
    | none => outcome strict before = outcome lax before
    | some (outer, inner) =>
        (outcome strict before).1 = .error (.failure (.blockInSpan outer.name inner.name))

namespace Mirrors

variable {α β : Type} {strict lax : Render α}

theorem of_silent {action : Render α} (silent : Silent action) : Mirrors action action := by
  intro before
  obtain ⟨events, logged, others⟩ := silent before
  refine ⟨events, logged, ?_⟩
  rw [flattenings, List.filterMap_eq_nil_iff.mpr others]
  rfl

/-- Sequences mirror each other part by part. -/
theorem bind {next next' : α → Render β} (first : Mirrors strict lax)
    (second : ∀ value, Mirrors (next value) (next' value)) :
    Mirrors (strict >>= next) (lax >>= next') := by
  intro before
  obtain ⟨events, logged, mirrored⟩ := first before
  -- A strict first part that stops takes its fault along.
  have stops {fault : Fault} (stopped : (outcome strict before).1 = .error fault) :
      (outcome (strict >>= next) before).1 = .error fault := by
    rw [outcome_bind]
    rcases found : outcome strict before with ⟨other | value, after⟩
    · rw [found] at stopped
      exact congrArg Except.error (Except.error.inj stopped)
    · rw [found] at stopped
      cases stopped
  rw [outcome_bind lax]
  rcases found : outcome lax before with ⟨fault | value, after⟩
  · rw [found] at logged mirrored
    refine ⟨events, logged, ?_⟩
    cases flattened : (flattenings events).head? with
    | none =>
        rw [flattened] at mirrored
        dsimp only at mirrored ⊢
        rw [outcome_bind, mirrored]
    | some pair =>
        rw [flattened] at mirrored
        exact stops mirrored
  · rw [found] at logged mirrored
    obtain ⟨more, loggedMore, mirroredMore⟩ := second value after
    refine ⟨events ++ more, by rw [loggedMore, logged, List.append_assoc], ?_⟩
    rw [flattenings_append, List.head?_append]
    cases flattened : (flattenings events).head? with
    | none =>
        rw [flattened] at mirrored
        dsimp only at mirrored
        rw [outcome_bind, mirrored]
        exact mirroredMore
    | some pair =>
        rw [flattened] at mirrored
        exact stops mirrored

/-- What is flattened is refused instead. -/
theorem reject {outer inner : Kind} {action : Render α} (mirrors : Mirrors action lax) :
    Mirrors (throw (.failure (.blockInSpan outer.name inner.name)))
      (report (.blockFlattened outer inner) >>= fun _ => lax) := by
  intro before
  obtain ⟨events, logged, -⟩ :=
    mirrors { before with log := before.log ++ [.blockFlattened outer inner] }
  refine ⟨.blockFlattened outer inner :: events, ?_, rfl⟩
  have started : outcome (report (.blockFlattened outer inner) >>= fun _ => lax) before =
      outcome lax { before with log := before.log ++ [.blockFlattened outer inner] } :=
    outcome_modify_bind _ before _
  rw [started, logged]
  simp

end Mirrors

/-! ## Conversions under both policies -/

section Conversions

variable (setting : Setting) (policy : NestingPolicy)

theorem flush_withNesting (indent : Nat) (wraps : Bool) (text : List Char) :
    flush (setting.withNesting policy) indent wraps text = flush setting indent wraps text :=
  flush_congr setting (setting.withNesting policy) rfl rfl text

theorem leafText_withNesting (node : Node) (place : Place) (indent : Nat) :
    leafText (setting.withNesting policy) node place indent =
      leafText setting node place indent := by
  unfold leafText
  rfl

/-- The conversion of the node under the strict policy mirrors the one under the lax
policy, wherever the node stands. -/
def Mirrored (setting : Setting) (node : Node) : Prop :=
  ∀ place indent, Mirrors (convert (setting.withNesting .reject) node place indent)
    (convert (setting.withNesting .flatten) node place indent)

variable {setting} {siblings : List Node}

theorem spanPiece_mirrors {child : Node} (mirrored : Mirrored setting child) (place : Place)
    (indent : Nat) :
    Mirrors (spanPiece (setting.withNesting .reject) child place indent)
      (spanPiece (setting.withNesting .flatten) child place indent) := by
  unfold spanPiece
  split
  · exact (mirrored place indent).bind fun text => .of_silent (Silent.hold text)
  · exact mirrored place indent

theorem inlinePiece_mirrors {child : Node} (mirrored : Mirrored setting child) (parent : Node)
    (place : Place) (indent : Nat) :
    Mirrors (inlinePiece (setting.withNesting .reject) child parent place indent)
      (inlinePiece (setting.withNesting .flatten) child parent place indent) := by
  cases placed : child.isBlock with
  | false =>
      rw [inlinePiece_of_span placed, inlinePiece_of_span placed]
      exact spanPiece_mirrors mirrored place indent
  | true =>
      rw [inlinePiece_of_block placed, inlinePiece_of_block placed]
      exact .reject ((mirrored place 0).bind fun text => .of_silent (Adds.give _))

/-- The children of a block are laid out alike. -/
theorem flow_mirrors (each : ∀ child ∈ siblings, Mirrored setting child) (parent : Node)
    (place : Place) (index inner : Nat) (wraps : Bool) (waiting : List Char) :
    Mirrors (flow (setting.withNesting .reject) siblings parent place index inner wraps waiting)
      (flow (setting.withNesting .flatten) siblings parent place index inner wraps waiting) := by
  have flushed (text : List Char) : Mirrors (flush (setting.withNesting .reject) inner wraps text)
      (flush (setting.withNesting .flatten) inner wraps text) := by
    rw [flush_withNesting, flush_withNesting]
    exact .of_silent (Silent.flush setting inner wraps text)
  induction siblings generalizing index waiting with
  | nil =>
      rw [flow, flow]
      exact flushed waiting
  | cons child rest inductionHypothesis =>
      obtain ⟨first, others⟩ := List.forall_mem_cons.mp each
      cases placed : child.isBlock with
      | false =>
          rw [flow_cons_of_span placed, flow_cons_of_span placed]
          exact (spanPiece_mirrors first _ inner).bind fun piece =>
            inductionHypothesis others (index + 1) _
      | true =>
          rw [flow_cons_of_block placed, flow_cons_of_block placed]
          refine (first _ inner).bind fun text => (flushed waiting).bind fun front => ?_
          exact (inductionHypothesis others (index + 1) []).bind fun back =>
            .of_silent (Adds.give _)

theorem convertInline_mirrors (each : ∀ child ∈ siblings, Mirrored setting child) (parent : Node)
    (place : Place) (index indent : Nat) :
    Mirrors (convertInline (setting.withNesting .reject) siblings parent place index indent)
      (convertInline (setting.withNesting .flatten) siblings parent place index indent) := by
  induction siblings generalizing index with
  | nil => exact .of_silent (Adds.give [])
  | cons child rest inductionHypothesis =>
      obtain ⟨first, others⟩ := List.forall_mem_cons.mp each
      rw [convertInline_cons, convertInline_cons]
      refine (inlinePiece_mirrors first parent _ indent).bind fun piece => ?_
      exact (inductionHypothesis others (index + 1)).bind fun more => .of_silent (Adds.give _)

theorem convertCells_mirrors (each : ∀ child ∈ siblings, Mirrored setting child) (parent : Node)
    (place : Place) (index : Nat) :
    Mirrors (convertCells (setting.withNesting .reject) siblings parent place index)
      (convertCells (setting.withNesting .flatten) siblings parent place index) := by
  induction siblings generalizing index with
  | nil => exact .of_silent (Adds.give [])
  | cons child rest inductionHypothesis =>
      obtain ⟨first, others⟩ := List.forall_mem_cons.mp each
      rw [convertCells, convertCells]
      refine (first _ 0).bind fun text => ?_
      exact (inductionHypothesis others (index + 1)).bind fun more => .of_silent (Adds.give _)

/-- By induction on the tree, conversions under both policies do the same up to the
first block directly inside a span. -/
theorem convert_mirrors (setting : Setting) (node : Node) : Mirrored setting node := by
  induction node using Node.induction_on_children with
  | step node each =>
      intro place indent
      cases known : node.kind.isKnown with
      | false =>
          rw [convert_of_unknown _ place indent known, convert_of_unknown _ place indent known]
          exact .of_silent (Adds.stop _)
      | true =>
          rw [convert_eq_bareText _ place indent known, convert_eq_bareText _ place indent known]
          refine Mirrors.bind ?_ fun text => .of_silent (Adds.give _)
          have shaped (policy : NestingPolicy) :
              shape (setting.withNesting policy).options node = shape setting.options node := rfl
          unfold bareText
          rw [shaped, shaped]
          cases shape setting.options node with
          | region extra =>
              exact (flow_mirrors each node place 0 _ _ []).bind fun body =>
                .of_silent (Adds.give _)
          | hanging bullet =>
              exact (flow_mirrors each node place 0 _ _ []).bind fun body =>
                .of_silent (Adds.give _)
          | quote =>
              exact (flow_mirrors each node place 0 _ _ []).bind fun body =>
                .of_silent (Adds.give _)
          | row =>
              refine (convertCells_mirrors each node place 0).bind fun cells => ?_
              have same (policy : NestingPolicy) :
                  (setting.withNesting policy).options.cellSeparator =
                  setting.options.cellSeparator := rfl
              rw [same, same]
              cases setting.options.cellSeparator with
              | none => exact .of_silent (Adds.stop _)
              | some separator => exact .of_silent (Adds.give _)
          | inline =>
              exact (convertInline_mirrors each node place 0 indent).bind fun content =>
                .of_silent (Adds.give _)
          | math =>
              refine (convertInline_mirrors each node place 0 indent).bind fun content => ?_
              dsimp only
              rw [flush_withNesting, flush_withNesting]
              split
              · exact .of_silent (Silent.flush setting indent false _)
              · exact .of_silent (Adds.give _)
          | leaf =>
              dsimp only
              rw [leafText_withNesting, leafText_withNesting]
              exact .of_silent (Silent.of_terse (Terse.leafText setting node place indent))

end Conversions

/-! ## Renderings under both policies -/

/-- Numbering as part of a rendering puts its events behind the log. -/
theorem outcome_numberTree (tree : Node) (before : Workspace) :
    outcome (numberTree tree) before =
      ((Numbering.resolve tree).1,
          { before with log := before.log ++ (Numbering.resolve tree).2 }) := by
  unfold numberTree
  rw [outcome_modify_bind]
  cases (Numbering.resolve tree).1 <;> rfl

theorem silent_numberTree (tree : Node) : Silent (numberTree tree) := by
  intro before
  rw [outcome_numberTree]
  refine ⟨(Numbering.resolve tree).2, rfl, fun event reported => ?_⟩
  have own := Numbering.source_of_mem_resolve reported
  cases event with
  | blockFlattened => cases own
  | _ => rfl

/-- What a rendering does before and after the conversion of the numbered tree is
silent, and it is the same under both policies. -/
theorem exists_render_eq (options : Options) :
    ∃ (opens : Numbering.Numbered → Render Unit) (closes : List Char → Render String),
      (∀ numbered, Silent (opens numbered)) ∧ (∀ text, Silent (closes text)) ∧
      ∀ policy tree, render (options.withNesting policy) tree = (do
        let numbered ← numberTree tree
        opens numbered
        let text ← convert { options := options.withNesting policy, numbered := some numbered }
          numbered.tree Place.root 0
        closes text) := by
  have forgets : Silent (modify fun workspace : Workspace => { workspace with held := [] }) :=
    Adds.change fun _ => rfl
  have lists (listing : String) : Silent (report (.treeListed listing)) := Silent.report rfl
  have ends : Silent (report .rendered) := Silent.report rfl
  cases debugs : options.debug with
  | false =>
      refine ⟨fun _ => modify fun workspace => { workspace with held := [] },
        fun text => do report .rendered; return String.ofList text, fun _ => forgets,
        fun text => ends.bind fun _ => Adds.give _, fun policy tree => ?_⟩
      simp [render, Options.withNesting, debugs]
  | true =>
      refine ⟨fun numbered => do
          let listing ← Listing.format numbered.tree
          report (.treeListed listing)
          modify fun workspace => { workspace with held := [] },
        fun text => do report .rendered; return String.ofList text,
        fun _ => (Adds.lift _).bind fun listing => (lists listing).bind fun _ => forgets,
        fun text => ends.bind fun _ => Adds.give _, fun policy tree => ?_⟩
      simp [render, Options.withNesting, debugs]

/-- Renderings under both policies do the same up to the first block directly inside a
span. -/
theorem render_mirrors (options : Options) (tree : Node) :
    Mirrors (render (options.withNesting .reject) tree)
      (render (options.withNesting .flatten) tree) := by
  obtain ⟨opens, closes, openSilent, closeSilent, split⟩ := exists_render_eq options
  rw [split, split]
  refine (Mirrors.of_silent (silent_numberTree tree)).bind fun numbered => ?_
  refine (Mirrors.of_silent (openSilent numbered)).bind fun _ => ?_
  have converts := convert_mirrors { options := options, numbered := some numbered } numbered.tree
    Place.root 0
  exact converts.bind fun text => .of_silent (closeSilent text)

/-- Under the strict policy a rendering ends as under the lax one if the lax one
flattens nothing, and otherwise it refuses what the lax one flattens first. -/
theorem renderTree_mirrors (options : Options) (tree : Node) :
    match (flattenings (renderTree (options.withNesting .flatten) tree).2).head? with
    | none => renderTree (options.withNesting .reject) tree =
        renderTree (options.withNesting .flatten) tree
    | some (outer, inner) => (renderTree (options.withNesting .reject) tree).1 =
        .error (.failure (.blockInSpan outer.name inner.name)) := by
  obtain ⟨events, logged, mirrored⟩ := render_mirrors options tree {}
  have whole : (renderTree (options.withNesting .flatten) tree).2 = events := logged
  have shows (policy : NestingPolicy) : renderTree (options.withNesting policy) tree =
      ((outcome (render (options.withNesting policy) tree) {}).1,
        (outcome (render (options.withNesting policy) tree) {}).2.log) := rfl
  rw [whole]
  cases flattened : (flattenings events).head? with
  | none =>
      rw [flattened] at mirrored
      dsimp only at mirrored ⊢
      rw [shows, shows, mirrored]
  | some pair =>
      rw [flattened] at mirrored
      exact mirrored

end Layout
end Galley
