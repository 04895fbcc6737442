import Galley.Markdown.Reader
import Galley.Proofs.Outcome
import Mathlib.Data.List.Forall2

/-!
# What becomes of tokens

Nodes are made of tokens by computations that may report something and may stop.  This
module has one rule for each way such a computation is built, in particular for those
that go through a list of tokens and leave some of them out, and the induction over
tokens.
-/

namespace Galley
namespace Markdown

/-- What holds of values and of records without a list of children, and of a record if
it holds of all its children, holds of every token. -/
theorem Token.induction_on_children {motive : Token → Prop}
    (stray : ∀ value, motive (.stray value))
    (leaf : ∀ fields, motive (.leaf fields))
    (branch : ∀ fields children, (∀ child ∈ children, motive child) →
      motive (.branch fields children))
    (token : Token) : motive token := by
  refine Token.rec (motive_1 := motive) (motive_2 := fun tokens => ∀ token ∈ tokens, motive token)
    leaf branch stray ?_ ?_ token
  · exact List.forall_mem_nil _
  · intro token rest first others
    exact List.forall_mem_cons.mpr ⟨first, others⟩

/-- Whatever was reported before, a computation stops only at admitted faults, and what
it gives satisfies a condition. -/
def Gives (admitted : Fault → Prop) (condition : α → Prop) (action : Reporting α) : Prop :=
  ∀ log, Meets action log admitted fun value _ => condition value

/-- The values made of some items in turn, where some items are left out. -/
def Made (related : α → Option β → Prop) (items : List α) (values : List β) : Prop :=
  ∃ made, List.Forall₂ related items made ∧ values = made.flatMap Option.toList

theorem exists_of_mem_forall₂ {related : α → β → Prop} {items : List α} {values : List β}
    (each : List.Forall₂ related items values) {value : β} (present : value ∈ values) :
    ∃ item ∈ items, related item value := by
  induction each with
  | nil => cases present
  | cons first others inductionHypothesis =>
      rcases List.mem_cons.mp present with rfl | later
      · exact ⟨_, List.mem_cons_self, first⟩
      · obtain ⟨item, member, holds⟩ := inductionHypothesis later
        exact ⟨item, List.mem_cons_of_mem _ member, holds⟩

/-- Every value was made of an item. -/
theorem Made.exists_item {related : α → Option β → Prop} {items : List α} {values : List β}
    (made : Made related items values) {value : β} (present : value ∈ values) :
    ∃ item ∈ items, related item (some value) := by
  obtain ⟨results, each, rfl⟩ := made
  obtain ⟨result, listed, given⟩ := List.mem_flatMap.mp present
  obtain rfl : result = some value := Option.mem_toList.mp given
  exact exists_of_mem_forall₂ each listed

/-- Where something is made of every item, the values stand to the items one by one. -/
theorem Made.forall₂ {related : α → β → Prop} {items : List α} {values : List β}
    (made : Made (fun item value => ∃ given, value = some given ∧ related item given)
        items values) :
    List.Forall₂ related items values := by
  obtain ⟨results, each, rfl⟩ := made
  induction each with
  | nil => exact .nil
  | cons first others inductionHypothesis =>
      obtain ⟨value, rfl, holds⟩ := first
      exact .cons holds inductionHypothesis

namespace Gives

variable {α β : Type} {admitted : Fault → Prop} {condition weaker : α → Prop}
  {action : Reporting α}

theorem give {value : α} (holds : condition value) : Gives admitted condition (pure value) :=
  fun _ => Meets.give holds

theorem stop {fault : Fault} (allowed : admitted fault) :
    Gives admitted condition (throw fault) :=
  fun _ => Meets.stop allowed

theorem imp (gives : Gives admitted condition action)
    (implied : ∀ value, condition value → weaker value) : Gives admitted weaker action :=
  fun log => (gives log).imp fun value _ => implied value

theorem bind {next : α → Reporting β} {final : β → Prop} (first : Gives admitted condition action)
    (second : ∀ value, condition value → Gives admitted final (next value)) :
    Gives admitted final (action >>= next) :=
  fun log => Meets.bind (first log) fun value after holds => second value holds after

/-- What is made of the given value. -/
theorem map {make : α → β} {final : β → Prop} (gives : Gives admitted condition action)
    (made : ∀ value, condition value → final (make value)) :
    Gives admitted final (make <$> action) := by
  rw [map_eq_pure_bind]
  exact gives.bind fun value holds => give (made value holds)

/-- Reporting something comes before what is given. -/
theorem event_bind {reported : LogEvent} {next : Unit → Reporting α}
    (rest : Gives admitted condition (next ())) :
    Gives admitted condition (Reporting.event reported >>= next) :=
  fun _ => Meets.change_bind (rest _)

section Lists

variable {items : List α}

/-- Something is made of every item. -/
theorem mapM {related : α → β → Prop} {make : α → Reporting β}
    (each : ∀ item ∈ items, Gives admitted (related item) (make item)) :
    Gives admitted (List.Forall₂ related items) (items.mapM make) := by
  induction items with
  | nil =>
      rw [List.mapM_nil]
      exact give .nil
  | cons item rest inductionHypothesis =>
      obtain ⟨first, others⟩ := List.forall_mem_cons.mp each
      rw [List.mapM_cons]
      refine first.bind fun value holds => ?_
      refine (inductionHypothesis others).bind fun values made => ?_
      exact give (.cons holds made)

/-- Something is made of those items that are not left out. -/
theorem filterMapM {related : α → Option β → Prop} {make : α → Reporting (Option β)}
    (each : ∀ item ∈ items, Gives admitted (related item) (make item)) :
    Gives admitted (Made related items) (items.filterMapM make) := by
  induction items with
  | nil =>
      rw [List.filterMapM_nil]
      exact give ⟨[], .nil, rfl⟩
  | cons item rest inductionHypothesis =>
      obtain ⟨first, others⟩ := List.forall_mem_cons.mp each
      rw [List.filterMapM_cons]
      refine first.bind fun result holds => ?_
      cases result with
      | none =>
          refine (inductionHypothesis others).imp ?_
          rintro values ⟨made, all, rfl⟩
          exact ⟨none :: made, .cons holds all, rfl⟩
      | some value =>
          refine (inductionHypothesis others).bind ?_
          rintro values ⟨made, all, rfl⟩
          exact give ⟨some value :: made, .cons holds all, rfl⟩

end Lists

end Gives

/-! ## Lists of tokens -/

/-- The nodes made of some tokens, one after the other. -/
def collect (make : Token → Reporting (Option Node)) (tokens : List Token) :
    Reporting (List Node) :=
  match tokens with
  | [] => pure []
  | token :: rest => do
      let node ← make token
      let others ← collect make rest
      return node.toList ++ others

theorem Gives.collect {admitted : Fault → Prop} {related : Token → Option Node → Prop}
    {make : Token → Reporting (Option Node)} {tokens : List Token}
    (each : ∀ token ∈ tokens, Gives admitted (related token) (make token)) :
    Gives admitted (Made related tokens) (collect make tokens) := by
  induction tokens with
  | nil => exact give ⟨[], .nil, rfl⟩
  | cons token rest inductionHypothesis =>
      obtain ⟨first, others⟩ := List.forall_mem_cons.mp each
      refine first.bind fun node holds => ?_
      refine (inductionHypothesis others).bind ?_
      rintro nodes ⟨made, all, rfl⟩
      exact give ⟨node :: made, .cons holds all, rfl⟩

theorem inlineNodes_eq (tokens : List Token) : inlineNodes tokens = collect inlineNode tokens := by
  induction tokens with
  | nil => rfl
  | cons token rest inductionHypothesis => rw [inlineNodes, collect, inductionHypothesis]

theorem blockNodes_eq (tokens : List Token) : blockNodes tokens = collect blockNode tokens := by
  induction tokens with
  | nil => rfl
  | cons token rest inductionHypothesis => rw [blockNodes, collect, inductionHypothesis]

theorem definitionParts_eq (tokens : List Token) :
    definitionParts tokens = collect definitionPart tokens := by
  induction tokens with
  | nil => rfl
  | cons token rest inductionHypothesis => rw [definitionParts, collect, inductionHypothesis]

/-- With a tokenizer at hand, the document of some tokens is what is read. -/
theorem documentFrom_installed (tokens : List Token) :
    documentFrom true (.ok tokens) = documentOf tokens := rfl

/-- A document that was read is the document of its tokens. -/
theorem documentOf_of_documentFrom {installed : Bool} {tokens : List Token} {log after : Log}
    {tree : Node}
    (returned : outcome (documentFrom installed (.ok tokens)) log = (.ok tree, after)) :
    outcome (documentOf tokens) log = (.ok tree, after) := by
  cases installed with
  | true => rwa [documentFrom_installed] at returned
  | false => cases returned

end Markdown
end Galley
