import Galley.Proofs.Document.Everywhere
import Galley.Proofs.Document.Renaming
import Galley.Proofs.Layout.Traced
import Mathlib.Data.List.Forall2

/-!
# Trees without nodes that show nothing

Footnotes, raw markup and labels show nothing.  A tree is thinned where such spans are
taken out, at any number of places, but not out of links and rows, and not so that
formatting with a value of its own loses its last child.  What remains is found at
renamed paths.
-/

namespace Galley
namespace Layout

/-- Kinds whose spans show nothing. -/
def isTraceless (kind : Kind) : Bool :=
  match kind with
  | .footnote | .rawHtmlElement | .xmlComment | .xmlProcessingInstruction | .label => true
  | _ => false

/-- A span that may be taken out below a node of an outer kind: it has no children and
shows nothing, and the name that a label declares is hidden. -/
structure Traceless (hidden : String → Prop) (outer : Kind) (node : Node) : Prop where
  /-- Its kind shows nothing. -/
  kind : isTraceless node.kind = true
  /-- It is a span. -/
  span : node.isBlock = false
  /-- It has no children. -/
  childless : node.children = []
  /-- Nothing refers to the name of a label. -/
  label : node.kind = .label → node.payload.isTruthy = true → hidden node.payload.display
  /-- It is not the content of a link. -/
  noLink : outer ≠ .link
  /-- It is no cell. -/
  noRow : outer ≠ .tableRow

theorem Traceless.kind_ne {hidden : String → Prop} {outer other : Kind} {node : Node}
    (traceless : Traceless hidden outer node) (shows : isTraceless other = false) :
    node.kind ≠ other := by
  rintro rfl
  rw [traceless.kind] at shows
  cases shows

/-- What a node keeps when nodes below it are taken out. -/
structure KeepsOwn (hidden : String → Prop) (thin node : Node) : Prop where
  /-- The kind is kept. -/
  kind : thin.kind = node.kind
  /-- The payload is kept. -/
  payload : thin.payload = node.payload
  /-- The attributes are kept. -/
  attributes : thin.attributes = node.attributes
  /-- The options are kept. -/
  options : thin.options = node.options
  /-- A reference names nothing hidden. -/
  reference : node.kind = .reference → ¬ hidden node.payload.content
  /-- Formatting with a value of its own does not lose its last child. -/
  value : isFormatting node.kind = true → node.payload.content ≠ "" →
    thin.children.isEmpty = node.children.isEmpty

mutual

/-- A tree is another one without some of its nodes, where positions below a path are
renamed by a rule. -/
def Thins (steps : Path → Nat → Nat) (hidden : String → Prop) (thin node : Node) (base : Path) :
    Prop :=
  match node with
  | ⟨kind, payload, attributes, options, children⟩ =>
      KeepsOwn hidden thin ⟨kind, payload, attributes, options, children⟩ ∧
        ThinsBelow steps hidden thin.children children kind base 0 0
termination_by structural node

/-- Siblings from a position on are others from a position on, without some of them. -/
def ThinsBelow (steps : Path → Nat → Nat) (hidden : String → Prop) (thin siblings : List Node)
    (outer : Kind) (base : Path) (index position : Nat) : Prop :=
  match siblings with
  | [] => thin = [] ∧ ∀ later, index ≤ later → position ≤ steps base later
  | child :: rest =>
      (∃ first others, thin = first :: others ∧ steps base index = position ∧
        Thins steps hidden first child (base ++ [index]) ∧
        ThinsBelow steps hidden others rest outer base (index + 1) (position + 1)) ∨
      (Traceless hidden outer child ∧
        ThinsBelow steps hidden thin rest outer base index (position + 1))
termination_by structural siblings

end

section Thinning

variable {steps : Path → Nat → Nat} {hidden : String → Prop}

theorem thins_iff {thin node : Node} {base : Path} :
    Thins steps hidden thin node base ↔ KeepsOwn hidden thin node ∧
      ThinsBelow steps hidden thin.children node.children node.kind base 0 0 := by
  cases node
  exact Iff.rfl

theorem Thins.own {thin node : Node} {base : Path} (thins : Thins steps hidden thin node base) :
    KeepsOwn hidden thin node :=
  (thins_iff.mp thins).1

theorem Thins.below {thin node : Node} {base : Path} (thins : Thins steps hidden thin node base) :
    ThinsBelow steps hidden thin.children node.children node.kind base 0 0 :=
  (thins_iff.mp thins).2

/-- Siblings that remain are found at renamed positions. -/
theorem ThinsBelow.getElem? {thin siblings : List Node} {outer : Kind} {base : Path}
    {index position : Nat} (thins : ThinsBelow steps hidden thin siblings outer base index position)
    (offset : Nat) :
    ∃ shifted, steps base (index + offset) = position + shifted ∧
      Option.Rel (fun inner innerWas => Thins steps hidden inner innerWas
        (base ++ [index + offset]))
        thin[offset]? siblings[shifted]? := by
  induction siblings generalizing thin index position offset with
  | nil =>
      obtain ⟨rfl, beyond⟩ := thins
      refine ⟨steps base (index + offset) - position, ?_, .none⟩
      have := beyond (index + offset) (Nat.le_add_right _ _)
      omega
  | cons child rest inductionHypothesis =>
      rcases thins with ⟨first, others, rfl, moved, here, below⟩ | ⟨-, below⟩
      · cases offset with
        | zero => exact ⟨0, moved, .some here⟩
        | succ offset =>
            obtain ⟨shifted, found, related⟩ := inductionHypothesis below offset
            refine ⟨shifted + 1, ?_, ?_⟩
            · rw [Nat.add_right_comm, Nat.add_assoc] at found
              rw [found]
              omega
            · rw [Nat.add_right_comm, Nat.add_assoc] at related
              exact related
      · obtain ⟨shifted, found, related⟩ := inductionHypothesis below offset
        exact ⟨shifted + 1, by omega, related⟩

/-- Two results that are related are both there or both missing. -/
theorem rel_cases {related : α → β → Prop} {first : Option α} {second : Option β}
    (both : Option.Rel related first second) :
    (first = none ∧ second = none) ∨
      ∃ one other, first = some one ∧ second = some other ∧ related one other := by
  cases both with
  | none => exact Or.inl ⟨rfl, rfl⟩
  | some holds => exact Or.inr ⟨_, _, rfl, rfl, holds⟩

/-- What remains is found at renamed paths. -/
theorem Thins.at? {thin node : Node} {base : Path} (thins : Thins steps hidden thin node base)
    (path : Path) :
    Option.Rel (fun inner innerWas => Thins steps hidden inner innerWas (base ++ path))
      (thin.at? path) (node.at? (Path.rename steps base path)) := by
  induction path generalizing thin node base with
  | nil =>
      rw [List.append_nil]
      exact .some thins
  | cons index rest inductionHypothesis =>
      obtain ⟨shifted, moved, related⟩ := thins.below.getElem? index
      rw [Nat.zero_add] at moved related
      rw [Nat.zero_add] at moved
      rw [Path.rename_cons, moved, Node.at?_cons, Node.at?_cons]
      rcases rel_cases related with ⟨missing, gone⟩ | ⟨child, childWas, found, was, holds⟩
      · rw [missing, gone]
        exact .none
      · rw [found, was]
        have deeper := inductionHypothesis holds
        rw [List.append_assoc] at deeper
        exact deeper

/-- What depends on the payload and the options of a node is found there too. -/
theorem Thins.bind_at? {thin node : Node} (thins : Thins steps hidden thin node []) (path : Path)
    {feature : Node → Option α}
    (kept : ∀ inner innerWas : Node, inner.payload = innerWas.payload →
      inner.options = innerWas.options → feature inner = feature innerWas) :
    (node.at? (Path.rename steps [] path)).bind feature = (thin.at? path).bind feature := by
  rcases rel_cases (thins.at? path) with ⟨missing, gone⟩ | ⟨inner, innerWas, found, was, holds⟩
  · simp [missing, gone]
  · rw [found, was]
    exact (kept inner innerWas holds.own.payload holds.own.options).symm

/-- Nothing is taken out of links and rows. -/
theorem ThinsBelow.whole {thin siblings : List Node} {outer : Kind} {base : Path}
    {index position : Nat} (thins : ThinsBelow steps hidden thin siblings outer base index position)
    (whole : outer = .link ∨ outer = .tableRow) : List.Forall₂ (KeepsOwn hidden) thin siblings := by
  induction siblings generalizing thin index position with
  | nil =>
      obtain ⟨rfl, -⟩ := thins
      exact .nil
  | cons child rest inductionHypothesis =>
      rcases thins with ⟨first, others, rfl, -, here, below⟩ | ⟨traceless, -⟩
      · exact .cons here.own (inductionHypothesis below)
      · rcases whole with link | row
        · exact absurd link traceless.noLink
        · exact absurd row traceless.noRow

/-- Siblings of which none is taken out. -/
theorem thinsBelow_of_kept {thin siblings : List Node} {outer : Kind} {base : Path}
    {index position : Nat} (same : thin.length = siblings.length)
    (kept : ∀ offset inner innerWas, thin[offset]? = some inner →
      siblings[offset]? = some innerWas → steps base (index + offset) = position + offset ∧
        Thins steps hidden inner innerWas (base ++ [index + offset]))
    (beyond : ∀ later, index + siblings.length ≤ later →
      position + siblings.length ≤ steps base later) :
    ThinsBelow steps hidden thin siblings outer base index position := by
  induction siblings generalizing thin index position with
  | nil => exact ⟨List.length_eq_zero_iff.mp same, beyond⟩
  | cons child rest inductionHypothesis =>
      cases thin with
      | nil => cases same
      | cons first others =>
          obtain ⟨moved, here⟩ := kept 0 first child rfl rfl
          refine Or.inl ⟨first, others, rfl, moved, here, ?_⟩
          refine inductionHypothesis (Nat.succ.inj same) (fun offset inner innerWas found was => ?_)
            fun later late => ?_
          · obtain ⟨step, thins⟩ := kept (offset + 1) inner innerWas found was
            rw [← Nat.add_assoc, Nat.add_right_comm] at step thins
            rw [Nat.add_right_comm position]
            exact ⟨by rw [step, Nat.add_assoc], thins⟩
          · have := beyond later (by rw [List.length_cons]; omega)
            rw [List.length_cons] at this
            omega

end Thinning

end Layout

namespace Node

/-- A tree without the node at a path; its root stays. -/
def without (node : Node) (path : Path) : Node :=
  match path with
  | [] => node
  | [index] => { node with children := node.children.eraseIdx index }
  | index :: next :: rest =>
      { node with children := node.children.modify index fun child => child.without (next :: rest) }

theorem without_cons (node : Node) (index : Nat) {rest : Path} (deeper : rest ≠ []) :
    node.without (index :: rest) =
      { node with children := node.children.modify index fun child => child.without rest } := by
  cases rest with
  | nil => exact absurd rfl deeper
  | cons next others => rfl

end Node

namespace Layout

/-! ## One node -/

/-- Child positions below a node whose child at a position is taken out: those from
there on move. -/
def stepsOver (parent : Path) (index : Nat) (base : Path) (position : Nat) : Nat :=
  if base = parent ∧ index ≤ position then position + 1 else position

theorem stepsOver_injective (parent : Path) (index : Nat) (base : Path) :
    Function.Injective (stepsOver parent index base) := by
  intro first second same
  unfold stepsOver at same
  by_cases here : base = parent
  · simp only [here, true_and] at same
    split at same <;> split at same <;> omega
  · simpa only [here, false_and, if_false] using same

section One

variable {hidden : String → Prop} {parent : Path} {index : Nat}

theorem stepsOver_of_ne {base : Path} (other : base ≠ parent) (position : Nat) :
    stepsOver parent index base position = position := by
  unfold stepsOver
  rw [if_neg fun both => other both.1]

/-- Nothing named by a reference of a tree is hidden. -/
abbrev Unhidden (hidden : String → Prop) (node : Node) : Prop :=
  node.Everywhere fun inner => inner.kind = .reference → ¬ hidden inner.payload.content

/-- A tree outside which a node is taken out stays as it is. -/
theorem thins_self (node : Node) {base : Path} (outside : ∀ rest, base ++ rest ≠ parent)
    (unhidden : Unhidden hidden node) :
    Thins (stepsOver parent index) hidden node node base := by
  induction node using Node.induction_on_children generalizing base with
  | step node each =>
      have stays (position : Nat) : stepsOver parent index base position = position :=
        stepsOver_of_ne (by simpa using outside []) position
      refine thins_iff.mpr ⟨⟨rfl, rfl, rfl, rfl, unhidden.here, fun _ _ => rfl⟩, ?_⟩
      refine thinsBelow_of_kept rfl (fun offset inner innerWas found was => ?_) fun later late => ?_
      · rw [found] at was
        obtain rfl := Option.some.inj was
        have member := List.mem_of_getElem? found
        refine ⟨stays _, each inner member (fun rest => ?_) (unhidden.below member)⟩
        rw [List.append_assoc]
        exact outside _
      · rw [stays]
        exact late

/-- Siblings from which one is taken out. -/
theorem thinsBelow_eraseIdx {siblings : List Node} {child : Node} {outer : Kind}
    {start offset : Nat}
    (found : siblings[offset]? = some child) (here : start + offset = index)
    (traceless : Traceless hidden outer child)
    (unhidden : ∀ sibling ∈ siblings, Unhidden hidden sibling) :
    ThinsBelow (stepsOver parent index) hidden (siblings.eraseIdx offset) siblings outer parent
      start start := by
  have below (sibling : Node) (present : Unhidden hidden sibling) (position : Nat) :
      Thins (stepsOver parent index) hidden sibling sibling (parent ++ [position]) :=
    thins_self sibling (fun rest => by simp) present
  induction siblings generalizing start offset with
  | nil => cases found
  | cons first rest inductionHypothesis =>
      obtain ⟨one, others⟩ := List.forall_mem_cons.mp unhidden
      cases offset with
      | zero =>
          obtain rfl := Option.some.inj found
          rw [Nat.add_zero] at here
          subst here
          -- What stands behind the child moves by one.
          refine Or.inr ⟨traceless, ?_⟩
          rw [List.eraseIdx_zero, List.tail_cons]
          refine thinsBelow_of_kept rfl (fun offset inner innerWas found was => ?_)
            fun later late => ?_
          · rw [found] at was
            obtain rfl := Option.some.inj was
            refine ⟨?_, below inner (others inner (List.mem_of_getElem? found)) _⟩
            rw [stepsOver, if_pos ⟨rfl, Nat.le_add_right _ _⟩, Nat.add_right_comm]
          · rw [stepsOver, if_pos ⟨rfl, by omega⟩]
            omega
      | succ offset =>
          rw [List.eraseIdx_cons_succ]
          refine Or.inl ⟨first, _, rfl, ?_, below first one start, ?_⟩
          · rw [stepsOver, if_neg (by omega)]
          · exact inductionHypothesis found (by omega) others

/-- A tree is thinned by taking out one span that shows nothing. -/
theorem thins_without {node outer child : Node} {path : Path} {base : Path}
    (reached : node.at? path = some outer) (found : outer.children[index]? = some child)
    (traceless : Traceless hidden outer.kind child)
    (value : isFormatting outer.kind = true → outer.payload.content ≠ "" →
      outer.children ≠ [child])
    (unhidden : Unhidden hidden node) :
    Thins (stepsOver (base ++ path) index) hidden (node.without (path ++ [index])) node base := by
  induction path generalizing node base with
  | nil =>
      obtain rfl := Option.some.inj reached
      rw [List.append_nil, List.nil_append]
      refine thins_iff.mpr ⟨⟨rfl, rfl, rfl, rfl, unhidden.here, fun formatting shown => ?_⟩, ?_⟩
      · have more := value formatting shown
        obtain ⟨within, -⟩ := List.getElem?_eq_some_iff.mp found
        have several : node.children.length ≠ 1 := by
          intro single
          obtain ⟨only, same⟩ := List.length_eq_one_iff.mp single
          rw [same] at found more
          obtain rfl : index = 0 := by
            rw [single] at within
            omega
          exact more (congrArg (fun last => [last]) (Option.some.inj found))
        have left := List.length_eraseIdx_of_lt within
        unfold Node.without
        dsimp only
        rw [List.isEmpty_eq_false_iff_exists_mem.mpr ⟨child, List.mem_of_getElem? found⟩,
          Bool.eq_false_iff, ne_eq, List.isEmpty_iff, ← List.length_eq_zero_iff]
        omega
      · exact thinsBelow_eraseIdx found (Nat.zero_add _) traceless fun sibling member =>
          unhidden.below member
  | cons step rest inductionHypothesis =>
      obtain ⟨inner, entered, reached⟩ := Option.bind_eq_some_iff.mp reached
      have apart : base ≠ base ++ step :: rest := by simp
      rw [List.cons_append, Node.without_cons node step (by simp)]
      refine thins_iff.mpr ⟨⟨rfl, rfl, rfl, rfl, unhidden.here, fun _ _ => ?_⟩, ?_⟩
      · dsimp only
        rw [Bool.eq_iff_iff, List.isEmpty_iff, List.isEmpty_iff, ← List.length_eq_zero_iff,
          List.length_modify, List.length_eq_zero_iff]
      · refine thinsBelow_of_kept (List.length_modify _ _ _)
          (fun offset new was foundNew foundWas => ?_)
          fun later late => ?_
        · refine ⟨by rw [Nat.zero_add]; exact stepsOver_of_ne apart offset, ?_⟩
          have unhiddenWas := unhidden.below (List.mem_of_getElem? foundWas)
          rw [Nat.zero_add]
          dsimp only at foundNew
          rw [List.getElem?_modify, foundWas, Option.map_eq_map, Option.map_some] at foundNew
          by_cases same : step = offset
          · subst same
            rw [if_pos rfl] at foundNew
            obtain rfl := Option.some.inj foundNew
            rw [foundWas] at entered
            obtain rfl := Option.some.inj entered
            have deeper : Thins (stepsOver (base ++ [step] ++ rest) index) hidden
                (was.without (rest ++ [index])) was (base ++ [step]) :=
              inductionHypothesis reached unhiddenWas
            rw [List.append_assoc] at deeper
            exact deeper
          · rw [if_neg same] at foundNew
            obtain rfl := Option.some.inj foundNew
            refine thins_self was (fun further together => same ?_) unhiddenWas
            rw [List.append_assoc, List.append_cancel_left_eq] at together
            exact (List.cons.inj together).1.symm
        · rw [stepsOver_of_ne apart]
          exact late

end One

end Layout
end Galley
