import Galley.Proofs.Layout.Conveying
import Galley.Proofs.Numbering.Annotation
import Galley.Proofs.Numbering.Stability

/-!
# Whole renderings

A whole rendering numbers a tree and converts the annotated tree.  Where no string holds
NUL it can stop at one fault only, which takes more held code than can be counted with
the longest numerals; and without debugging the rendered text has the ink of the flat
text of the annotated tree.
-/

namespace Galley
namespace Layout

open Text

/-! ## The annotated tree -/

theorem head_annotates {tree new : Node} (stands : Numbering.AnnotatesTree tree new) :
    Numbering.Annotates tree new := by
  have walk := stands.walk
  rw [Node.walk_eq, Node.walk_eq] at walk
  cases walk with
  | cons first _ => exact first

/-- Whether a node is a block depends on what the pass keeps. -/
theorem isBlock_annotated {node new : Node} (stands : Numbering.Annotates node new) :
    new.isBlock = node.isBlock := by
  unfold Node.isBlock
  rw [stands.kind, stands.options "category" (by decide)]

theorem faithful_annotated {node new : Node} (stands : Numbering.Annotates node new)
    (faithful : Faithful node) : Faithful new := by
  refine ⟨stands.kind ▸ faithful.noRule, fun row child present => ?_⟩
  have kinds : child.kind ∈ node.children.map Node.kind :=
    stands.below ▸ List.mem_map_of_mem present
  obtain ⟨old, member, same⟩ := List.mem_map.mp kinds
  exact same ▸ faithful.cells (stands.kind ▸ row) old member

/-- A node whose kind is known and whose attributes are texts keeps both. -/
theorem known_annotated {node new : Node} (stands : Numbering.Annotates node new)
    (attributes : node.TextAttributes) : new.kind.isKnown = true ∧ new.TextAttributes :=
  ⟨stands.kind ▸ stands.known, by rw [Node.TextAttributes, stands.attributes]; exact attributes⟩

/-- The annotated tree of a numbered tree can be converted. -/
theorem sound_annotated {tree : Node} {numbered : Numbering.Numbered}
    (returned : (Numbering.resolve tree).1 = .ok numbered)
    (plain : tree.Everywhere Node.NulFree) (attributes : tree.Everywhere Node.TextAttributes) :
    numbered.tree.Everywhere Sound := by
  obtain ⟨stands, keepsPlain⟩ := Numbering.resolve_keeps returned
  have known := stands.everywhere attributes fun _ _ annotates => known_annotated annotates
  exact fun inner present => ⟨(known inner present).1, keepsPlain plain inner present,
    (known inner present).2⟩

/-- The kinds of a numbered tree are known. -/
theorem known_numbered {tree : Node} {numbered : Numbering.Numbered}
    (returned : (Numbering.resolve tree).1 = .ok numbered) :
    numbered.tree.Everywhere fun inner => inner.kind.isKnown = true := by
  obtain ⟨stands, -⟩ := Numbering.resolve_keeps returned
  have any : tree.Everywhere fun _ => True := fun _ _ => trivial
  exact stands.everywhere any fun _ _ annotates _ => annotates.kind ▸ annotates.known

/-- Numbering changes nothing about which rows are flattened. -/
theorem flattensPlainly_numbered {options : Options} {tree : Node} {numbered : Numbering.Numbered}
    (returned : (Numbering.resolve tree).1 = .ok numbered)
    (plainly : FlattensPlainly options tree) :
    FlattensPlainly options numbered.tree :=
  plainly.of_matches (Numbering.resolve_retains returned) fun _ _ _ retains => retains.kind

/-! ## Renderings -/

theorem numberTree_meets {tree : Node} {numbered : Numbering.Numbered}
    (returned : (Numbering.resolve tree).1 = .ok numbered) (workspace : Workspace)
    (admitted : Fault → Prop) :
    Meets (numberTree tree) workspace admitted fun result after =>
      result = numbered ∧ after.held = workspace.held := by
  unfold numberTree
  cases resolved : Numbering.resolve tree with
  | mk result events =>
      rw [resolved] at returned
      obtain rfl : result = .ok numbered := returned
      exact Meets.change_bind (Meets.give ⟨rfl, rfl⟩)

/-- A tree of known kinds has a listing. -/
theorem lines_ok (node : Node) (depth : Nat)
    (known : node.Everywhere fun inner => inner.kind.isKnown = true) :
    ∃ found, Listing.lines node depth = .ok found := by
  induction node using Node.induction_on_children generalizing depth with
  | step node below =>
      have siblings (members : List Node) (inside : ∀ child ∈ members, child ∈ node.children) :
          ∃ found, Listing.linesBelow members (depth + 1) = .ok found := by
        induction members with
        | nil => exact ⟨[], rfl⟩
        | cons child rest inductionHypothesis =>
            have member := inside child (by simp)
            obtain ⟨first, firstFound⟩ := below child member (depth + 1) (known.below member)
            obtain ⟨others, othersFound⟩ := inductionHypothesis fun other present =>
              inside other (by simp [present])
            exact ⟨first ++ others, by rw [Listing.linesBelow, firstFound, othersFound]; rfl⟩
      obtain ⟨found, listed⟩ := siblings node.children fun _ present => present
      have here := known.here
      obtain ⟨kind, payload, attributes, options, children⟩ := node
      have isKnown : kind.isKnown = true := here
      exact ⟨_, by rw [Listing.lines, if_pos isKnown, listed]; rfl⟩

variable {options : Options} {separator : String} {tree : Node} {numbered : Numbering.Numbered}

/-- A whole rendering does what the conversion of the annotated tree does without held
code. -/
theorem render_meets
    {admitted : Fault → Prop} {condition : List Char → Prop}
    (returned : (Numbering.resolve tree).1 = .ok numbered)
    (known : numbered.tree.Everywhere fun inner => inner.kind.isKnown = true)
    (converts : ∀ log, Meets
      (convert { options := options, numbered := some numbered } numbered.tree Place.root 0)
      { held := [], log := log } admitted fun text _ => condition text) :
    Meets (render options tree) {} admitted fun text _ => condition text.toList := by
  obtain ⟨found, listed⟩ := lines_ok numbered.tree 0 known
  unfold render
  refine Meets.bind (numberTree_meets returned _ _) ?_
  rintro result after ⟨same, -⟩
  rw [same]
  have rest (log : Log) : Meets
      (do
        modify fun workspace : Workspace => { workspace with held := [] }
        let text ← convert { options := options, numbered := some numbered } numbered.tree
          Place.root 0
        report .rendered
        return String.ofList text) { after with log := log } admitted
      fun text _ => condition text.toList := by
    unfold report
    refine Meets.change_bind (Meets.bind (converts log) fun text _ holds => ?_)
    refine Meets.change_bind (Meets.give ?_)
    rw [String.toList_ofList]
    exact holds
  dsimp only
  split
  · refine Meets.lift_bind (fun listing _ => ?_) fun fault stopped => ?_
    · exact Meets.change_bind (rest (after.log ++ [.treeListed listing]))
    · have formatted : Listing.format numbered.tree = .ok ("\n".intercalate found ++ "\n") := by
        rw [Listing.format, listed]
        rfl
      rw [formatted] at stopped
      cases stopped
  · exact rest after.log

/-- A rendering without NUL is stopped only where too much code is held or the strict
policy refuses the tree, and where layout is exact its ink is that of the flat text. -/
theorem render_flat {exact : Prop}
    (returned : (Numbering.resolve tree).1 = .ok numbered)
    (separated : options.cellSeparator = some separator)
    (plainly : FlattensPlainly options tree)
    (plain : tree.Everywhere Node.NulFree)
    (attributes : tree.Everywhere Node.TextAttributes)
    (undebugged : exact → options.debug = false)
    (faithful : exact → tree.isBlock = true ∧ tree.Everywhere Faithful) :
    Meets (render options tree) {} (Admitted options tree.codeCount) fun text _ =>
      exact → ink text.toList = ink (flatText (dashes options) separator.toList numbered) := by
  obtain ⟨stands, keepsPlain⟩ := Numbering.resolve_keeps returned
  have sound := sound_annotated returned plain attributes
  have whole : Whole { options := options, numbered := some numbered } separator numbered :=
    ⟨separated, rfl, keepsPlain plain⟩
  have ready (log : Log) : Ready tree.codeCount
      { held := [], log := log } numbered.tree.codeCount :=
    ⟨fun _ absent => (by cases absent), by simp [stands.codeCount_eq]⟩
  have block (asked : exact) : numbered.tree.isBlock = true :=
    (isBlock_annotated (head_annotates stands)).trans (faithful asked).1
  have shows (log : Log) : Meets
      (convert { options := options, numbered := some numbered } numbered.tree Place.root 0)
      { held := [], log := log } (Admitted options tree.codeCount) fun text _ =>
        exact → ink text = ink (flatText (dashes options) separator.toList numbered) := by
    refine (convert_meets whole undebugged numbered.tree sound
      (fun asked => stands.everywhere (faithful asked).2 fun _ _ each => faithful_annotated each)
      (flattensPlainly_numbered returned plainly) Place.root 0 _ (ready log)).imp ?_
    exact fun text after converted asked => (converted.block (block asked)).ink asked
  have rendered := render_meets returned (sound.imp fun _ each => each.known) shows
  exact rendered

/-- What is met by a rendering is what its result shows. -/
theorem renderTree_of_meets {admitted : Fault → Prop} {condition : String → Prop}
    (meets : Meets (render options tree) {} admitted fun text _ => condition text) :
    match (renderTree options tree).1 with
    | .ok text => condition text
    | .error fault => admitted fault := by
  change match (outcome (render options tree) {}).1 with
    | .ok text => condition text
    | .error fault => admitted fault
  cases ended : outcome (render options tree) {} with
  | mk result after =>
      cases result with
      | ok text => exact meets.of_ok ended
      | error fault => exact meets.of_error ended

/-- Layout loses, doubles and moves nothing: without debugging, the text of a block tree
has the ink of the flat text of its annotated tree, whatever the column budget, the
indentations and the wrapping are.  The only way not to get a text is to hold more code
than the longest numerals can count.  What stands between the cells of a row may be any
text, unless the row is flattened into a span. -/
theorem ink_renderTree
    (returned : (Numbering.resolve tree).1 = .ok numbered)
    (block : tree.isBlock = true)
    (faithful : tree.Everywhere Faithful)
    (plain : tree.Everywhere Node.NulFree)
    (attributes : tree.Everywhere Node.TextAttributes)
    (separated : options.cellSeparator = some separator)
    (plainly : FlattensPlainly options tree)
    (undebugged : options.debug = false)
    (flattens : options.nesting = .flatten) :
    (∃ text, (renderTree options tree).1 = .ok text ∧
        ink text.toList = ink (flatText (dashes options) separator.toList numbered)) ∨
      ∃ fault, (renderTree options tree).1 = .error fault ∧ Overfull tree.codeCount fault := by
  have meets := render_flat returned separated plainly plain attributes
    (fun _ : True => undebugged) fun _ => ⟨block, faithful⟩
  have shown := renderTree_of_meets (meets.mono (fun _ admitted => admitted.overfull flattens)
    fun _ _ same => same trivial)
  cases ended : (renderTree options tree).1 with
  | ok text =>
      rw [ended] at shown
      exact Or.inl ⟨text, rfl, shown⟩
  | error fault =>
      rw [ended] at shown
      exact Or.inr ⟨fault, rfl, shown⟩

/-- A page with a heading, a reference to an item with a quote, substitutes, code, a row
and a label. -/
def page : Node :=
  { kind := .root
    children := [
      { kind := .header
        payload := .heading { level := .one }
        children := [{ kind := .text, payload := .text "Plan" }] },
      { kind := .paragraph
        children := [
          { kind := .text, payload := .text "See" },
          { kind := .reference, payload := .text "step" },
          { kind := .typographicSymbol, payload := .text "mdash" },
          { kind := .smartQuote, payload := .text "ldquo" },
          { kind := .emphasis, children := [{ kind := .text, payload := .text "run" }] },
          { kind := .smartQuote, payload := .text "rdquo" },
          { kind := .inlineCode, payload := .text "ls" },
          { kind := .link
            attributes := [("href", .text "u")]
            children := [{ kind := .text, payload := .text "manual" }] },
          { kind := .lineBreak },
          { kind := .image, attributes := [("src", .text "i.png")] },
          { kind := .actionItem, options := [("assignee", .text "ann")] },
          { kind := .issueLink, payload := .text "12", options := [("match", .text "#12")] }] },
      { kind := .orderedList
        children := [{
          kind := .listItem
          children := [
            { kind := .label, payload := .text "step" },
            { kind := .text, payload := .text "go" },
            { kind := .blockquote,
              children := [{ kind := .text, payload := .text "as said" }] }] }] },
      { kind := .tableRow
        children := [
          { kind := .tableCell, children := [{ kind := .text, payload := .text "a" }] },
          { kind := .tableCell, children := [{ kind := .text, payload := .text "b" }] }] },
      { kind := .codeblock, payload := .text "c\n  d" }] }

theorem page_nulFree : page.Everywhere Node.NulFree := by
  have listed : ∀ inner ∈ page.walk, inner.payload.NulFree ∧
      (∀ field ∈ inner.attributes, field.2.NulFree) ∧
      ∀ field ∈ inner.options, field.2.NulFree := by decide +kernel
  intro inner present
  obtain ⟨payload, attributes, options⟩ := listed inner present
  exact nulFree_of_fields payload attributes options

theorem page_textAttributes : page.Everywhere Node.TextAttributes := by
  have listed : ∀ inner ∈ page.walk, ∀ field ∈ inner.attributes, field.2.isText = true := by
    decide +kernel
  exact fun inner present => textAttributes_of_fields (listed inner present)

theorem page_faithful : page.Everywhere Faithful := by
  have kinds : ∀ inner ∈ page.walk, inner.kind ≠ .horizontalRule ∧
      (inner.kind = .tableRow → ∀ child ∈ inner.children, child.kind = .tableCell) := by
    decide +kernel
  exact fun inner present => ⟨(kinds inner present).1, (kinds inner present).2⟩

/-- Little room beside short rules. -/
def twelveColumns : Options := { maxColumn := 12, ruleWidth := 3 }

/-- The page in twelve columns. -/
def pageText : String :=
  "1) Plan\nSee(1)---\"ru\nn\"\n---\nls\n---\n[manual]\ni.png-->(ann\n)#12\n" ++
    "(1) go\n    ---\n        as said\n    ---\na | b\n---\nc\n  d\n---\n"

/-- Words are cut and lines are indented, but the ink of the page is that of its flat
text. -/
theorem ink_renderTree_page :
    (renderTree twelveColumns page).1 = .ok pageText ∧
      ∃ numbered, (Numbering.resolve page).1 = .ok numbered ∧
        flatText (dashes twelveColumns) " | ".toList numbered =
          ("1)PlanSee(1)---\"run\"---ls---[manual]\ni.png-->(ann)#12" ++
            "(1)go---as said---a | b---c\n  d---").toList ∧
        ink pageText.toList = ink (flatText (dashes twelveColumns) " | ".toList numbered) := by
  have rendered : (renderTree twelveColumns page).1 = .ok pageText :=
    eq_ok_of_toOption (by decide +kernel)
  have flattened : (Numbering.resolve page).1.toOption.map
      (flatText (dashes twelveColumns) " | ".toList) =
        some ("1)PlanSee(1)---\"run\"---ls---[manual]\ni.png-->(ann)#12" ++
          "(1)go---as said---a | b---c\n  d---").toList := by decide +kernel
  obtain ⟨numbered, given, flat⟩ := Option.map_eq_some_iff.mp flattened
  have resolved := eq_ok_of_toOption given
  have separated : twelveColumns.cellSeparator = some " | " := rfl
  have plainly : FlattensPlainly twelveColumns page := by decide +kernel
  rcases ink_renderTree resolved rfl page_faithful page_nulFree page_textAttributes separated
    plainly rfl rfl with ⟨text, given, shown⟩ | ⟨fault, stopped, -⟩
  · obtain rfl : pageText = text := Except.ok.inj (rendered.symm.trans given)
    exact ⟨rendered, numbered, resolved, flat, shown⟩
  · cases rendered.symm.trans stopped

/-- Between the cells of a row that is flattened, a separator that spells a placeholder
is lost, and the code of the row is shown twice. -/
theorem renderTree_codedRow :
    codedRow.isBlock = true ∧ codedRow.Everywhere Faithful ∧ codedRow.Everywhere Node.NulFree ∧
      codedRow.Everywhere Node.TextAttributes ∧ spelledPlaceholder.debug = false ∧
      spelledPlaceholder.nesting = .flatten ∧
      (renderTree spelledPlaceholder codedRow).1 = .ok "--- x ---\n---\nx\n---\nb\n" ∧
      ∃ numbered, (Numbering.resolve codedRow).1 = .ok numbered ∧
        flatText (dashes spelledPlaceholder) "\x000\x00".toList numbered =
          "---x---\x000\x00b".toList ∧
        ink "--- x ---\n---\nx\n---\nb\n".toList ≠ ink "---x---\x000\x00b".toList := by
  have attributes : ∀ inner ∈ codedRow.walk, inner.attributes = [] := by decide +kernel
  have flattened : (Numbering.resolve codedRow).1.toOption.map
      (flatText (dashes spelledPlaceholder) "\x000\x00".toList) =
        some "---x---\x000\x00b".toList := by decide +kernel
  obtain ⟨numbered, given, flat⟩ := Option.map_eq_some_iff.mp flattened
  refine ⟨rfl, codedRow_faithful, codedRow_nulFree,
    fun inner present => textAttributes_bare (attributes inner present), rfl, rfl,
    eq_ok_of_toOption (by decide +kernel), numbered, eq_ok_of_toOption given, flat, ?_⟩
  decide +kernel

/-! ## A document of one paragraph -/

/-- A document of one paragraph of spans. -/
def note (spans : List Node) : Node :=
  { kind := .root
    children := [{ kind := .paragraph, children := spans }] }

/-- What holds of the root, of the paragraph and of its spans holds everywhere in a
note. -/
theorem note_everywhere {property : Node → Prop} {spans : List Node}
    (root : property (note spans))
    (paragraph : property { kind := .paragraph, children := spans })
    (leaves : ∀ span ∈ spans, span.children = [])
    (each : ∀ span ∈ spans, property span) :
    (note spans).Everywhere property := by
  refine Node.everywhere_iff.mpr ⟨root, fun child present => ?_⟩
  obtain rfl := List.mem_singleton.mp present
  refine Node.everywhere_iff.mpr ⟨paragraph, fun span inside => ?_⟩
  refine Node.everywhere_iff.mpr ⟨each span inside, fun inner below => ?_⟩
  rw [leaves span inside] at below
  cases below

/-- A word and a command. -/
def commandNote : Node :=
  note [{ kind := .text, payload := .text "run" }, { kind := .inlineCode, payload := .text "ls" }]

theorem commandNote_nulFree : commandNote.Everywhere Node.NulFree := by
  refine note_everywhere (nulFree_bare trivial rfl rfl) (nulFree_bare trivial rfl rfl) (by simp) ?_
  refine List.forall_mem_cons.mpr ⟨?_, List.forall_mem_cons.mpr ⟨?_, nofun⟩⟩
  · exact nulFree_bare (show NulFree "run".toList by decide) rfl rfl
  · exact nulFree_bare (show NulFree "ls".toList by decide) rfl rfl

theorem commandNote_textAttributes : commandNote.Everywhere Node.TextAttributes := by
  refine note_everywhere (textAttributes_bare rfl) (textAttributes_bare rfl) (by simp) ?_
  exact List.forall_mem_cons.mpr ⟨textAttributes_bare rfl,
    List.forall_mem_cons.mpr ⟨textAttributes_bare rfl, nofun⟩⟩

end Layout
end Galley
