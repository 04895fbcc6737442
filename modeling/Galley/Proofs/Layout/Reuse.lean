import Galley.Layout.Session
import Galley.Proofs.Layout.Blind
import Galley.Proofs.Layout.Echoing
import Galley.Proofs.Layout.Policies
import Galley.Proofs.Layout.Rendering
import Galley.Proofs.Numbering.Reuse

/-!
# Reuse leaves no trace

A renderer that is called again does what a new one does.  No call leaves tables in the
slot, also where it stops at a fault; a rendering starts with nothing held; and a
conversion shows nothing of the code that other conversions have left in the store.
-/

namespace Galley
namespace Layout

open Text

variable {options : Options}

/-! ## Calls and their workspaces -/

/-- With something in the slot, a computation does what one of a renderer does in the
workspace, and leaves the slot as it is. -/
def Serves (slot : Option Numbering.Numbered) (serving : Serving α) (action : Render α) : Prop :=
  ∀ workspace, outcome serving { workspace := workspace, slot := slot } =
    ((outcome action workspace).1, { workspace := (outcome action workspace).2, slot := slot })

namespace Serves

variable {α β : Type} {slot : Option Numbering.Numbered} {serving : Serving α} {action : Render α}

theorem work (action : Render α) : Serves slot (Session.work action) action :=
  fun _ => rfl

theorem give (value : α) : Serves slot (pure value) (pure value) :=
  fun _ => rfl

theorem lift (result : Except Fault α) : Serves slot (liftM result) (liftM result) := by
  intro workspace
  cases result <;> rfl

theorem bind {next : α → Serving β} {next' : α → Render β} (first : Serves slot serving action)
    (second : ∀ value, Serves slot (next value) (next' value)) :
    Serves slot (serving >>= next) (action >>= next') := by
  intro workspace
  rw [outcome_bind, outcome_bind, first workspace]
  rcases outcome action workspace with ⟨fault | value, after⟩
  · rfl
  · exact second value after

/-- The slot is read by conversions. -/
theorem convertNode (options : Options) (node : Node) (place : Place) (indent : Nat) :
    Serves slot (Session.convertNode options node place indent) (do
      let text ← convert { options := options, numbered := slot } node place indent
      return String.ofList text) := by
  unfold Session.convertNode
  intro workspace
  rw [outcome_get_bind]
  exact (work _).bind (fun text => give _) workspace

end Serves

/-- What is done in the end is done whether a computation returns or stops. -/
theorem outcome_tryFinally (action : Serving α) (tables : Option Numbering.Numbered)
    (session : Session) :
    outcome (tryFinally action (Session.fillSlot tables)) session =
      ((outcome action session).1, { (outcome action session).2 with slot := tables }) := by
  obtain ⟨⟨result, after⟩, found⟩ : ∃ ended, action session = ended := ⟨_, rfl⟩
  have alone : outcome action session = (result, after) := found
  rw [alone]
  simp only [outcome, tryFinally, tryFinally', ExceptT.run, ExceptT.mk, StateT.run,
    Functor.map, bind,
    StateT.bind, ExceptT.map, Id.run, pure, found]
  cases result <;> rfl

/-- A slot that is filled for a computation is empty again in the end. -/
theorem Serves.guarded {tables : Numbering.Numbered} {serving : Serving α} {action : Render α}
    {update : Workspace → Workspace} (serves : Serves (some tables) serving action) :
    Serves none
      (Session.fillSlot (some tables) >>= fun _ => Session.work (modify update) >>= fun _ =>
        tryFinally serving (Session.fillSlot none))
      (modify update >>= fun _ => action) := by
  intro workspace
  have filled : outcome (Session.fillSlot (some tables)) { workspace := workspace, slot := none } =
      (.ok (), { workspace := workspace, slot := some tables }) := rfl
  have updated : outcome (Session.work (modify update))
      { workspace := workspace, slot := some tables } =
      (.ok (), { workspace := update workspace, slot := some tables }) := rfl
  rw [outcome_bind_of_ok filled, outcome_bind_of_ok updated, outcome_tryFinally,
    serves (update workspace), outcome_modify_bind]

/-- A rendering with an empty slot. -/
theorem serves_render (options : Options) (tree : Node) :
    Serves none (Session.render options tree) (render options tree) := by
  have body (numbered : Numbering.Numbered) : Serves (some numbered)
      (do
        let text ← Session.convertNode options numbered.tree Place.root 0
        Session.work (report .rendered)
        pure text)
      (do
        let text ← convert { options := options, numbered := some numbered } numbered.tree
          Place.root 0
        report .rendered
        return String.ofList text) := by
    have converted : Serves (some numbered) _ _ :=
      Serves.convertNode options numbered.tree Place.root 0
    have whole := converted.bind fun text =>
      (Serves.work (report .rendered)).bind fun _ => Serves.give text
    simpa only [bind_assoc, pure_bind] using whole
  unfold Session.render render
  refine (Serves.work _).bind fun numbered => ?_
  dsimp only
  split
  · refine (Serves.lift _).bind fun listing => (Serves.work _).bind fun _ => ?_
    exact (body numbered).guarded
  · exact (body numbered).guarded

/-- A conversion with an empty slot is that of a node by itself. -/
theorem serves_convert (options : Options) (node : Node) (place : Place) (indent : Int) :
    Serves none (Session.convert options node place indent)
      (convertAlone options node place indent) :=
  Serves.convertNode options node place indent.toNat

/-- A call that finds the slot empty leaves it empty, also where it stops at a fault. -/
theorem slot_next (call : Call) {session : Session} (empty : session.slot = none) :
    (session.next options call).slot = none := by
  obtain ⟨workspace, _⟩ := session
  obtain rfl := empty
  have kept {α : Type} {serving : Serving α} {action : Render α}
      (serves : Serves none serving action) :
      (outcome serving { workspace := workspace, slot := none }).2.slot = none := by
    rw [serves workspace]
  cases call with
  | render tree => exact kept (serves_render options tree)
  | convert node place indent => exact kept (serves_convert options node place indent)

/-- So do any number of calls. -/
theorem slot_after (calls : List Call) {session : Session} (empty : session.slot = none) :
    (Session.after options calls session).slot = none := by
  induction calls generalizing session with
  | nil => exact empty
  | cons call rest inductionHypothesis => exact inductionHypothesis (slot_next call empty)

/-! ## Renderings from any workspace -/

theorem numberTree_retraces (tree : Node) (workspace workspace' : Workspace) :
    Retraces Unexcused (numberTree tree) (numberTree tree) workspace workspace'
      fun numbered numbered' _ _ => numbered = numbered' := by
  unfold Retraces
  rw [outcome_numberTree, outcome_numberTree]
  cases (Numbering.resolve tree).1 with
  | error fault => exact Or.inl rfl
  | ok numbered => rfl

/-- A rendering forgets what was held before it holds anything itself. -/
theorem render_retraces (options : Options) (tree : Node) (workspace workspace' : Workspace) :
    Retraces Unexcused (render options tree) (render options tree) workspace workspace'
      SameHeld := by
  unfold render
  refine Retraces.bind (numberTree_retraces tree workspace workspace') ?_
  rintro numbered _ after after' rfl
  have converted := blind_convert { options := options, numbered := some numbered } numbered.tree
    Place.root 0
  have rest := converted.bind fun text =>
    (Blind.report .rendered).bind fun _ => Blind.give (String.ofList text)
  dsimp only
  split
  · refine Retraces.lift_bind fun listing => Retraces.change_bind (Retraces.change_bind ?_)
    exact rest _ _ rfl
  · exact Retraces.change_bind (rest _ _ rfl)

/-! ## Conversions from any workspace -/

/-- What stands for a reference that no rendering looks up, with its tags where
debugging is on. -/
def unresolvedShown (options : Options) : String :=
  if options.debug then "<SPAN:reference>(???)</SPAN:reference>" else "(???)"

theorem outcome_convertAlone_reference {node : Node} (reference : node.kind = .reference)
    (place : Place) (indent : Int) (workspace : Workspace) :
    (outcome (convertAlone options node place indent) workspace).1 =
      .ok (unresolvedShown options) := by
  obtain ⟨_, payload, attributes, fields, children⟩ := node
  obtain rfl := reference
  have shown : outcome (bareText { options := options }
      ⟨.reference, payload, attributes, fields, children⟩ place indent.toNat) workspace =
      (.ok Numbering.unresolvedText.toList,
        { workspace with log := workspace.log ++ [.referenceAlone payload] }) := rfl
  unfold convertAlone unresolvedShown
  rw [convert_eq_bareText _ place _ rfl, outcome_bind, outcome_bind, shown]
  unfold finish
  cases options.debug with
  | false => rfl
  | true =>
      have tagged : tag ⟨.reference, payload, attributes, fields, children⟩
          Numbering.unresolvedText.toList = enclose Marker.spanClass Kind.reference.name.toList
            Numbering.unresolvedText.toList := rfl
      simp only [if_true]
      rw [tagged]
      rfl

/-- A block is converted to the same text, or to the same fault, whatever is held. -/
theorem outcome_convertAlone_block {node : Node} (block : node.isBlock = true)
    (settled : node.Everywhere (Settled { options := options }))
    (plainly : FlattensPlainly options node) (place : Place) (indent : Int)
    {workspace : Workspace} (few : workspace.held.length + node.codeCount ≤ 10 ^ numeralLimit) :
    (outcome (convertAlone options node place indent) workspace).1 =
      (outcome (convertAlone options node place indent) {}).1 := by
  have below := codeCountBelow_le node
  have spacious : Spacious workspace {} (Node.codeCountBelow node.children) := by
    constructor
    · omega
    · rw [List.length_nil]
      omega
  have same := (convert_echoing node settled plainly).block place indent.toNat workspace {} spacious
    (Or.inl block)
  refine Retraces.eq_of_resultsAlike (Retraces.results (Retraces.bind same ?_))
  rintro text _ after after' ⟨-, rfl, -⟩
  exact Retraces.give rfl

/-! ## Sequences of calls -/

/-- After any calls of a renderer, some of which may have stopped at faults: a rendering
gives what a new renderer gives; a reference on its own shows that it is not resolved;
and a block without NUL, also between the cells of the rows that are flattened in it,
with blocks in its rows, is converted as by a new renderer, as long as no more code is
held than numerals can count.  And after any trees, a visitor numbers a tree as a new
one does. -/
theorem calls_leave_no_trace (options : Options) (calls : List Call) (trees : List Node) :
    (∀ tree, (outcome (Session.render options tree) (Session.after options calls {})).1 =
      (outcome (Session.render options tree) {}).1) ∧
    (∀ node place indent, node.kind = .reference →
      (outcome (Session.convert options node place indent) (Session.after options calls {})).1 =
        .ok (unresolvedShown options)) ∧
    (∀ node place indent, node.isBlock = true → node.Everywhere (Settled { options := options }) →
      FlattensPlainly options node →
      (Session.after options calls {}).workspace.held.length + node.codeCount ≤ 10 ^ numeralLimit →
      (outcome (Session.convert options node place indent) (Session.after options calls {})).1 =
        (outcome (Session.convert options node place indent) {}).1) ∧
    ∀ tree, (outcome (Numbering.traverse tree) (Numbering.State.after trees {})).1 =
      (outcome (Numbering.traverse tree) {}).1 := by
  have empty : (Session.after options calls {}).slot = none := slot_after calls rfl
  generalize Session.after options calls {} = session at empty ⊢
  obtain ⟨workspace, _⟩ := session
  obtain rfl := empty
  refine ⟨fun tree => ?_, fun node place indent reference => ?_,
    fun node place indent block settled plainly few => ?_, fun tree => ?_⟩
  · have serves := serves_render options tree
    rw [serves workspace, serves {}]
    exact Retraces.eq_of_resultsAlike
      ((render_retraces options tree workspace {}).imp fun _ _ _ _ same => same.1).results
  · rw [serves_convert options node place indent workspace]
    exact outcome_convertAlone_reference reference place indent workspace
  · have serves := serves_convert options node place indent
    rw [serves workspace, serves {}]
    exact outcome_convertAlone_block block settled plainly place indent few
  · exact Numbering.outcome_traverse tree _

/-- A note whose emphasis holds a paragraph, which may be refused. -/
def refusedNote : Node :=
  note [{ kind := .emphasis, children := [{ kind := .paragraph }] }]

/-- After a rendering that stopped and a command that is still held, references are not
resolved and the note of the command is converted as by a new renderer. -/
theorem calls_leave_no_trace_refusedNote :
    let options : Options := { ruleWidth := 3, nesting := .reject }
    let session :=
      Session.after options [.render refusedNote, .convert commandNote Place.alone 0] {}
    (outcome (Session.render options refusedNote) {}).1 =
        .error (.failure (.blockInSpan "emphasis" "paragraph")) ∧
      session.workspace.held = ["---\nls\n---\n".toList] ∧
      (outcome (Session.convert options { kind := .reference } Place.alone 0) session).1 =
        .ok "(???)" ∧
      (outcome (Session.convert options commandNote Place.alone 0) session).1 =
        .ok "run\n---\nls\n---\n" := by
  have settled : commandNote.Everywhere
      (Settled { options := { ruleWidth := 3, nesting := .reject } }) := by
    refine note_everywhere ⟨nulFree_bare trivial rfl rfl, nofun, nofun⟩
      ⟨nulFree_bare trivial rfl rfl, nofun, nofun⟩ (by simp) ?_
    refine List.forall_mem_cons.mpr ⟨?_, List.forall_mem_cons.mpr ⟨?_, nofun⟩⟩
    · exact ⟨nulFree_bare (show NulFree "run".toList by decide) rfl rfl, nofun, nofun⟩
    · exact ⟨nulFree_bare (show NulFree "ls".toList by decide) rfl rfl, nofun, nofun⟩
  have few : 1 + 1 ≤ 10 ^ numeralLimit :=
    Nat.le_trans (by decide : 1 + 1 ≤ 10 ^ 1) (Nat.pow_le_pow_right (by decide) (by decide))
  obtain ⟨-, references, blocks, -⟩ := calls_leave_no_trace { ruleWidth := 3, nesting := .reject }
    [.render refusedNote, .convert commandNote Place.alone 0] []
  refine ⟨rfl, rfl, references _ _ _ rfl, ?_⟩
  exact (blocks commandNote Place.alone 0 rfl settled (by decide) few).trans rfl

/-- A row in emphasis. -/
def emphasizedRow : Node :=
  note [{
    kind := .emphasis
    children := [{
      kind := .tableRow
      children := [
        { kind := .tableCell, children := [{ kind := .text, payload := .text "a" }] },
        { kind := .tableCell, children := [{ kind := .text, payload := .text "b" }] }] }] }]

/-- Between cells, a separator that spells a placeholder shows code of an earlier
conversion, where a new renderer stops: no string of the node holds NUL, and its row has
cells only. -/
theorem convert_emphasizedRow :
    let options : Options := { ruleWidth := 3, cellSeparator := some "\x000\x00" }
    emphasizedRow.isBlock = true ∧
      emphasizedRow.Everywhere Node.NulFree ∧
      (emphasizedRow.Everywhere fun inner =>
        inner.kind = .tableRow → ∀ child ∈ inner.children, child.kind = .tableCell) ∧
      (outcome (Session.convert options emphasizedRow Place.alone 0) {}).1 = .error .outOfRange ∧
      (outcome (Session.convert options emphasizedRow Place.alone 0)
        (Session.after options [.convert commandNote Place.alone 0] {})).1 =
          .ok "a\n---\nls\n---\nb\n" := by
  refine ⟨rfl, ?_, ?_, rfl, rfl⟩
  · have bare : ∀ inner ∈ emphasizedRow.walk, inner.payload.NulFree ∧
        inner.attributes.isEmpty = true ∧ inner.options.isEmpty = true := by decide
    intro inner present
    obtain ⟨payload, attributes, options⟩ := bare inner present
    exact nulFree_bare payload (List.isEmpty_iff.mp attributes) (List.isEmpty_iff.mp options)
  · unfold Node.Everywhere
    decide

end Layout
end Galley
