import Galley.Proofs.Layout.Meaning
import Galley.Proofs.Layout.Walked

/-!
# Where blocks are laid out

Blocks that lay out their children in a frame lay them out at the indentation of the
frame.  This module lists the nodes that are reached in this way, in document order,
with their places and indentations.
-/

namespace Galley
namespace Layout

/-- A node where it is laid out. -/
structure Site where
  /-- The node. -/
  node : Node
  /-- The place of the node. -/
  place : Place
  /-- The indentation that the node is laid out at. -/
  indent : Nat

mutual

/-- A node and the nodes below it that are reached through frames, each before its
children. -/
def sites (options : Options) (node : Node) (place : Place) (indent : Nat) : List Site :=
  match node with
  | ⟨kind, payload, attributes, fields, children⟩ =>
      let bare : Node := ⟨kind, payload, attributes, fields, children⟩
      ⟨bare, place, indent⟩ ::
        match frame? options bare indent with
        | some frame => sitesBelow options children bare place 0 frame.inner
        | none => []
termination_by structural node

/-- The nodes that are reached from siblings, the first of which has the given
position. -/
def sitesBelow (options : Options) (siblings : List Node) (parent : Node) (place : Place)
    (index inner : Nat) : List Site :=
  match siblings with
  | [] => []
  | child :: rest =>
      sites options child (place.enter parent index) inner ++
        sitesBelow options rest parent place (index + 1) inner
termination_by structural siblings

end

variable {options : Options}

@[simp] theorem sitesBelow_nil (parent : Node) (place : Place) (index inner : Nat) :
    sitesBelow options [] parent place index inner = [] := rfl

@[simp] theorem sitesBelow_cons (child : Node) (rest : List Node) (parent : Node) (place : Place)
    (index inner : Nat) :
    sitesBelow options (child :: rest) parent place index inner =
      sites options child (place.enter parent index) inner ++
        sitesBelow options rest parent place (index + 1) inner := rfl

/-- In a frame, the children are reached at the indentation of the frame. -/
theorem sites_of_frame {node : Node} {indent : Nat} {frame : Frame}
    (framed : frame? options node indent = some frame) (place : Place) :
    sites options node place indent =
      ⟨node, place, indent⟩ :: sitesBelow options node.children node place 0 frame.inner := by
  obtain ⟨kind, payload, attributes, fields, children⟩ := node
  rw [sites]
  simp only [framed]

/-- Without a frame, nothing is reached below a node. -/
theorem sites_of_unframed {node : Node} {indent : Nat}
    (unframed : frame? options node indent = none) (place : Place) :
    sites options node place indent = [⟨node, place, indent⟩] := by
  obtain ⟨kind, payload, attributes, fields, children⟩ := node
  rw [sites]
  simp only [unframed]

/-! ## Which nodes are reached -/

/-- Whether a node has a frame depends on its kind. -/
theorem isSome_frame? (options : Options) (node : Node) (indent : Nat) :
    (frame? options node indent).isSome = isFramed node.kind := by
  obtain ⟨kind, payload, attributes, fields, children⟩ := node
  cases kind with
  | header =>
      simp only [frame?, shape]
      cases headingBullet? ⟨.header, payload, attributes, fields, children⟩ <;> rfl
  | _ => rfl

/-- Whether all nodes around a place are of kinds that lay out their children in a
frame. -/
def inFrames (place : Place) : Bool :=
  place.ancestors.all fun node => isFramed node.kind

/-- The nodes that are reached are those around which all nodes have frames, in document
order. -/
theorem map_sites (node : Node) {place : Place} (linked : place.linked = true)
    (around : inFrames place = true) (indent : Nat) :
    (sites options node place indent).map (fun site => (site.place, site.node)) =
      (node.placed place).filter fun entry => inFrames entry.1 := by
  induction node using Node.induction_on_children generalizing place indent with
  | step node below =>
      have entered (index : Nat) :
          inFrames (place.enter node index) = isFramed node.kind := by
        have around : (place.ancestors.all fun node => isFramed node.kind) = true := around
        simp [inFrames, Place.enter, linked, around]
      have enteredLinked (index : Nat) : (place.enter node index).linked = true := by
        simp [Place.enter, linked]
      rw [Node.placed_eq, List.filter_cons, if_pos around]
      have has := isSome_frame? options node indent
      cases framed : frame? options node indent with
      | some frame =>
          rw [framed, Option.isSome_some] at has
          have siblings (members : List Node) (index : Nat)
              (known : ∀ child ∈ members, child ∈ node.children) :
              (sitesBelow options members node place index frame.inner).map
                  (fun site => (site.place, site.node)) =
                (Node.placedBelow members node place index).filter
                  fun entry => inFrames entry.1 := by
            induction members generalizing index with
            | nil => rfl
            | cons child rest inductionHypothesis =>
                have first := below child (known child (by simp)) (enteredLinked index)
                  ((entered index).trans has.symm) frame.inner
                rw [sitesBelow_cons, Node.placedBelow_cons, List.map_append,
                  List.filter_append, first,
                  inductionHypothesis (index + 1) fun other present =>
                    known other (by simp [present])]
          rw [sites_of_frame framed, List.map_cons,
            siblings node.children 0 fun _ present => present]
      | none =>
          rw [framed, Option.isSome_none] at has
          have outside : (Node.placedBelow node.children node place 0).filter
              (fun entry => inFrames entry.1) = [] := by
            refine List.filter_eq_nil_iff.mpr fun entry listed => ?_
            obtain ⟨child, index, -, below⟩ := Node.exists_of_mem_placedBelow listed
            obtain ⟨more, around⟩ := Node.exists_ancestors_of_mem_placed below
            have inside : node ∈ entry.1.ancestors := by simp [around, Place.enter, linked]
            simp only [inFrames, List.all_eq_true]
            intro every
            have framed := every node inside
            rw [← has] at framed
            cases framed
          rw [sites_of_unframed framed, List.map_cons, List.map_nil, outside]

end Layout
end Galley
