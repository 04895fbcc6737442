import Galley.Layout.Render

/-!
# Renderers that are called again

A renderer is called any number of times, and each call may stop at a fault.  From one
call to the next it keeps held code, its log and a slot for the tables that references
are looked up in.  A rendering fills the slot and empties it in the end, whether it
returns or stops.
-/

namespace Galley
namespace Layout

/-- What a renderer keeps from one call to the next. -/
structure Session where
  /-- Held code and events. -/
  workspace : Workspace := {}
  /-- The tables that references are looked up in. -/
  slot : Option Numbering.Numbered := none

/-- A computation of a renderer that is called again. -/
abbrev Serving := ExceptT Fault (StateM Session)

namespace Session

/-- Do something with the workspace alone. -/
def work (action : Render α) : Serving α := fun session =>
  let (result, workspace) := action.run session.workspace
  (result, { session with workspace := workspace })

/-- Put tables in the slot, or empty it. -/
def fillSlot (tables : Option Numbering.Numbered) : Serving Unit :=
  modify fun session => { session with slot := tables }

/-- Convert a node with what is in the slot. -/
def convertNode (options : Options) (node : Node) (place : Place) (indent : Nat) :
    Serving String := do
  let session ← get
  let text ← work
    (Layout.convert { options := options, numbered := session.slot } node place indent)
  return String.ofList text

/-- Render a tree to text. -/
def render (options : Options) (tree : Node) : Serving String := do
  let numbered ← work (numberTree tree)
  if options.debug then
    let listing ← Listing.format numbered.tree
    work (report (.treeListed listing))
  fillSlot (some numbered)
  work (modify fun workspace => { workspace with held := [] })
  try
    let text ← convertNode options numbered.tree Place.root 0
    work (report .rendered)
    pure text
  finally
    fillSlot none

/-- Convert a node between renderings.  Indentations below zero count as zero. -/
def convert (options : Options) (node : Node) (place : Place) (indent : Int) : Serving String :=
  convertNode options node place indent.toNat

end Session

/-- A call of a renderer. -/
inductive Call where
  /-- Render a tree. -/
  | render (tree : Node)
  /-- Convert a node that stands at a place. -/
  | convert (node : Node) (place : Place) (indent : Int)

/-- What a call does. -/
def Call.serve (options : Options) : Call → Serving String
  | .render tree => Session.render options tree
  | .convert node place indent => Session.convert options node place indent

/-- What is kept after a call, also after one that stopped at a fault. -/
def Session.next (options : Options) (session : Session) (call : Call) : Session :=
  ((call.serve options).run.run session).2

/-- What is kept after calls. -/
def Session.after (options : Options) (calls : List Call) (session : Session) : Session :=
  calls.foldl (Session.next options) session

end Layout
end Galley
