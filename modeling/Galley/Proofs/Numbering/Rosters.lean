import Galley.Numbering.Roster
import Galley.Proofs.Numbering.Positions
import Galley.Sequence

/-!
# Positions in a roster

Nodes may be added to a roster in any order, whatever their parents are.  The table
lists them in the order of their addition, and the group of a parent holds the nodes
below it in the same order.  Where every node is added once and stores its position,
positions lead back to their nodes, and steps go by the stored positions alone.
-/

namespace Galley

/-- A step leads to the entry of the group at the place where the step ends, and places
count from the first entry. -/
theorem PositionTable.relative_eq_some_iff
    {Scope Entry : Type} [BEq Scope] {table : PositionTable Scope Entry} {scope : Scope}
    {position offset : Int} {entry : Entry} :
    table.relative scope position offset = some entry ↔
      ∃ place : Nat, position + offset = place ∧ (table.group scope)[place]? = some entry := by
  unfold relative
  dsimp only
  constructor
  · intro found
    split at found
    · cases found
    · exact ⟨(position + offset).toNat, by omega, found⟩
  · rintro ⟨place, reached, member⟩
    rw [if_neg (by omega), reached, Int.toNat_natCast, member]

namespace Roster

variable {Name : Type} [DecidableEq Name]

/-! ## Additions in any order -/

/-- For each of some nodes, how many nodes before it have its parent. -/
def countsBefore (parent? : Name → Option Name) (names : List Name) : List Nat :=
  names.mapIdx fun index name =>
    (names.take index).countP fun earlier => parent? earlier = parent? name

/-- The nodes that were added to a roster, in the order of their addition. -/
structure Lists (roster : Roster Name) (names : List Name) : Prop where
  /-- The table lists them all. -/
  entries : roster.table.entries = names
  /-- A group holds those with one parent. -/
  group : ∀ scope, roster.table.group scope = names.filter fun name => roster.parent? name = scope

theorem lists_nil (node : Name → Node) (parent? : Name → Option Name) :
    Lists { node, parent? } [] :=
  ⟨rfl, fun _ => rfl⟩

theorem Lists.enter
    {roster : Roster Name} {names : List Name}
    (lists : Lists roster names)
    (addition : Addition Name) :
    Lists (roster.enter addition) (names ++ [addition.name]) where
  entries := by rw [table_enter, PositionTable.entries_add, lists.entries]
  group scope := by
    rw [table_enter, parent?_enter, List.filter_append, ← lists.group]
    by_cases same : roster.parent? addition.name = scope
    · subst same
      simp
    · rw [PositionTable.group_add_of_ne _ _ (Ne.symm same)]
      simp [same]

theorem Lists.foldl_enter
    {roster : Roster Name} {names : List Name}
    (lists : Lists roster names)
    (additions : List (Addition Name)) :
    Lists (additions.foldl Roster.enter roster) (names ++ additions.map (·.name)) := by
  induction additions generalizing roster names with
  | nil => simpa using lists
  | cons addition rest inductionHypothesis =>
      simpa using inductionHypothesis (lists.enter addition)

@[simp] theorem parent?_foldl_enter (roster : Roster Name) (additions : List (Addition Name)) :
    (additions.foldl enter roster).parent? = roster.parent? := by
  induction additions generalizing roster with
  | nil => rfl
  | cons addition rest inductionHypothesis =>
      rw [List.foldl_cons, inductionHypothesis, parent?_enter]

theorem Lists.nextPosition
    {roster : Roster Name} {names : List Name}
    (lists : Lists roster names)
    (name : Name) :
    roster.nextPosition name =
      names.countP fun earlier => roster.parent? earlier = roster.parent? name := by
  rw [Roster.nextPosition, PositionTable.nextPosition, lists.group, List.countP_eq_length_filter]

theorem run_mapM_add_cons
    (addition : Addition Name) (rest : List (Addition Name)) (roster : Roster Name) :
    ((addition :: rest).mapM add).run roster =
      let (positions, after) := (rest.mapM add).run (roster.enter addition)
      (roster.nextPosition addition.name :: positions, after) := by
  rw [List.mapM_cons]
  rfl

/-- Each addition gives the number of nodes added before it under the same parent. -/
theorem Lists.run_mapM_add
    {roster : Roster Name} {names : List Name}
    (lists : Lists roster names)
    (additions : List (Addition Name)) :
    (additions.mapM add).run roster =
      ((additions.map (·.name)).mapIdx fun index name =>
          (names ++ (additions.map (·.name)).take index).countP fun earlier =>
            roster.parent? earlier = roster.parent? name,
        additions.foldl Roster.enter roster) := by
  induction additions generalizing roster names with
  | nil => rfl
  | cons addition rest inductionHypothesis =>
      rw [run_mapM_add_cons, inductionHypothesis (lists.enter addition), lists.nextPosition]
      simp [List.mapIdx_cons]

/-! ## Stored positions -/

/-- The position that a node has stored. -/
def positionOf? (roster : Roster Name) (name : Name) : Option Int :=
  (roster.node name).position?.bind Datum.number?

theorem positionOf?_enter_self
    (roster : Roster Name) {addition : Addition Name}
    (stores : addition.stores = true) :
    (roster.enter addition).positionOf? addition.name =
      some (roster.nextPosition addition.name : Int) := by
  rw [positionOf?, node_enter_self roster stores, Node.position?_withPosition]
  rfl

theorem positionOf?_enter_of_ne
    (roster : Roster Name) (addition : Addition Name) {other : Name}
    (different : other ≠ addition.name) :
    (roster.enter addition).positionOf? other = roster.positionOf? other := by
  rw [positionOf?, positionOf?, node_enter_of_ne roster addition different]

/-- A step counts from the position that the anchor has stored. -/
theorem relative_of_positionOf?
    {roster : Roster Name} {anchor : Name} {position : Int}
    (stands : roster.positionOf? anchor = some position)
    (offset : Int) :
    roster.relative anchor offset =
      .ok (roster.table.relative (roster.parent? anchor) position offset) := by
  obtain ⟨value, stored, number⟩ := Option.bind_eq_some_iff.mp stands
  have read : (roster.node anchor).positionNumber? = .ok (some position) := by
    rw [Node.positionNumber?, stored]
    cases value with
    | null => cases number
    | _ => simp only [number]
  rw [relative, read]
  rfl

/-- Some nodes have stored some positions, one each. -/
def Stores (roster : Roster Name) (names : List Name) (positions : List Nat) : Prop :=
  names.map roster.positionOf? = positions.map fun position : Nat => some (position : Int)

/-- The nodes that were added to a roster, each of which stores its position. -/
structure Numbers (roster : Roster Name) (names : List Name) : Prop extends Lists roster names where
  /-- The position of a node leads back to it in its group. -/
  position : ∀ name ∈ names, ∃ position : Nat, roster.positionOf? name = some (position : Int) ∧
    (roster.table.group (roster.parent? name))[position]? = some name

theorem numbers_nil (node : Name → Node) (parent? : Name → Option Name) :
    Numbers { node, parent? } [] :=
  ⟨lists_nil node parent?, by simp⟩

/-- A new node gains the position behind its group, and the other nodes keep theirs. -/
theorem Numbers.enter
    {roster : Roster Name} {names : List Name}
    (numbers : Numbers roster names)
    {addition : Addition Name}
    (fresh : addition.name ∉ names)
    (stores : addition.stores = true) :
    Numbers (roster.enter addition) (names ++ [addition.name]) where
  toLists := numbers.toLists.enter addition
  position name present := by
    rw [table_enter, parent?_enter]
    rcases List.mem_append.mp present with earlier | new
    · obtain ⟨position, stands, member⟩ := numbers.position name earlier
      have other : name ≠ addition.name := fun same => fresh (same ▸ earlier)
      refine ⟨position, by rw [positionOf?_enter_of_ne roster addition other, stands], ?_⟩
      by_cases same : roster.parent? name = roster.parent? addition.name
      · have inside := (List.getElem?_eq_some_iff.mp member).1
        rw [same] at member inside ⊢
        rw [PositionTable.group_add_self, List.getElem?_append_left inside, member]
      · rw [PositionTable.group_add_of_ne _ _ same, member]
    · obtain rfl := List.mem_singleton.mp new
      refine ⟨roster.nextPosition addition.name, positionOf?_enter_self roster stores, ?_⟩
      rw [PositionTable.group_add_self]
      exact List.getElem?_concat_length

theorem Numbers.foldl_enter
    {roster : Roster Name} {names : List Name}
    (numbers : Numbers roster names)
    (additions : List (Addition Name))
    (once : (names ++ additions.map (·.name)).Nodup)
    (stores : ∀ addition ∈ additions, addition.stores = true) :
    Numbers (additions.foldl Roster.enter roster) (names ++ additions.map (·.name)) := by
  induction additions generalizing roster names with
  | nil => simpa using numbers
  | cons addition rest inductionHypothesis =>
      have fresh : addition.name ∉ names := fun earlier =>
        List.disjoint_of_nodup_append once earlier (by simp)
      have entered := numbers.enter fresh (stores addition (by simp))
      rw [List.map_cons, List.append_cons] at once ⊢
      exact inductionHypothesis entered once fun other present => stores other (by simp [present])

/-! ## Steps -/

/-- Steps among some nodes go by the positions that these have stored, and stay under
one parent. -/
structure StepsByPosition (roster : Roster Name) (names : List Name) : Prop where
  /-- A step leads to a node just where that node has the parent of the anchor and the
  position at which the step ends. -/
  leads : ∀ anchor ∈ names, ∀ (offset : Int) (target : Name),
    roster.relative anchor offset = .ok (some target) ↔
      target ∈ names ∧ roster.parent? target = roster.parent? anchor ∧
        ∃ position, roster.positionOf? anchor = some position ∧
          roster.positionOf? target = some (position + offset)
  /-- Where no node under the parent has that position, the step leads nowhere. -/
  nowhere : ∀ anchor ∈ names, ∀ offset : Int,
    (∀ target ∈ names, roster.parent? target = roster.parent? anchor →
      roster.positionOf? target ≠ (roster.positionOf? anchor).map (· + offset)) →
    roster.relative anchor offset = .ok none
  /-- A step that ends before the first position leads nowhere. -/
  before : ∀ anchor ∈ names, ∀ position offset : Int, roster.positionOf? anchor = some position →
    position + offset < 0 → roster.relative anchor offset = .ok none
  /-- A step over no places stays at its anchor. -/
  stays : ∀ anchor ∈ names, roster.relative anchor 0 = .ok (some anchor)
  /-- Two steps, one behind the other, are one step. -/
  adds : ∀ anchor ∈ names, ∀ (first second : Int) (middle : Name),
    roster.relative anchor first = .ok (some middle) →
      roster.relative middle second = roster.relative anchor (first + second)

/-- A node that was added once has one place in its group. -/
theorem Lists.place_inj
    {roster : Roster Name} {names : List Name}
    (lists : Lists roster names)
    (once : names.Nodup)
    {scope : Option Name} {name : Name} {place other : Nat}
    (here : (roster.table.group scope)[place]? = some name)
    (there : (roster.table.group scope)[other]? = some name) :
    place = other := by
  have distinct : (roster.table.group scope).Nodup := lists.group scope ▸ once.filter _
  exact (List.getElem?_inj (List.getElem?_eq_some_iff.mp here).1 distinct).mp
    (here.trans there.symm)

/-- A node stands in its group behind the nodes added before it under the same parent. -/
theorem Lists.getElem?_group
    {roster : Roster Name} {names : List Name}
    (lists : Lists roster names)
    {index : Nat} {name : Name}
    (listed : names[index]? = some name) :
    (roster.table.group (roster.parent? name))[(names.take index).countP fun earlier =>
      roster.parent? earlier = roster.parent? name]? = some name := by
  rw [lists.group]
  exact Numbering.getElem?_filter_countP
    (fun earlier => decide (roster.parent? earlier = roster.parent? name)) listed (by simp)

/-- Nodes that store how many were added before them under the same parent store their
positions. -/
theorem Lists.numbers
    {roster : Roster Name} {names : List Name}
    (lists : Lists roster names)
    (stores : Stores roster names (countsBefore roster.parent? names)) :
    Numbers roster names where
  toLists := lists
  position name present := by
    obtain ⟨index, listed⟩ := List.mem_iff_getElem?.mp present
    have stored := congrArg (·[index]?) stores
    simp only [countsBefore, List.getElem?_map, List.getElem?_mapIdx, listed, Option.map_some,
      Option.some.injEq] at stored
    exact ⟨_, stored, lists.getElem?_group listed⟩

section Steps

variable {roster : Roster Name} {names : List Name}
  (numbers : Numbers roster names) (once : names.Nodup)

include numbers once

/-- The stored positions count the nodes added before under the same parent. -/
theorem Numbers.stores : Stores roster names (countsBefore roster.parent? names) := by
  refine List.ext_getElem? fun index => ?_
  rw [countsBefore, List.getElem?_map, List.getElem?_map, List.getElem?_mapIdx]
  cases listed : names[index]? with
  | none => rfl
  | some name =>
      obtain ⟨position, stands, member⟩ := numbers.position name (List.mem_of_getElem? listed)
      have counted := numbers.toLists.getElem?_group listed
      simp only [Option.map_some, stands, numbers.place_inj once member counted]

/-- A step leads to a node of the group with the position where it ends, and to no other
node. -/
theorem Numbers.relative_eq_some_iff
    {anchor : Name} (present : anchor ∈ names)
    {offset : Int} {target : Name} :
    roster.relative anchor offset = .ok (some target) ↔
      target ∈ names ∧ roster.parent? target = roster.parent? anchor ∧
        ∃ position, roster.positionOf? anchor = some position ∧
          roster.positionOf? target = some (position + offset) := by
  obtain ⟨position, stands, -⟩ := numbers.position anchor present
  have inGroup (scope : Option Name) :
      target ∈ roster.table.group scope ↔ target ∈ names ∧ roster.parent? target = scope := by
    simp [numbers.group]
  rw [relative_of_positionOf? stands, stands, Except.ok.injEq, PositionTable.relative_eq_some_iff]
  constructor
  · rintro ⟨place, reached, member⟩
    obtain ⟨listed, sameParent⟩ := (inGroup _).mp (List.mem_of_getElem? member)
    obtain ⟨place', standsThere, member'⟩ := numbers.position target listed
    rw [sameParent] at member'
    -- The node stands once in its group, so the place that the step reached is its
    -- position.
    obtain rfl := numbers.place_inj once member member'
    exact ⟨listed, sameParent, position, rfl, reached ▸ standsThere⟩
  · rintro ⟨listed, sameParent, start, same, reached⟩
    obtain ⟨place, standsThere, member⟩ := numbers.position target listed
    obtain rfl := Option.some.inj same
    exact ⟨place, Option.some.inj (reached.symm.trans standsThere), sameParent ▸ member⟩

theorem Numbers.stepsByPosition : StepsByPosition roster names where
  leads anchor present offset target := numbers.relative_eq_some_iff once present
  nowhere anchor present offset missed := by
    obtain ⟨position, stands, -⟩ := numbers.position anchor present
    have answers := relative_of_positionOf? stands offset
    cases led : roster.table.relative (roster.parent? anchor) position offset with
    | none => rw [answers, led]
    | some target =>
        rw [led] at answers
        obtain ⟨listed, sameParent, start, here, there⟩ :=
          (numbers.relative_eq_some_iff once present).mp answers
        exact absurd (by rw [here, there, Option.map_some]) (missed target listed sameParent)
  before anchor present position offset stands away := by
    rw [relative_of_positionOf? stands, PositionTable.relative]
    exact congrArg Except.ok (if_pos away)
  stays anchor present := by
    obtain ⟨position, stands, -⟩ := numbers.position anchor present
    exact (numbers.relative_eq_some_iff once present).mpr
      ⟨present, rfl, position, stands, by rw [stands, Int.add_zero]⟩
  adds anchor present first second middle reached := by
    obtain ⟨-, sameParent, position, here, there⟩ :=
      (numbers.relative_eq_some_iff once present).mp reached
    rw [relative_of_positionOf? here, relative_of_positionOf? there, sameParent,
      PositionTable.relative, PositionTable.relative, Int.add_assoc]

end Steps

/-- Additions in any order, of nodes under any parents or none, keep the groups of a
roster in step with its table.  Each gives the number of earlier additions under the
same parent, and iteration passes over the added nodes in the order of their addition.
Where every node is added once and has stored the position that it was given, at its
addition or later, steps go by the stored positions. -/
theorem additions_consistent
    (node : Name → Node) (parent? : Name → Option Name) (additions : List (Addition Name)) :
    let names := additions.map (·.name)
    ∃ positions after, (additions.mapM add).run { node, parent? } = (positions, after) ∧
      after.parent? = parent? ∧
      positions = countsBefore parent? names ∧
      Sequence.iterate after.table.entries = names ∧
      (names.Nodup → (∀ addition ∈ additions, addition.stores = true) →
        Stores after names positions) ∧
      (names.Nodup → ∀ nodes : Name → Node, Stores { after with node := nodes } names positions →
        StepsByPosition { after with node := nodes } names) := by
  intro names
  have run : (additions.mapM add).run { node, parent? } =
      (countsBefore parent? names, additions.foldl Roster.enter { node, parent? }) :=
    (lists_nil node parent?).run_mapM_add additions
  have lists : Lists (additions.foldl Roster.enter { node, parent? }) names :=
    (lists_nil node parent?).foldl_enter additions
  have parents : (additions.foldl Roster.enter { node, parent? }).parent? = parent? :=
    parent?_foldl_enter { node, parent? } additions
  refine ⟨_, _, run, parents, rfl, by rw [Sequence.iterate_eq, lists.entries], ?_, ?_⟩
  · intro once stores
    have numbers : Numbers (additions.foldl Roster.enter { node, parent? }) names :=
      (numbers_nil node parent?).foldl_enter additions once stores
    have stored := numbers.stores once
    rwa [parents] at stored
  · intro once nodes stored
    -- The table does not read what nodes carry, so it lists the same nodes whatever
    -- they store.
    have relisted :
        Lists { additions.foldl Roster.enter { node, parent? } with node := nodes } names :=
      ⟨lists.entries, lists.group⟩
    exact (relisted.numbers (by rwa [parents])).stepsByPosition once

/-- Nodes below two parents, and others below none. -/
def mingledParent? : Nat → Option Nat
  | 1 | 3 | 6 => some 0
  | 4 => some 9
  | _ => none

/-- Additions to three groups by turns, all of which store their positions. -/
def mingledAdditions : List (Addition Nat) :=
  [1, 2, 3, 4, 5, 6].map fun name => ⟨name, true⟩

/-- A step passes over the nodes of other groups; it leads nowhere from the first node
of a group backward, as from the last one forward. -/
theorem additions_consistent_mingled :
    ∃ positions after,
      (mingledAdditions.mapM add).run
          { node := fun _ => { kind := .listItem }, parent? := mingledParent? } =
        (positions, after) ∧
      positions = [0, 0, 1, 0, 1, 2] ∧
      Sequence.iterate after.table.entries = [1, 2, 3, 4, 5, 6] ∧
      (mingledAdditions.map (·.name)).Nodup ∧
      (∀ addition ∈ mingledAdditions, addition.stores = true) ∧
      Stores after [1, 2, 3, 4, 5, 6] positions ∧
      after.relative 1 2 = .ok (some 6) ∧
      after.relative 5 (-1) = .ok (some 2) ∧
      after.relative 1 (-1) = .ok none ∧
      after.relative 6 1 = .ok none := by
  obtain ⟨positions, after, run, parents, counted, listed, storing, stepping⟩ :=
    additions_consistent (fun _ => { kind := .listItem }) mingledParent? mingledAdditions
  have counts : positions = [0, 0, 1, 0, 1, 2] := counted.trans (by decide)
  have stored := storing (by decide) (by decide)
  have steps : StepsByPosition after [1, 2, 3, 4, 5, 6] := stepping (by decide) after.node stored
  subst counts
  obtain ⟨first, second, third, -, fifth, sixth⟩ :
      after.positionOf? 1 = some 0 ∧ after.positionOf? 2 = some 0 ∧ after.positionOf? 3 = some 1 ∧
        after.positionOf? 4 = some 0 ∧ after.positionOf? 5 = some 1 ∧
        after.positionOf? 6 = some 2 := by
    simpa [Stores, mingledAdditions] using stored
  refine ⟨_, after, run, rfl, listed, by decide, by decide, stored, ?_, ?_, ?_, ?_⟩
  · exact (steps.leads 1 (by decide) 2 6).mpr ⟨by decide, by rw [parents]; rfl, 0, first, sixth⟩
  · exact (steps.leads 5 (by decide) (-1) 2).mpr ⟨by decide, by rw [parents]; rfl, 1, fifth, second⟩
  · exact steps.before 1 (by decide) 0 (-1) first (by decide)
  · refine steps.nowhere 6 (by decide) 1 ?_
    simp [parents, mingledParent?, first, third, sixth]

end Roster

end Galley
