import Galley.Proofs.Numbering.Positions

/-!
# Marks of list items

What the mark and the chain of a list item mean: a mark of the reader is kept, an item
of an ordered list takes the ordinal of its position in the style of its depth, and the
chain is made of the marks of the items around it.
-/

namespace Galley
namespace Numbering

/-- The mark that the reader supplied for an item. -/
def suppliedMark? (given : Node) : Option String :=
  match given.payload with
  | .item marks => some marks.mark
  | .data (.text mark) => if mark = "" then none else some mark
  | _ => none

/-- An item has no payload and stands directly under an ordered list of the tree. -/
def Counted (tree : Node) (path : Path) (given list : Node) : Prop :=
  given.payload = .none ∧ parentAt? tree path = some list ∧ list.kind = .orderedList

/-- The styles of ordered items by the number of ordered lists around them, over and
over. -/
def styles : List MarkStyle := [.decimal, .lowerAlpha, .upperAlpha]

/-- The number of ordered lists around a path. -/
def orderedAbove (tree : Node) (path : Path) : Nat :=
  (tree.ancestorsAt path).countP fun node => node.kind == .orderedList

/-- An item of an annotated tree is marked as the given item at the same path means it. -/
structure ItemMeaning (tree : Node) (path : Path) (given now : Node) : Prop where
  /-- A supplied mark is the mark. -/
  supplied : ∀ mark, suppliedMark? given = some mark → openedMark? now = some mark
  /-- An item that is counted has the ordinal of its position, from the start of its
  list on, in the style of its depth. -/
  ordinal : ∀ list, Counted tree path given list →
    ∃ start style, (list.options.getD "start" (.int 1)).toInteger = .ok start ∧
      styles[(orderedAbove tree path - 1) % 3]? = some style ∧
      openedMark? now = some (Ordinal.format (start + siblingsBefore tree .listItem path) style)
  /-- Every other item stays as it is, without a mark. -/
  unmarked : suppliedMark? given = none → (∀ list, ¬ Counted tree path given list) →
    openedMark? now = none ∧ now.payload = given.payload
  /-- The chain is made of the marks of the items around the item, outermost first, and
  its own. -/
  chain : ∀ mark, openedMark? now = some mark → given.fullMark? = none →
    now.fullMark? = some (".".intercalate (marksAbove tree path ++ [mark]))
  /-- A supplied chain is kept. -/
  kept : ∀ whole, given.fullMark? = some whole → now.fullMark? = some whole

/-! ## Making marks -/

/-- Making the mark of an item leaves its chain as it was supplied. -/
theorem fullMark?_itemPayload
    {payload made : Payload} {place : Place} {position : Nat}
    (returned : itemPayload payload place position = .ok made) :
    made.fullMark? = payload.fullMark? := by
  unfold itemPayload at returned
  split at returned
  · obtain rfl := Except.ok.inj returned
    split <;> rfl
  · split at returned
    · split at returned
      · obtain ⟨start, -, marked⟩ := exists_of_bind_eq_ok returned
        obtain rfl := Except.ok.inj marked
        rfl
      · obtain rfl := Except.ok.inj returned
        rfl
    · obtain rfl := Except.ok.inj returned
      rfl
  · obtain rfl := Except.ok.inj returned
    rfl

/-- A supplied mark becomes the mark of the item. -/
theorem itemPayload_of_supplied
    {given : Node} {made : Payload} {place : Place} {position : Nat} {mark : String}
    (supplied : suppliedMark? given = some mark)
    (returned : itemPayload given.payload place position = .ok made) :
    ∃ marks, made = .item marks ∧ marks.mark = mark := by
  unfold suppliedMark? at supplied
  split at supplied
  · rename_i marks carried
    rw [carried] at returned
    exact ⟨marks, (Except.ok.inj returned).symm, Option.some.inj supplied⟩
  · rename_i text carried
    split at supplied
    · cases supplied
    · rename_i shown
      obtain rfl := Option.some.inj supplied
      rw [carried] at returned
      refine ⟨{ mark := text }, (Except.ok.inj returned).symm.trans ?_, rfl⟩
      rw [if_neg (by simpa using shown)]
  · cases supplied

/-- An item without payload under an ordered list is counted. -/
theorem itemPayload_of_ordered
    {made : Payload} {place : Place} {position : Nat} {list : Node}
    (above : place.parent? = some list)
    (ordered : list.kind = .orderedList)
    (returned : itemPayload .none place position = .ok made) :
    ∃ start, (list.options.getD "start" (.int 1)).toInteger = .ok start ∧
      made = .item
        { mark := Ordinal.format (start + position) (.atDepth (orderedDepth place - 1)) } := by
  simp only [itemPayload, Payload.none, above, ordered, beq_self_eq_true, if_true] at returned
  obtain ⟨start, read, marked⟩ := exists_of_bind_eq_ok returned
  exact ⟨start, read, (Except.ok.inj marked).symm⟩

/-- Nothing else is marked. -/
theorem itemPayload_of_unmarked
    {given : Node} {made : Payload} {place : Place} {position : Nat}
    (unsupplied : suppliedMark? given = none)
    (uncounted : given.payload = .none → ∀ list, place.parent? = some list →
      list.kind ≠ .orderedList)
    (returned : itemPayload given.payload place position = .ok made) :
    made = given.payload := by
  unfold itemPayload at returned
  split at returned
  · rename_i text carried
    have blank : text = "" := by simpa [suppliedMark?, carried] using unsupplied
    rw [if_pos (by simp [blank])] at returned
    exact (Except.ok.inj returned).symm
  · rename_i carried
    split at returned
    · rename_i list above
      rw [if_neg (by simpa using uncounted carried list above)] at returned
      exact (Except.ok.inj returned).symm
    · exact (Except.ok.inj returned).symm
  · exact (Except.ok.inj returned).symm

/-- A mark is completed by the open marks unless its chain was supplied. -/
theorem chainMarks_item (opened : List String) (marks : ItemMark) :
    chainMarks opened (.item marks) =
      .item { marks with
        fullMark := some (marks.fullMark.getD (".".intercalate (opened ++ [marks.mark]))) } := by
  obtain ⟨mark, fullMark⟩ := marks
  cases fullMark <;> rfl

theorem chainMarks_of_not_item
    {payload : Payload}
    (opened : List String)
    (bare : ∀ marks, payload ≠ .item marks) :
    chainMarks opened payload = payload := by
  cases payload with
  | item marks => exact absurd rfl (bare marks)
  | data | heading => rfl

theorem openedMark?_eq_none {node : Node} (bare : ∀ marks, node.payload ≠ .item marks) :
    openedMark? node = none := by
  unfold openedMark?
  split
  · rename_i marks _ carried
    exact absurd carried (bare marks)
  · rfl

section Chained

variable {now : Node} {opened : List String} {payload : Payload}
  (final : now.payload = chainMarks opened payload)

include final

/-- What is not marked stays without a mark. -/
theorem openedMark?_of_bare (bare : ∀ marks, payload ≠ .item marks) :
    openedMark? now = none ∧ now.payload = payload := by
  rw [chainMarks_of_not_item _ bare] at final
  exact ⟨openedMark?_eq_none fun marks carried => bare marks (final.symm.trans carried), final⟩

theorem openedMark?_of_item (item : now.kind = .listItem) {marks : ItemMark}
    (same : payload = .item marks) : openedMark? now = some marks.mark := by
  rw [same, chainMarks_item] at final
  simp [openedMark?, item, final]

/-- The chain of a marked item is the supplied one, or it is made of the open marks and
its own. -/
theorem fullMark?_of_openedMark? (item : now.kind = .listItem) :
    now.fullMark? = (openedMark? now).elim payload.fullMark? fun mark =>
      some (payload.fullMark?.getD (".".intercalate (opened ++ [mark]))) := by
  by_cases bare : ∀ marks, payload ≠ .item marks
  · obtain ⟨none, same⟩ := openedMark?_of_bare final bare
    rw [none, Option.elim_none, Node.fullMark?, same]
  · obtain ⟨marks, same⟩ := not_forall_not.mp bare
    rw [openedMark?_of_item final item same, Option.elim_some, Node.fullMark?, final, same,
      chainMarks_item]
    rfl

end Chained

/-- The styles are taken in turn. -/
theorem getElem?_styles (depth : Nat) : styles[depth % 3]? = some (.atDepth depth) := by
  have bound : depth % 3 < 3 := Nat.mod_lt _ (by decide)
  unfold MarkStyle.atDepth
  generalize depth % 3 = remainder at bound
  match remainder, bound with
  | 0, _ => rfl
  | 1, _ => rfl
  | 2, _ => rfl

/-! ## Items of a numbered tree -/

/-- The place of a node knows the node above it. -/
theorem parent?_ofPath {tree node : Node} {path : Path} (found : tree.at? path = some node) :
    (Place.ofPath tree path).parent? = parentAt? tree path := by
  rcases List.eq_nil_or_concat' path with rfl | ⟨scope, index, rfl⟩
  · rfl
  · obtain ⟨parent, above, member⟩ := Node.exists_parent_of_at? found
    rw [Place.ofPath_append_singleton above member, Place.parent?_enter rfl]
    simp [parentAt?, Path.parent?, above]

section Items

variable {tree : Node} {numbered : Numbered} (returned : (resolve tree).1 = .ok numbered)

include returned

/-- As many ordered lists are around a path of the given tree. -/
theorem orderedDepth_eq_orderedAbove (path : Path) :
    orderedDepth (Place.ofPath tree path) = orderedAbove numbered.tree path := by
  have kinds := (resolve_becomes returned).map_ancestorsAt
    (fun path given now (becomes : Becomes _ _ given now) => becomes.kind) path
  have counted (ancestors : List Node) :
      (ancestors.countP fun node => node.kind == .orderedList) =
        (ancestors.map Node.kind).countP fun kind => kind == .orderedList := by
    rw [List.countP_map]
    rfl
  rw [orderedDepth, orderedAbove, counted, counted, kinds, Place.ofPath]

/-- The node above a path of the numbered tree comes from the node above it in the given
tree. -/
theorem exists_given_parentAt?
    {path : Path} {now : Node}
    (found : parentAt? numbered.tree path = some now) :
    ∃ given, parentAt? tree path = some given ∧ now.kind = given.kind ∧
      (given.kind = .orderedList → now.options = given.options) := by
  obtain ⟨scope, above, there⟩ := Option.bind_eq_some_iff.mp found
  obtain ⟨given, same, becomes⟩ := (resolve_becomes returned).exists_given there
  refine ⟨given, by simp [parentAt?, above, same], becomes.kind, fun ordered => ?_⟩
  exact becomes.options (by simp [ordered]) (by simp [ordered])

/-- Nothing is above a path of the given tree that is not above it in the numbered
tree. -/
theorem exists_now_parentAt?
    {path : Path} {given : Node}
    (found : parentAt? tree path = some given) :
    ∃ now, parentAt? numbered.tree path = some now ∧ now.kind = given.kind := by
  obtain ⟨scope, above, there⟩ := Option.bind_eq_some_iff.mp found
  obtain ⟨now, same, becomes⟩ := (resolve_becomes returned).exists_now there
  exact ⟨now, by simp [parentAt?, above, same], becomes.kind⟩

/-- The marks and chains of the items of a numbered tree mean what the given items say. -/
theorem resolve_itemMeaning
    {path : Path} {now : Node}
    (found : numbered.tree.at? path = some now)
    (item : now.kind = .listItem) :
    ∃ given, tree.at? path = some given ∧ ItemMeaning numbered.tree path given now := by
  obtain ⟨given, there, becomes⟩ := (resolve_becomes returned).exists_given found
  obtain ⟨position, payload, positioned, made, final⟩ := becomes.item (becomes.kind ▸ item)
  have tabulated := resolve_tabulated returned
  obtain rfl : position = siblingsBefore numbered.tree .listItem path := by
    have place := position?_eq_siblingsBefore tabulated.items tabulated.itemPositions found item
    exact Int.ofNat_inj.mp (Datum.int.inj (Option.some.inj (positioned.symm.trans place)))
  have above := parent?_ofPath there
  -- The chain is told from the mark that the item ends up with, however it came by it.
  have whole := fullMark?_of_openedMark? final item
  have kept : payload.fullMark? = given.fullMark? := fullMark?_itemPayload made
  rw [kept] at whole
  refine ⟨given, there, ?_, ?_, ?_, ?_, ?_⟩
  · intro mark supplied
    obtain ⟨marks, same, rfl⟩ := itemPayload_of_supplied supplied made
    exact openedMark?_of_item final item same
  · rintro list ⟨nothing, directly, ordered⟩
    obtain ⟨givenList, givenAbove, kind, options⟩ := exists_given_parentAt? returned directly
    have givenOrdered := kind.symm.trans ordered
    rw [nothing] at made
    obtain ⟨start, read, same⟩ := itemPayload_of_ordered (above.trans givenAbove) givenOrdered made
    rw [options givenOrdered, ← orderedDepth_eq_orderedAbove returned]
    exact ⟨start, _, read, getElem?_styles _, openedMark?_of_item final item same⟩
  · intro unsupplied uncounted
    have same : payload = given.payload := by
      refine itemPayload_of_unmarked unsupplied (fun nothing list directly ordered => ?_) made
      obtain ⟨nowList, nowAbove, kind⟩ := exists_now_parentAt? returned (above.symm.trans directly)
      exact uncounted nowList ⟨nothing, nowAbove, kind.trans ordered⟩
    have bare (marks : ItemMark) : payload ≠ .item marks := by
      rintro rfl
      simp [suppliedMark?, ← same] at unsupplied
    exact same ▸ openedMark?_of_bare final bare
  · intro mark carried unsupplied
    rw [whole, carried, unsupplied]
    rfl
  · intro chain supplied
    rw [whole, supplied]
    cases openedMark? now <;> rfl

end Items

/-- The second of the items that start at three inside an ordered item has the fourth
letter, behind the mark of the item around it. -/
theorem resolve_itemMeaning_nestedItems :
    (resolve nestedItems).1 = .ok nestedItemsNumbered ∧
      ∃ now, nestedItemsNumbered.tree.at? [0, 0, 0, 1] = some now ∧
        openedMark? now = some (Ordinal.format 4 .lowerAlpha) ∧
        now.fullMark? = some (".".intercalate ["1", Ordinal.format 4 .lowerAlpha]) := by
  obtain ⟨given, there, meaning⟩ := resolve_itemMeaning resolve_nestedItems
    (rfl : nestedItemsNumbered.tree.at? [0, 0, 0, 1] = some _) rfl
  obtain rfl := Option.some.inj there
  obtain ⟨start, style, read, taken, marked⟩ := meaning.ordinal _ ⟨rfl, rfl, rfl⟩
  obtain rfl := Except.ok.inj read
  obtain rfl := Option.some.inj taken
  exact ⟨resolve_nestedItems, _, rfl, marked, meaning.chain _ marked rfl⟩

end Numbering
end Galley
