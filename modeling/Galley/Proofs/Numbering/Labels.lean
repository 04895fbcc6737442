import Galley.Proofs.Numbering.Positions

/-!
# The label table

The label table holds the declarations of the tree, read in document order: each
declared name once, with the node of its last declaration.
-/

namespace Galley
namespace Numbering

/-- The label table of a numbered tree holds the last declarations of a tree. -/
structure Labelled (tree : Node) (numbered : Numbered) : Prop where
  /-- The keys are the declared names. -/
  declared : ∀ name, name ∈ numbered.labels.map (·.1) ↔
    ∃ path, (name, path) ∈ declarations tree
  /-- No key is repeated. -/
  distinct : (numbered.labels.map (·.1)).Nodup
  /-- A name leads to the node of its last declaration. -/
  last : ∀ name, numbered.labels.lookup name = lastDeclared? tree name
  /-- That is a node of the numbered tree, and the mark found for the name is the mark
  of the node. -/
  found : ∀ name path, numbered.labels.lookup name = some path →
    ∃ now, numbered.tree.at? path = some now ∧ numbered.markAt? path = now.fullMark?

/-! ## Keys -/

/-- Declaring a name adds it to the keys unless it is one. -/
theorem map_fst_declare (table : LabelTable) (label : String) (path : Path) :
    (table.declare label path).map (·.1) =
      if label ∈ table.map (·.1) then table.map (·.1) else table.map (·.1) ++ [label] := by
  induction table with
  | nil => simp [LabelTable.declare]
  | cons entry rest inductionHypothesis =>
      obtain ⟨known, place⟩ := entry
      by_cases same : known = label
      · simp [LabelTable.declare, same]
      · have apart : label ≠ known := Ne.symm same
        simp only [LabelTable.declare, same, if_false, List.map_cons, inductionHypothesis,
          List.mem_cons, apart, false_or]
        split <;> simp

theorem mem_map_fst_declareAll
    (table : LabelTable) (declared : List (String × Path)) (name : String) :
    name ∈ (table.declareAll declared).map (·.1) ↔
      name ∈ table.map (·.1) ∨ name ∈ declared.map (·.1) := by
  induction declared generalizing table with
  | nil => simp
  | cons entry rest inductionHypothesis =>
      have unfolded : table.declareAll (entry :: rest) =
          (table.declare entry.1 entry.2).declareAll rest := rfl
      rw [unfolded, inductionHypothesis, map_fst_declare, List.map_cons, List.mem_cons, ← or_assoc]
      refine or_congr_left ?_
      split
      · rename_i present
        refine ⟨Or.inl, ?_⟩
        rintro (known | rfl)
        · exact known
        · exact present
      · rw [List.mem_append, List.mem_singleton]

theorem nodup_declareAll
    {table : LabelTable} (declared : List (String × Path))
    (distinct : (table.map (·.1)).Nodup) :
    ((table.declareAll declared).map (·.1)).Nodup := by
  induction declared generalizing table with
  | nil => exact distinct
  | cons entry rest inductionHypothesis =>
      change (((table.declare entry.1 entry.2).declareAll rest).map (·.1)).Nodup
      refine inductionHypothesis ?_
      rw [map_fst_declare]
      split
      · exact distinct
      · rename_i fresh
        exact distinct.append (List.nodup_singleton _) (List.disjoint_singleton.mpr fresh)

/-! ## Declarations -/

/-- A name that is looked up stands in the list. -/
theorem mem_of_lookup_eq_some
    {entries : List (String × Path)} {name : String} {path : Path}
    (found : entries.lookup name = some path) :
    (name, path) ∈ entries := by
  obtain ⟨before, after, rfl, -⟩ := List.lookup_eq_some_iff.mp found
  simp

/-- Declarations are for nodes of the tree. -/
theorem exists_of_mem_declarations
    {tree : Node} {name : String} {path : Path}
    (present : (name, path) ∈ declarations tree) :
    ∃ node, tree.at? path = some node := by
  obtain ⟨⟨place, node⟩, listed, declares⟩ := List.mem_filterMap.mp present
  obtain ⟨_, rfl, found⟩ := Node.mem_located_iff.mp listed
  dsimp only [declaration?] at declares
  have itself (own : (node.label?.map fun label => (label, place)) = some (name, path)) :
      ∃ node, tree.at? path = some node := by
    obtain ⟨label, -, same⟩ := Option.map_eq_some_iff.mp own
    obtain ⟨-, rfl⟩ := Prod.mk.inj same
    exact ⟨node, found⟩
  split at declares
  · exact itself declares
  · exact itself declares
  · split at declares
    · obtain ⟨target, around, same⟩ := Option.map_eq_some_iff.mp declares
      obtain ⟨-, rfl⟩ := Prod.mk.inj same
      rcases Option.or_eq_some_iff.mp around with nearest | ⟨-, parent⟩
      · obtain ⟨above, there, -⟩ := exists_of_nearestAbove nearest
        exact ⟨above, there⟩
      · rcases List.eq_nil_or_concat' place with rfl | ⟨scope, index, rfl⟩
        · cases parent
        · obtain ⟨above, there, -⟩ := Node.exists_parent_of_at? found
          obtain rfl : scope = target := by simpa [Path.parent?] using parent
          exact ⟨above, there⟩
    · cases declares
  · cases declares

section Labels

variable {tree : Node} {numbered : Numbered} (returned : (resolve tree).1 = .ok numbered)

include returned

/-- The nodes around a path have the same kinds in both trees. -/
theorem nearestAbove_numbered (kinds : List Kind) (path : Path) :
    nearestAbove numbered.tree kinds path = nearestAbove tree kinds path := by
  unfold nearestAbove
  congr 1
  funext above
  have both := resolve_becomes returned above
  cases given : tree.at? above <;> cases now : numbered.tree.at? above <;>
    simp only [given, now, Option.rel_some_some, Option.not_rel_some_none,
      Option.not_rel_none_some] at both
  · rfl
  · rw [Option.any_some, Option.any_some, both.kind]

/-- The numbered tree declares what the given tree declares. -/
theorem declarations_numbered : declarations numbered.tree = declarations tree := by
  refine (resolve_becomes returned).filterMap_located fun path given now becomes => ?_
  dsimp only [declaration?]
  rw [becomes.kind, becomes.label, nearestAbove_numbered returned]
  split
  · rfl
  · rfl
  · rename_i label
    rw [becomes.payload (by simp [label]) (by simp [label])]
  · rfl

/-- The label table holds exactly the last declarations of the tree. -/
theorem resolve_labelled : Labelled tree numbered := by
  have table := (resolve_tabulated returned).labels
  rw [declarations_numbered returned] at table
  have last (name : String) : numbered.labels.lookup name = lastDeclared? tree name := by
    rw [table, lookup_declareAll]
    simp [lastDeclared?]
  refine ⟨fun name => ?_, ?_, last, fun name path found => ?_⟩
  · rw [table, mem_map_fst_declareAll]
    simp
  · rw [table]
    exact nodup_declareAll _ List.nodup_nil
  · have declared := mem_of_lookup_eq_some ((last name).symm.trans found)
    obtain ⟨given, there⟩ := exists_of_mem_declarations (List.mem_reverse.mp declared)
    obtain ⟨now, here, -⟩ := (resolve_becomes returned).exists_now there
    exact ⟨now, here, by rw [Numbered.markAt?, here, Option.bind_some]⟩

end Labels

/-- Two of the names in the nested items are declared twice: the heading declares one of
them again behind the item that holds a label node, and a label under the root declares
its name for the root. -/
theorem resolve_labelled_nestedItems :
    (resolve nestedItems).1 = .ok nestedItemsNumbered ∧
      declarations nestedItems =
        [("a", [0, 0]), ("b", [0, 0, 0, 1]), ("a", [0, 1, 0, 0]), ("b", [1]), ("c", [])] ∧
      nestedItemsNumbered.labels.lookup "b" = some [1] ∧
      nestedItemsNumbered.labels.lookup "c" = some [] := by
  have labelled := resolve_labelled resolve_nestedItems
  exact ⟨resolve_nestedItems, by decide, (labelled.last "b").trans (by decide),
    (labelled.last "c").trans (by decide)⟩

end Numbering
end Galley
