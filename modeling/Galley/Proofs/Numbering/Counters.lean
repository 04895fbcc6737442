import Galley.Numbering.Pass
import Galley.Proofs.Text.Digits
import Mathlib.Data.List.Induction
import Mathlib.Data.List.Lex

/-!
# What the counters count

The stack of counters after a run of headings is a count over the levels of all of them:
each depth counts the headings of its level since the last heading of a smaller level.
Every heading moves the stack forward in the lexicographic order, so no two headings of
a run leave the same stack; and the leading zeros of a stack tell the smallest level of
the run.
-/

namespace Galley
namespace Numbering

/-- The counters after headings of some levels. -/
def counted (levels : List Nat) : List Nat :=
  levels.foldl advance []

/-- How many headings have a level since the last heading of a smaller level. -/
def countSince (levels : List Nat) (depth : Nat) : Nat :=
  (levels.reverse.takeWhile fun level => depth ≤ level).count depth

/-- For the last heading of a run, at each depth down to its own: how many headings have
that level since the last heading of a smaller level. -/
def sectionCounts (levels : List Nat) : List Nat :=
  (List.range (levels.getLast?.getD 0)).map fun index => countSince levels (index + 1)

@[simp] theorem counted_nil : counted [] = [] := rfl

@[simp] theorem counted_append_singleton (levels : List Nat) (depth : Nat) :
    counted (levels ++ [depth]) = advance (counted levels) depth := by
  simp [counted]

theorem countSince_append_singleton (levels : List Nat) (last depth : Nat) :
    countSince (levels ++ [last]) depth =
      if depth ≤ last then countSince levels depth + if last = depth then 1 else 0 else 0 := by
  unfold countSince
  rw [List.reverse_append, List.reverse_singleton, List.singleton_append, List.takeWhile_cons]
  by_cases inside : depth ≤ last
  · simp [inside, List.count_cons]
  · simp [inside]

/-! ## One heading -/

theorem length_advance (counters : List Nat) {depth : Nat} (positive : 0 < depth) :
    (advance counters depth).length = depth := by
  simp only [advance, List.length_append, List.length_take, List.length_replicate,
    List.length_singleton]
  omega

/-- A heading keeps the counts of smaller depths, adds one at its own and drops the
larger ones. -/
theorem getD_advance (counters : List Nat) {depth : Nat} (positive : 0 < depth) (index : Nat) :
    ((advance counters depth)[index]?).getD 0 =
      if index + 1 ≤ depth then
        (counters[index]?).getD 0 + if depth = index + 1 then 1 else 0
      else 0 := by
  have length := length_advance counters positive
  rcases Nat.lt_trichotomy (index + 1) depth with before | same | behind
  · have start : index < depth - 1 := by omega
    rw [if_pos (by omega), if_neg (by omega), Nat.add_zero, advance, List.append_assoc]
    by_cases present : index < counters.length
    · rw [List.getElem?_append_left (by simp; omega), List.getElem?_take_of_lt start]
    · have missing : counters[index]? = none := List.getElem?_eq_none (by omega)
      rw [List.getElem?_append_right (by simp; omega),
        List.getElem?_append_left (by simp; omega), List.getElem?_replicate, missing]
      split <;> rfl
  · subst same
    have before : (counters.take (index + 1 - 1) ++ List.replicate (index + 1 - 1 -
        (counters.take (index + 1 - 1)).length) 0).length = index := by
      rw [List.length_append, List.length_replicate, List.length_take]
      omega
    rw [if_pos (Nat.le_refl _), if_pos rfl, advance,
      List.getElem?_append_right (Nat.le_of_eq before), before]
    simp
  · rw [if_neg (by omega), List.getElem?_eq_none (by omega), Option.getD_none]

/-- Every heading moves the counters forward. -/
theorem lt_advance (counters : List Nat) {depth : Nat} (positive : 0 < depth) :
    counters < advance counters depth := by
  suffices behind : counters.take (depth - 1) ++ counters.drop (depth - 1) <
      advance counters depth by
    rwa [List.take_append_drop] at behind
  rw [advance, List.append_assoc]
  refine List.append_left_lt ?_
  by_cases present : depth - 1 < counters.length
  · have full : depth - 1 - (counters.take (depth - 1)).length = 0 := by simp; omega
    rw [full, List.replicate_zero, List.nil_append, List.drop_eq_getElem_cons present,
      List.getElem?_eq_getElem present]
    exact List.Lex.rel (Nat.lt_succ_self _)
  · rw [List.drop_eq_nil_of_le (by omega)]
    cases found : List.replicate (depth - 1 - (counters.take (depth - 1)).length) 0 ++
        [(counters[depth - 1]?).getD 0 + 1] with
    | nil => simp at found
    | cons first rest => exact List.Lex.nil

/-! ## A run of headings -/

/-- The counters are the counts since the last smaller level. -/
theorem getD_counted {levels : List Nat} (positive : ∀ level ∈ levels, 0 < level) (index : Nat) :
    ((counted levels)[index]?).getD 0 = countSince levels (index + 1) := by
  induction levels using List.reverseRecOn with
  | nil => rfl
  | append_singleton levels last inductionHypothesis =>
      have before := inductionHypothesis fun level present => positive level (by simp [present])
      rw [counted_append_singleton, getD_advance _ (positive last (by simp)), before,
        countSince_append_singleton]

/-- There are as many counters as the level of the last heading. -/
theorem length_counted {levels : List Nat} (positive : ∀ level ∈ levels, 0 < level) :
    (counted levels).length = levels.getLast?.getD 0 := by
  cases levels using List.reverseRecOn with
  | nil => rfl
  | append_singleton levels last =>
      rw [counted_append_singleton, length_advance _ (positive last (by simp)),
        List.getLast?_concat, Option.getD_some]

/-- The counters after a run are the counts at each depth down to that of the last
heading. -/
theorem counted_eq_sectionCounts {levels : List Nat} (positive : ∀ level ∈ levels, 0 < level) :
    counted levels = sectionCounts levels := by
  refine List.ext_getElem
    (by rw [length_counted positive, sectionCounts, List.length_map, List.length_range])
    fun index present _ => ?_
  have count := getD_counted positive index
  rw [List.getElem?_eq_getElem present, Option.getD_some] at count
  simp only [sectionCounts, List.getElem_map, List.getElem_range, count]

/-- More headings lead to larger counters. -/
theorem counted_lt {levels more : List Nat} (positive : ∀ level ∈ levels ++ more, 0 < level)
    (some : more ≠ []) : counted levels < counted (levels ++ more) := by
  induction more using List.reverseRecOn with
  | nil => contradiction
  | append_singleton more last inductionHypothesis =>
      have step := lt_advance (counted (levels ++ more)) (positive last (by simp))
      rw [← List.append_assoc, counted_append_singleton]
      by_cases none : more = []
      · subst none
        simpa using step
      · refine lt_trans (inductionHypothesis (fun level present => positive level ?_) none) step
        rw [← List.append_assoc]
        exact List.mem_append_left _ present

/-! ## Leading zeros -/

/-- The counters begin with as many zeros as there are levels above all headings of the
run. -/
def Leads (counters : List Nat) (outermost : Nat) : Prop :=
  ∃ count rest, counters = List.replicate (outermost - 1) 0 ++ (count + 1) :: rest

theorem leads_advance_nil {depth : Nat} : Leads (advance [] depth) depth :=
  ⟨0, [], by simp [advance]⟩

theorem leads_advance {counters : List Nat} {outermost depth : Nat}
    (leads : Leads counters outermost) (positive : 0 < outermost) (depthPositive : 0 < depth) :
    Leads (advance counters depth) (min outermost depth) := by
  obtain ⟨count, rest, rfl⟩ := leads
  rcases Nat.lt_trichotomy depth outermost with above | same | below
  · refine ⟨0, [], ?_⟩
    have shorter : depth - 1 < outermost - 1 := by omega
    rw [Nat.min_eq_right (by omega), advance, List.take_append_of_le_length (by simp; omega),
      List.getElem?_append_left (by simp; omega)]
    simp [Nat.min_eq_left (Nat.le_of_lt shorter), shorter]
  · subst same
    refine ⟨count + 1, [], ?_⟩
    rw [Nat.min_self, advance, List.take_append_of_le_length (by simp),
      List.getElem?_append_right (by simp)]
    simp
  · obtain ⟨more, rfl⟩ : ∃ more, depth = outermost + 1 + more := ⟨depth - outermost - 1, by omega⟩
    have beyond : outermost + 1 + more - 1 = (outermost - 1) + (more + 1) := by omega
    rw [Nat.min_eq_left (by omega), advance, beyond, List.take_append]
    simp only [List.length_replicate, Nat.add_sub_cancel_left, List.take_succ_cons]
    rw [List.take_of_length_le (by simp), List.append_assoc, List.append_assoc, List.cons_append]
    exact ⟨count, _, rfl⟩

/-- The leading zeros of the counters tell the smallest level of a run. -/
theorem exists_leads {levels : List Nat} (positive : ∀ level ∈ levels, 0 < level)
    (some : levels ≠ []) :
    ∃ outermost ∈ levels, (∀ level ∈ levels, outermost ≤ level) ∧
      Leads (counted levels) outermost := by
  induction levels using List.reverseRecOn with
  | nil => contradiction
  | append_singleton levels last inductionHypothesis =>
      have before := fun level (present : level ∈ levels) => positive level (by simp [present])
      rw [counted_append_singleton]
      by_cases none : levels = []
      · subst none
        exact ⟨last, by simp, by simp, leads_advance_nil⟩
      · obtain ⟨former, member, least, leads⟩ := inductionHypothesis before none
        refine ⟨min former last, ?_, fun level present => ?_,
          leads_advance leads (before former member) (positive last (by simp))⟩
        · rcases Nat.le_total former last with le | le <;> simp [le, member]
        · rcases List.mem_append.mp present with early | late
          · exact Nat.le_trans (Nat.min_le_left _ _) (least level early)
          · obtain rfl := List.mem_singleton.mp late
            exact Nat.min_le_right _ _

/-- Counters are their leading zeros and what follows these. -/
theorem Leads.parts {counters : List Nat} {outermost : Nat} (leads : Leads counters outermost) :
    counters.dropWhile (· == 0) ≠ [] ∧
      counters = List.replicate (outermost - 1) 0 ++ counters.dropWhile (· == 0) := by
  obtain ⟨count, rest, rfl⟩ := leads
  have dropped : (List.replicate (outermost - 1) 0 ++ (count + 1) :: rest).dropWhile (· == 0) =
      (count + 1) :: rest := by
    rw [List.dropWhile_append_of_pos (by simp)]
    simp
  exact ⟨by simp [dropped], by rw [dropped]⟩

/-! ## Section numbers -/

/-- Numbers with dots between them can be read back. -/
theorem dotted_injective {first second : List Nat} (some : first ≠ []) (some' : second ≠ [])
    (same : ".".intercalate (first.map toString) = ".".intercalate (second.map toString)) :
    first = second := by
  have apart (numbers : List Nat) :
      ∀ text ∈ (numbers.map toString).map String.toList, '.' ∉ text := by
    intro text present dot
    obtain ⟨_, listed, rfl⟩ := List.mem_map.mp present
    obtain ⟨number, -, rfl⟩ := List.mem_map.mp listed
    have digits : '.' ∈ Nat.toDigits 10 number := by simpa [Nat.repr] using dot
    exact absurd (Nat.isDigit_of_mem_toDigits (by decide) (by decide) digits) (by decide)
  have split (numbers : List Nat) (present : numbers ≠ []) :
      ((".".intercalate (numbers.map toString)).toList).splitOn '.' =
        (numbers.map toString).map String.toList := by
    rw [String.toList_intercalate]
    exact List.splitOn_intercalate '.' (apart numbers) (by simpa using present)
  have pieces := split first some
  rw [same, split second some', List.map_map, List.map_map] at pieces
  have distinct : Function.Injective fun number : Nat => (toString number).toList :=
    fun _ _ equal => Text.toString_injective (String.toList_injective equal)
  exact List.map_injective_iff.mpr distinct pieces.symm

/-- Of counters that make one section number, those with more leading zeros are longer. -/
theorem Leads.eq_of_sectionNumber {counters other : List Nat} {outermost outermost' : Nat}
    (leads : Leads counters outermost) (otherLeads : Leads other outermost')
    (same : sectionNumber counters = sectionNumber other) (above : outermost' ≤ outermost)
    (near : counters.length ≤ other.length ∨ outermost ≤ outermost') : counters = other := by
  obtain ⟨some, parts⟩ := leads.parts
  obtain ⟨some', parts'⟩ := otherLeads.parts
  have rest := dotted_injective some some' same
  have length := congrArg List.length parts
  have length' := congrArg List.length parts'
  rw [List.length_append, List.length_replicate] at length length'
  rw [← rest] at length'
  have zeros : outermost - 1 = outermost' - 1 := by omega
  rw [parts, parts', rest, zeros]

end Numbering
end Galley
