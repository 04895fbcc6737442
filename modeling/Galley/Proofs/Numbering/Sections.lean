import Galley.Proofs.Numbering.Counters
import Galley.Proofs.Numbering.Visit

/-!
# What section numbers mean

The section number of a heading is a count over the levels of all headings up to it in
document order, however they are nested and whatever marks they came with.  Section
numbers tell headings apart as long as no heading stands above all headings before it:
the leading zeros that a section number leaves out are those of the outermost level so
far.
-/

namespace Galley
namespace Numbering

/-- The headings of a listing. -/
def headingsIn (entries : List (Path × Node)) : List (Path × Node) :=
  entries.filter fun entry => entry.2.kind == .header

/-- The headings of a tree with their paths, in document order. -/
def headingsOf (tree : Node) : List (Path × Node) :=
  headingsIn (tree.located [])

/-- The level that a heading asks for: that of its marks, or else an integer payload, or
else the level option, which is one where it is missing. -/
def askedLevel? (node : Node) : Option Int :=
  let fallback := (node.options.getD "level" (.int 1)).toInteger.toOption
  match node.payload with
  | .heading marks => some marks.level.depth
  | .data value => value.number?.or fallback
  | .item _ => fallback

/-- The level of a heading: what it asks for, raised to one where it is smaller. -/
def level? (node : Node) : Option Nat :=
  (askedLevel? node).map fun asked => max 1 asked.toNat

/-- The mark that a heading came with. -/
def givenMark? (node : Node) : Option String :=
  match node.payload with
  | .heading marks => marks.mark
  | _ => none

/-- The section number that a heading came with. -/
def givenNumber? (node : Node) : Option String :=
  match node.payload with
  | .heading marks => marks.fullMark
  | _ => none

/-- The marks of a heading are what the levels of the headings up to it ask for. -/
structure SectionMarks (levels : List Nat) (given : Node) (marks : HeadingMark) : Prop where
  /-- The heading has the last of the levels. -/
  level : levels.getLast? = some marks.level.depth
  /-- A section number that the heading came with is kept, and so is its mark. -/
  kept : ∀ number, givenNumber? given = some number →
    marks.fullMark = some number ∧ marks.mark = givenMark? given
  /-- Any other heading is numbered by the counts, without the leading ones that are
  zero. -/
  numbered : givenNumber? given = none → marks.fullMark =
    some (".".intercalate (((sectionCounts levels).dropWhile (· == 0)).map toString))
  /-- It keeps a mark that it came with. -/
  marked : givenNumber? given = none → ∀ own, givenMark? given = some own → own ≠ "" →
    marks.mark = some own
  /-- Without a mark, or with an empty one, it takes the last count. -/
  counted : givenNumber? given = none → (givenMark? given).getD "" = "" →
    marks.mark = some (toString (countSince levels marks.level.depth))

/-! ## One heading -/

/-- Reading the marks of a heading gives its level and what it came with. -/
theorem headingMarks_given {node : Node} {marks : HeadingMark}
    (read : headingMarks node.payload node.options = .ok marks) :
    level? node = some marks.level.depth ∧ marks.mark = givenMark? node ∧
      marks.fullMark = givenNumber? node := by
  obtain ⟨kind, payload, attributes, options, children⟩ := node
  have clamped (number : Int) : max 1 number.toNat = (Level.clamp number).depth := rfl
  -- Where the level comes from the option, the option is an integer.
  have optional (fresh : (do
        let number ← (options.getD "level" (.int 1)).toInteger
        return { level := .clamp number } : Except Fault HeadingMark) = .ok marks) :
      ∃ number, (options.getD "level" (.int 1)).toInteger = .ok number ∧
        marks = { level := .clamp number } := by
    cases asked : (options.getD "level" (.int 1)).toInteger with
    | error fault =>
        rw [asked] at fresh
        cases fresh
    | ok number =>
        rw [asked] at fresh
        exact ⟨number, rfl, (Except.ok.inj fresh).symm⟩
  cases payload with
  | heading given =>
      obtain rfl := Except.ok.inj read
      have positive := given.level.depth_pos
      exact ⟨congrArg some (by simp; omega), rfl, rfl⟩
  | data value =>
      cases number : value.number? with
      | some asked =>
          simp only [headingMarks, number] at read
          obtain rfl := Except.ok.inj read
          simp [level?, askedLevel?, givenMark?, givenNumber?, number, clamped]
      | none =>
          simp only [headingMarks, number] at read
          obtain ⟨asked, found, rfl⟩ := optional read
          simp [level?, askedLevel?, givenMark?, givenNumber?, number, found, clamped,
            Except.toOption]
  | item marks =>
      obtain ⟨asked, found, rfl⟩ := optional read
      simp [level?, askedLevel?, givenMark?, givenNumber?, found, clamped, Except.toOption]

/-- A heading that is counted after others gets the marks that the levels ask for. -/
theorem sectionMarks_markHeading {levels : List Nat} (positive : ∀ level ∈ levels, 0 < level)
    {given : Node} {marks : HeadingMark}
    (read : headingMarks given.payload given.options = .ok marks) :
    SectionMarks (levels ++ [marks.level.depth]) given
      (markHeading (counted (levels ++ [marks.level.depth])) marks) := by
  obtain ⟨-, ownMark, number⟩ := headingMarks_given read
  have all : ∀ level ∈ levels ++ [marks.level.depth], 0 < level := by
    intro level present
    rcases List.mem_append.mp present with early | last
    · exact positive level early
    · exact List.mem_singleton.mp last ▸ marks.level.depth_pos
  have last : (sectionCounts (levels ++ [marks.level.depth])).getLast? =
      some (countSince (levels ++ [marks.level.depth]) marks.level.depth) := by
    have depth := marks.level.depth_pos
    rw [sectionCounts, List.getLast?_concat, Option.getD_some, List.getLast?_map,
      List.getLast?_range, if_neg (by omega), Option.map_some, Nat.sub_add_cancel depth]
  rw [counted_eq_sectionCounts all]
  have level (counts : List Nat) : (markHeading counts marks).level = marks.level := by
    unfold markHeading
    split <;> rfl
  refine ⟨by rw [level, List.getLast?_concat], ?_, ?_, ?_, ?_⟩
  · intro supplied found
    rw [found] at number
    simp [markHeading, number, ownMark]
  all_goals
    intro missing
    rw [missing] at number
  · simp [markHeading, number, sectionNumber]
  · intro own found shown
    simp [markHeading, number, ownMark, found, orIfEmpty, shown]
  · intro empty
    rw [level, markHeading, number, last, Option.getD_some, ownMark]
    dsimp only
    cases found : givenMark? given with
    | none => rfl
    | some own =>
        rw [found, Option.getD_some] at empty
        simp [orIfEmpty, empty]

/-! ## The pass -/

/-- What the pass does to the counters along a listing: each heading is counted and
marked, and nothing else becomes a heading. -/
inductive Counts : List Nat → List (Path × Node) → List (Path × Node) → List Nat → Prop
  /-- An empty listing. -/
  | nil (counters : List Nat) : Counts counters [] [] counters
  /-- A node that is no heading. -/
  | skip {path : Path} {old new : Node} {olds news : List (Path × Node)} {before after : List Nat} :
      old.kind ≠ .header → new.kind ≠ .header → Counts before olds news after →
        Counts before ((path, old) :: olds) ((path, new) :: news) after
  /-- A heading. -/
  | count {path : Path} {old new : Node} {olds news : List (Path × Node)} {before after : List Nat}
      {marks : HeadingMark} :
      old.kind = .header → new.kind = .header →
      headingMarks old.payload old.options = .ok marks →
      new.payload = .heading (markHeading (advance before marks.level.depth) marks) →
      Counts (advance before marks.level.depth) olds news after →
        Counts before ((path, old) :: olds) ((path, new) :: news) after

theorem Counts.append {before middle after : List Nat}
    {olds news olds' news' : List (Path × Node)} (first : Counts before olds news middle)
    (second : Counts middle olds' news' after) :
    Counts before (olds ++ olds') (news ++ news') after := by
  induction first with
  | nil => exact second
  | skip old new _ inductionHypothesis => exact skip old new (inductionHypothesis second)
  | count old new read marked _ inductionHypothesis =>
      exact count old new read marked (inductionHypothesis second)

theorem visit_counts (node : Node) (place : Place) (state : State) :
    Meets (visit node place) state (fun _ => True) fun new after =>
      ∀ path below, Counts state.counters [(path, node)] [(path, { new with children := below })]
        after.counters := by
  unfold visit
  split
  · rename_i header
    refine (visitHeading_meets node place state).mono (fun _ _ => trivial) ?_
    rintro new after ⟨marks, read, rfl, log, rfl⟩ path below
    exact Counts.count header header read rfl (Counts.nil _)
  · rename_i item
    refine (visitItem_meets node place state).mono (fun _ _ => trivial) ?_
    rintro new after ⟨payload, -, rfl, log, rfl⟩ path below
    exact Counts.skip (by simp [item]) (by simp [item]) (Counts.nil _)
  · rename_i label
    refine (visitLabel_meets node place state label _).imp ?_
    rintro new after ⟨rfl, log, rfl⟩ path below
    exact Counts.skip (by simp [label]) (by simp [label]) (Counts.nil _)
  · exact Meets.stop trivial
  · rename_i notHeader _ _ _
    exact Meets.give fun path below => Counts.skip notHeader notHeader (Counts.nil _)

/-- Annotating a tree counts its headings in document order. -/
theorem annotate_counts (node : Node) (place : Place) (state : State)
    (linked : place.linked = true) :
    Meets (annotate node place) state (fun _ => True) fun new after =>
      Counts state.counters (node.located place.path) (new.located place.path) after.counters := by
  induction node using Node.induction_on_children generalizing place state with
  | step node below =>
      have siblings (members : List Node) (index : Nat) (state : State)
          (known : ∀ child ∈ members, child ∈ node.children) :
          Meets (annotateSiblings members node place index) state (fun _ => True) fun found after =>
            Counts state.counters (Node.locatedBelow members place.path index)
              (Node.locatedBelow found place.path index) after.counters := by
        induction members generalizing index state with
        | nil => exact Meets.give (Counts.nil _)
        | cons child rest inductionHypothesis =>
            have inside : (place.enter node index).linked = true := by simp [Place.enter, linked]
            have path : (place.enter node index).path = place.path ++ [index] := by
              simp [Place.enter, linked]
            refine Meets.bind (below child (known child (by simp)) _ state inside) ?_
            intro first middle counts
            refine Meets.bind (inductionHypothesis (index + 1) middle fun other present =>
              known other (by simp [present])) ?_
            intro others after remaining
            rw [path] at counts
            exact Meets.give (counts.append remaining)
      obtain ⟨kind, payload, attributes, options, children⟩ := node
      rw [annotate]
      refine Meets.bind (visit_counts _ place state) fun numbered visited counts => ?_
      dsimp only
      refine Meets.change_bind (Meets.bind (siblings children 0 _ fun _ present => present) ?_)
      intro found after remaining
      refine Meets.change_bind (Meets.give ?_)
      rw [Node.located_eq, Node.located_eq]
      exact (counts place.path found).append remaining

/-! ## The headings of a run -/

/-- Each heading of a run stays at its path and gets the marks that the levels up to it
ask for, behind those of earlier headings. -/
structure RunMarks (earlier levels : List Nat) (givens nows : List (Path × Node)) : Prop where
  /-- The headings of the run have the levels. -/
  asked : (givens.map fun entry => level? entry.2) = levels.map some
  /-- The headings stay where they are. -/
  paths : nows.map (·.1) = givens.map (·.1)
  /-- Each heading is marked by the levels up to it. -/
  marks : ∀ index path given, givens[index]? = some (path, given) →
    ∃ now marks, nows[index]? = some (path, now) ∧ now.payload = .heading marks ∧
      SectionMarks (earlier ++ levels.take (index + 1)) given marks

theorem RunMarks.nil (earlier : List Nat) : RunMarks earlier [] [] [] :=
  ⟨rfl, rfl, fun index path given absent => by simp at absent⟩

/-- One more heading in front of a run. -/
theorem RunMarks.cons {earlier levels : List Nat} {givens nows : List (Path × Node)}
    {given now : Node} {depth : Nat} {marks : HeadingMark} (path : Path)
    (level : level? given = some depth) (payload : now.payload = .heading marks)
    (first : SectionMarks (earlier ++ [depth]) given marks)
    (run : RunMarks (earlier ++ [depth]) levels givens nows) :
    RunMarks earlier (depth :: levels) ((path, given) :: givens) ((path, now) :: nows) where
  asked := by simp [level, run.asked]
  paths := by simp [run.paths]
  marks := by
    intro index atPath other found
    cases index with
    | zero =>
        obtain ⟨rfl, rfl⟩ := Prod.mk.inj (Option.some.inj found)
        exact ⟨now, marks, rfl, payload, by simpa using first⟩
    | succ index =>
        have later := run.marks index atPath other (by simpa using found)
        simpa [List.append_assoc] using later

/-- Along a listing that follows headings of some levels, every heading is marked by the
levels up to it. -/
theorem Counts.runMarks {before after earlier : List Nat} {olds news : List (Path × Node)}
    (counts : Counts before olds news after) (start : before = counted earlier)
    (positive : ∀ level ∈ earlier, 0 < level) :
    ∃ levels, (∀ level ∈ levels, 0 < level) ∧
      RunMarks earlier levels (headingsIn olds) (headingsIn news) := by
  induction counts generalizing earlier with
  | nil => exact ⟨[], by simp, RunMarks.nil earlier⟩
  | skip old new _ inductionHypothesis =>
      obtain ⟨levels, levelsPositive, run⟩ := inductionHypothesis start positive
      exact ⟨levels, levelsPositive, by simpa [headingsIn, old, new] using run⟩
  | @count path old new olds news before after marks header header' read payload _
      inductionHypothesis =>
      have grown : ∀ level ∈ earlier ++ [marks.level.depth], 0 < level := by
        intro level present
        rcases List.mem_append.mp present with early | last
        · exact positive level early
        · exact List.mem_singleton.mp last ▸ marks.level.depth_pos
      have counters : advance before marks.level.depth =
          counted (earlier ++ [marks.level.depth]) := by
        rw [counted_append_singleton, start]
      obtain ⟨levels, levelsPositive, run⟩ := inductionHypothesis counters grown
      rw [counters] at payload
      refine ⟨marks.level.depth :: levels, ?_, ?_⟩
      · exact List.forall_mem_cons.mpr ⟨marks.level.depth_pos, levelsPositive⟩
      · have whole := run.cons path (headingMarks_given read).1 payload
          (sectionMarks_markHeading positive read)
        simpa [headingsIn, header, header'] using whole

/-- The headings of a numbered tree are marked by the levels of the headings of the
tree. -/
theorem resolve_runMarks {tree : Node} {numbered : Numbered}
    (returned : (resolve tree).1 = .ok numbered) :
    ∃ levels, (∀ level ∈ levels, 0 < level) ∧
      RunMarks [] levels (headingsOf tree) (headingsOf numbered.tree) := by
  refine resolve_meets
    (fun found => ∃ levels, (∀ level ∈ levels, 0 < level) ∧
      RunMarks [] levels (headingsOf tree) (headingsOf found.tree))
    returned ((annotate_counts tree Place.root {} rfl).imp fun annotated after counts => ?_)
  exact counts.runMarks rfl (by simp)

/-- Heading numbers mean what they say: with the levels of all headings in document
order, each heading of the numbered tree stands at the path of its heading in the tree
and has the marks that the levels up to its own ask for. -/
theorem headings_sectionMarks {tree : Node} {numbered : Numbered}
    (returned : (resolve tree).1 = .ok numbered) :
    (headingsOf numbered.tree).map (·.1) = (headingsOf tree).map (·.1) ∧
      ∃ levels : List Nat,
        ((headingsOf tree).map fun entry => level? entry.2) = levels.map some ∧
        ∀ index path given, (headingsOf tree)[index]? = some (path, given) →
          ∃ now marks, numbered.tree.at? path = some now ∧ now.payload = .heading marks ∧
            SectionMarks (levels.take (index + 1)) given marks := by
  obtain ⟨levels, -, run⟩ := resolve_runMarks returned
  refine ⟨run.paths, levels, run.asked, fun index path given found => ?_⟩
  obtain ⟨now, marks, there, payload, sections⟩ := run.marks index path given found
  have listed : (path, now) ∈ numbered.tree.located [] :=
    (List.mem_filter.mp (List.mem_of_getElem? there)).1
  obtain ⟨rest, rfl, atPath⟩ := Node.mem_located_iff.mp listed
  exact ⟨now, marks, atPath, payload, sections⟩

/-- Headings of levels two, four, one, three and two, the second inside the first; the
third comes with a section number. -/
def unevenHeadings : Node :=
  { kind := .root
    children := [
      { kind := .header
        payload := .data (.int 2)
        children := [{ kind := .header, options := [("level", .int 4)] }] },
      { kind := .header
        payload := .heading { level := .one, fullMark := some "IV" } },
      { kind := .header
        payload := .heading { level := .clamp 3 } },
      { kind := .header
        payload := .heading { level := .clamp 2 } }] }

/-- What the pass makes of the uneven headings. -/
def unevenHeadingsNumbered : Numbered where
  tree :=
    { kind := .root
      children := [
        { kind := .header
          payload := .heading { level := .clamp 2, mark := some "1", fullMark := some "1" }
          options := [(Node.positionKey, .int 0)]
          children := [
            { kind := .header
              payload := .heading { level := .clamp 4, mark := some "1", fullMark := some "1.0.1" }
              options := [("level", .int 4), (Node.positionKey, .int 0)] }] },
        { kind := .header
          payload := .heading { level := .one, fullMark := some "IV" }
          options := [(Node.positionKey, .int 1)] },
        { kind := .header
          payload := .heading { level := .clamp 3, mark := some "1", fullMark := some "1.0.1" }
          options := [(Node.positionKey, .int 2)] },
        { kind := .header
          payload := .heading { level := .clamp 2, mark := some "1", fullMark := some "1.1" }
          options := [(Node.positionKey, .int 3)] }] }
  labels := []
  headings :=
    { entries := [[0], [0, 0], [1], [2], [3]]
      groups := [(some [], [[0], [1], [2], [3]]), (some [0], [[0, 0]])] }
  items := {}

/-- The fourth of the uneven headings is numbered by a count that includes the heading
with a section number of its own. -/
theorem headings_sectionMarks_uneven :
    (resolve unevenHeadings).1 = .ok unevenHeadingsNumbered ∧
      ∃ now marks, unevenHeadingsNumbered.tree.at? [2] = some now ∧ now.payload = .heading marks ∧
        SectionMarks [2, 4, 1, 3] { kind := .header, payload := .heading { level := .clamp 3 } }
          marks := by
  have resolved : (resolve unevenHeadings).1 = .ok unevenHeadingsNumbered := rfl
  obtain ⟨-, levels, asked, sections⟩ := headings_sectionMarks resolved
  obtain rfl : [2, 4, 1, 3, 2] = levels :=
    List.map_injective_iff.mpr (fun _ _ => Option.some.inj) asked
  exact ⟨resolved, sections 3 [2] _ rfl⟩

/-! ## Telling headings apart -/

/-- A heading that came without a section number has the number that the counters make. -/
theorem RunMarks.fullMark?_eq {levels : List Nat} {givens nows : List (Path × Node)}
    (run : RunMarks [] levels givens nows) (positive : ∀ level ∈ levels, 0 < level)
    {index : Nat} {path path' : Path} {given now : Node}
    (listed : givens[index]? = some (path, given)) (unnumbered : givenNumber? given = none)
    (found : nows[index]? = some (path', now)) :
    now.fullMark? = some (sectionNumber (counted (levels.take (index + 1)))) := by
  obtain ⟨other, marks, there, payload, sections⟩ := run.marks index path given listed
  obtain ⟨-, rfl⟩ := Prod.mk.inj (Option.some.inj (there.symm.trans found))
  rw [Node.fullMark?, payload, Payload.fullMark?, sections.numbered unnumbered, List.nil_append,
    counted_eq_sectionCounts fun level present => positive level (List.mem_of_mem_take present)]
  rfl

/-- The later of two headings stands further out than the earlier one, and some heading
behind the earlier one and up to the later one further out than all headings up to the
earlier one. -/
def Undercut (levels : List Nat) (first second : Nat) : Prop :=
  levels.getD second 0 < levels.getD first 0 ∧
    ∃ lower ∈ (levels.take (second + 1)).drop (first + 1),
      ∀ level ∈ levels.take (first + 1), lower < level

/-- Two headings that came without section numbers get different ones, unless the later
one undercuts the earlier one. -/
theorem fullMark?_ne_of_not_undercut {tree : Node} {numbered : Numbered}
    (returned : (resolve tree).1 = .ok numbered)
    {levels : List Nat}
    (asked : ((headingsOf tree).map fun entry => level? entry.2) = levels.map some)
    (first second : Nat) (before : first < second)
    {firstEntry secondEntry firstNow secondNow : Path × Node}
    (firstListed : (headingsOf tree)[first]? = some firstEntry)
    (secondListed : (headingsOf tree)[second]? = some secondEntry)
    (firstUnnumbered : givenNumber? firstEntry.2 = none)
    (secondUnnumbered : givenNumber? secondEntry.2 = none)
    (firstFound : (headingsOf numbered.tree)[first]? = some firstNow)
    (secondFound : (headingsOf numbered.tree)[second]? = some secondNow)
    (level : ¬ Undercut levels first second) :
    firstNow.2.fullMark? ≠ secondNow.2.fullMark? := by
  obtain ⟨found, positive, run⟩ := resolve_runMarks returned
  obtain rfl : levels = found :=
    List.map_injective_iff.mpr (fun _ _ => Option.some.inj) (asked.symm.trans run.asked)
  have count : second < levels.length := by
    have inside := (List.getElem?_eq_some_iff.mp secondListed).1
    have same := congrArg List.length asked
    simp only [List.length_map] at same
    omega
  rw [run.fullMark?_eq positive firstListed firstUnnumbered firstFound,
    run.fullMark?_eq positive secondListed secondUnnumbered secondFound]
  intro same
  -- The levels up to the second heading are those up to the first and some more.
  have early : levels.take (first + 1) ≠ [] := by
    rw [ne_eq, List.take_eq_nil_iff]
    rintro (absurd | none)
    · omega
    · simp [none] at count
  have parts : levels.take (first + 1) ++ (levels.take (second + 1)).drop (first + 1) =
      levels.take (second + 1) := by
    have whole := List.take_append_drop (first + 1) (levels.take (second + 1))
    rwa [List.take_take, Nat.min_eq_left (by omega)] at whole
  have some : (levels.take (second + 1)).drop (first + 1) ≠ [] := by
    rw [ne_eq, List.drop_eq_nil_iff, List.length_take]
    omega
  have within (bound : Nat) : ∀ level ∈ levels.take bound, 0 < level :=
    fun level present => positive level (List.mem_of_mem_take present)
  have length (index : Nat) (inside : index < levels.length) :
      (counted (levels.take (index + 1))).length = levels.getD index 0 := by
    rw [length_counted (within _), List.getLast?_take, if_neg (by omega)]
    simp [inside]
  obtain ⟨outermost, member, least, leads⟩ := exists_leads (within (first + 1)) early
  obtain ⟨outermost', member', least', leads'⟩ := exists_leads (within (second + 1))
    (parts ▸ List.append_ne_nil_of_left_ne_nil early _)
  have above : outermost' ≤ outermost := least' outermost (parts ▸ List.mem_append_left _ member)
  have near : (counted (levels.take (first + 1))).length ≤
      (counted (levels.take (second + 1))).length ∨ outermost ≤ outermost' := by
    rw [length first (by omega), length second count]
    by_contra far
    obtain ⟨shorter, lower⟩ := not_or.mp far
    refine level ⟨by omega, outermost', ?_, fun other present => ?_⟩
    · rcases List.mem_append.mp (parts ▸ member') with earlier | later
      · exact absurd (least outermost' earlier) lower
      · exact later
    · exact Nat.lt_of_lt_of_le (by omega) (least other present)
  have equal := leads.eq_of_sectionNumber leads' (Option.some.inj same) above near
  have ahead := counted_lt (parts ▸ within (second + 1)) some
  rw [parts, ← equal] at ahead
  exact lt_irrefl _ ahead

/-- The last two of the uneven headings get different section numbers. -/
theorem fullMark?_ne_of_not_undercut_uneven :
    (resolve unevenHeadings).1 = .ok unevenHeadingsNumbered ∧
      ¬ Undercut [2, 4, 1, 3, 2] 3 4 ∧ some "1.0.1" ≠ some "1.1" := by
  have resolved : (resolve unevenHeadings).1 = .ok unevenHeadingsNumbered := rfl
  have level : ¬ Undercut [2, 4, 1, 3, 2] 3 4 := by
    unfold Undercut
    decide
  exact ⟨resolved, level,
    fullMark?_ne_of_not_undercut resolved rfl 3 4 (by decide) rfl rfl rfl rfl rfl rfl level⟩

/-- Two headings, the later of which stands further out than the earlier one. -/
def risingHeadings : Node :=
  { kind := .root
    children := [
      { kind := .header, payload := .heading { level := .clamp 2 } },
      { kind := .header, payload := .heading { level := .one } }] }

/-- The rising headings get the same section number, so that section numbers do not tell
all headings apart. -/
theorem not_fullMark?_ne_risingHeadings :
    ¬ ∀ (tree : Node) (numbered : Numbered), (resolve tree).1 = .ok numbered →
      (∀ entry ∈ headingsOf tree, givenMark? entry.2 = none ∧ givenNumber? entry.2 = none) →
      ∀ (first second : Path) (firstNow secondNow : Node), first ≠ second →
        numbered.tree.at? first = some firstNow → numbered.tree.at? second = some secondNow →
        firstNow.kind = .header → secondNow.kind = .header →
        firstNow.fullMark? ≠ secondNow.fullMark? := by
  intro apart
  have unmarked : ∀ entry ∈ headingsOf risingHeadings,
      givenMark? entry.2 = none ∧ givenNumber? entry.2 = none := by
    intro entry present
    have listed : headingsOf risingHeadings =
        [([0], { kind := .header, payload := .heading { level := .clamp 2 } }),
          ([1], { kind := .header, payload := .heading { level := .one } })] := rfl
    rw [listed, List.mem_cons, List.mem_singleton] at present
    rcases present with rfl | rfl <;> exact ⟨rfl, rfl⟩
  exact apart risingHeadings _ rfl unmarked [0] [1] _ _ (by decide) rfl rfl rfl rfl rfl

end Numbering
end Galley
