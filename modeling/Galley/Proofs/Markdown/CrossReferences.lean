import Galley.Markdown.InlineRule
import Galley.Proofs.Text.Digits
import Galley.Proofs.Text.Ink

/-!
# Forms of cross references

The grammar of the four inline rules tells the forms of each by their parts, and which
neighbours a form may have.  A rule finds the form at a place exactly if the grammar has
one there.  So a scan reports forms only, one behind the other, and misses no form but
those inside a form already reported, which end with it.
-/

namespace Galley
namespace Markdown
namespace InlineRule

open Text

/-! ## The grammar -/

/-- A name that can be declared and referred to. -/
def IsName (raw : List Char) : Prop :=
  raw ≠ [] ∧ ∀ character ∈ raw, character ≠ ']' ∧ isBlank character = false

/-- A name that stands in round brackets. -/
def IsAssignee (raw : List Char) : Prop :=
  ∀ character ∈ raw, character ≠ ')' ∧ character ≠ '\n'

/-- A name of an owner or of a repository. -/
def IsProjectName (name : List Char) : Prop :=
  name ≠ [] ∧ ∀ character ∈ name, isWordChar character = true ∨ character = '.' ∨ character = '-'

/-- Nothing, or an owner and a repository. -/
def IsProject (project : List Char) : Prop :=
  project = [] ∨ ∃ owner repository, project = owner ++ '/' :: repository ∧
    IsProjectName owner ∧ IsProjectName repository

/-- A project, a number sign and digits. -/
def IsIssue (form : List Char) : Prop :=
  ∃ project digits, form = project ++ '#' :: digits ∧ IsProject project ∧
    digits ≠ [] ∧ ∀ digit ∈ digits, isDigit digit = true

/-- A text is a form of a rule and holds a raw text. -/
def IsForm (rule : InlineRule) (raw form : List Char) : Prop :=
  match rule with
  | .label => IsName raw ∧ form = "[label:".toList ++ raw ++ [']']
  | .reference => IsName raw ∧ form = "[ref:".toList ++ raw ++ [']']
  | .action => IsAssignee raw ∧ form = "-->(".toList ++ raw ++ [')']
  | .issue => IsIssue raw ∧ form = raw

/-- An issue link is free where no character of a longer link comes before it and no
word character comes behind it; all other forms may stand anywhere. -/
def IsFree (rule : InlineRule) (before after : Option Char) : Prop :=
  rule = .issue →
    (∀ character ∈ before, isWordChar character = false ∧ character ∉ ['.', '-', '/', '#']) ∧
      ∀ character ∈ after, isWordChar character = false

/-- A form of a rule stands at a place of a text. -/
def StandsAt (rule : InlineRule) (text : List Char) (place : Found) : Prop :=
  ∃ front form back, text = front ++ form ++ back ∧ place.start = front.length ∧
    place.stop = front.length + form.length ∧ rule.IsForm place.raw form ∧
    rule.IsFree front.getLast? back.head?

/-! ## Classes of characters -/

theorem isNameChar_iff {character : Char} :
    isNameChar character = true ↔ character ≠ ']' ∧ isBlank character = false := by
  simp [isNameChar]

theorem isAssigneeChar_iff {character : Char} :
    isAssigneeChar character = true ↔ character ≠ ')' ∧ character ≠ '\n' := by
  simp [isAssigneeChar]

theorem isProjectChar_iff {character : Char} :
    isProjectChar character = true ↔ isWordChar character = true ∨ character = '.' ∨
    character = '-' := by
  simp [isProjectChar, or_assoc]

theorem blocksIssue_eq_false_iff {character : Char} : blocksIssue character = false ↔
    isWordChar character = false ∧ character ∉ ['.', '-', '/', '#'] := by
  simp [blocksIssue, isProjectChar, and_assoc]

/-- What comes before an issue link leaves it free exactly if it does not block it. -/
theorem any_blocksIssue_eq_false_iff {before : Option Char} : before.any blocksIssue = false ↔
    ∀ character ∈ before, isWordChar character = false ∧ character ∉ ['.', '-', '/', '#'] := by
  cases before with
  | none => simp
  | some character => simp [blocksIssue_eq_false_iff]

/-- All that an issue link is made of blocks another one behind it. -/
theorem IsIssue.blocks {form : List Char} (issue : IsIssue form) :
    ∀ character ∈ form, blocksIssue character = true := by
  obtain ⟨project, digits, rfl, proper, -, numeral⟩ := issue
  have named {name : List Char} (isName : IsProjectName name) :
      ∀ character ∈ name, blocksIssue character = true := fun character present => by
    simp [blocksIssue, isProjectChar_iff.mpr (isName.2 character present)]
  have counted : ∀ digit ∈ digits, blocksIssue digit = true := fun digit present => by
    simp [blocksIssue, isProjectChar, isWordChar_of_isDigit (numeral digit present)]
  refine List.forall_mem_append.mpr ⟨?_, List.forall_mem_cons.mpr ⟨by decide +kernel, counted⟩⟩
  rcases proper with rfl | ⟨owner, repository, rfl, owned, deposited⟩
  · simp
  · exact List.forall_mem_append.mpr
      ⟨named owned, List.forall_mem_cons.mpr ⟨by decide +kernel, named deposited⟩⟩

/-! ## Forms at the start of a text -/

theorem delimited?_eq_some_iff {opening : List Char} {inner : Char → Bool} {least : Nat}
    {closing : Char}
    (ends : inner closing = false) {text : List Char} {found : Match} :
    delimited? opening inner least closing text = some found ↔
      ∃ back, text = opening ++ found.raw ++ [closing] ++ back ∧
        (∀ character ∈ found.raw, inner character = true) ∧ least ≤ found.raw.length ∧
        found.length = (opening ++ found.raw ++ [closing]).length := by
  constructor
  · intro matched
    obtain ⟨rest, opened, closed⟩ := Option.bind_eq_some_iff.mp matched
    dsimp only at closed
    split at closed
    · rename_i fits
      obtain ⟨long, closes⟩ := fits
      obtain rfl := Option.some.inj closed
      obtain ⟨back, behind⟩ := List.head?_eq_some_iff.mp closes
      rw [drop_length_of_append List.takeWhile_append_dropWhile.symm] at behind
      have parts : rest.takeWhile inner ++ closing :: back = rest := by
        rw [← behind, List.takeWhile_append_dropWhile]
      refine ⟨back, ?_, fun character present => List.mem_takeWhile_imp present, long,
        by simp; omega⟩
      rw [← List.isPrefixOf?_eq_some_iff_append_eq.mp opened]
      simp [parts]
    · cases closed
  · rintro ⟨back, rfl, inside, long, size⟩
    obtain ⟨length, raw⟩ := found
    dsimp only at inside long size ⊢
    have run : (raw ++ closing :: back).takeWhile inner = raw :=
      takeWhile_append_of_head inside (by simpa using ends)
    have opened : opening.isPrefixOf? (opening ++ raw ++ [closing] ++ back) =
        some (raw ++ closing :: back) := by
      rw [List.isPrefixOf?_eq_some_iff_append_eq]
      simp
    have whole : length = opening.length + raw.length + 1 := by simpa [Nat.add_assoc] using size
    rw [delimited?, opened, Option.bind_some, run, whole]
    simp [long]

theorem IsProjectName.takeWhile_append {name : List Char} (named : IsProjectName name) (next : Char)
    (ends : isProjectChar next = false) (rest : List Char) :
    (name ++ next :: rest).takeWhile isProjectChar = name :=
  takeWhile_append_of_head (fun character present => isProjectChar_iff.mpr
    (named.2 character present))
    (by simpa using ends)

theorem isProjectName_takeWhile {text : List Char} (some : text.takeWhile isProjectChar ≠ []) :
    IsProjectName (text.takeWhile isProjectChar) :=
  ⟨some, fun _ present => isProjectChar_iff.mp (List.mem_takeWhile_imp present)⟩

/-- The project before a number sign is read. -/
theorem IsProject.project?_append {project : List Char} (proper : IsProject project)
    (rest : List Char) :
    project? (project ++ '#' :: rest) = some project := by
  rcases proper with rfl | ⟨owner, repository, rfl, owned, deposited⟩
  · rfl
  · have ownerRun := owned.takeWhile_append '/' (by decide +kernel) (repository ++ '#' :: rest)
    have repositoryRun := deposited.takeWhile_append '#' (by decide +kernel) rest
    have begins : (owner ++ '/' :: (repository ++ '#' :: rest)).head? ≠ some '#' := by
      obtain ⟨first, others, rfl⟩ := List.exists_cons_of_ne_nil owned.1
      have named := owned.2 first List.mem_cons_self
      rintro same
      obtain rfl : first = '#' := by simpa using same
      revert named
      decide +kernel
    have whole : owner ++ '/' :: repository ++ '#' :: rest =
        owner ++ '/' :: (repository ++ '#' :: rest) := by
      simp
    rw [whole, project?, if_neg begins, ownerRun]
    simp [repositoryRun, owned.1, deposited.1]

/-- What is read as a project is one. -/
theorem isProject_of_project? {text project : List Char} (found : project? text = some project) :
    IsProject project ∧ ∃ rest, text = project ++ rest := by
  unfold project? at found
  split at found
  · obtain rfl := Option.some.inj found
    exact ⟨Or.inl rfl, text, rfl⟩
  · dsimp only at found
    split at found
    · rename_i rest behind
      split at found
      · cases found
      · rename_i filled
        obtain ⟨owned, deposited⟩ : text.takeWhile isProjectChar ≠ [] ∧
            rest.takeWhile isProjectChar ≠ [] := by simpa using filled
        obtain rfl := Option.some.inj found
        rw [drop_length_of_append List.takeWhile_append_dropWhile.symm] at behind
        refine ⟨Or.inr ⟨_, _, rfl, isProjectName_takeWhile owned,
          isProjectName_takeWhile deposited⟩,
          rest.dropWhile isProjectChar, ?_⟩
        rw [List.append_assoc, List.cons_append, List.takeWhile_append_dropWhile, ← behind,
          List.takeWhile_append_dropWhile]
    · cases found

theorem issueForm?_eq_some_iff {text : List Char} {found : Match} :
    issueForm? text = some found ↔ ∃ back, text = found.raw ++ back ∧ IsIssue found.raw ∧
      found.length = found.raw.length ∧ ∀ character ∈ back.head?, isWordChar character = false := by
  constructor
  · intro matched
    obtain ⟨project, read, counted⟩ := Option.bind_eq_some_iff.mp matched
    obtain ⟨proper, rest, rfl⟩ := isProject_of_project? read
    rw [List.drop_left] at counted
    split at counted
    · rename_i behind
      dsimp only at counted
      split at counted
      · cases counted
      · rename_i ended
        obtain rfl := Option.some.inj counted
        rw [drop_length_of_append List.takeWhile_append_dropWhile.symm] at ended
        obtain ⟨some, free⟩ : behind.takeWhile isDigit ≠ [] ∧
            (behind.dropWhile isDigit).head?.any isWordChar = false := by simpa using ended
        refine ⟨behind.dropWhile isDigit, ?_, ⟨project, _, rfl, proper, some, fun digit present =>
          List.mem_takeWhile_imp present⟩, rfl, fun character first => ?_⟩
        · rw [List.append_assoc, List.cons_append, List.takeWhile_append_dropWhile]
        · rw [Option.mem_def.mp first] at free
          exact free
    · cases counted
  · rintro ⟨back, rfl, ⟨project, digits, spelled, proper, some, numeral⟩, size, free⟩
    obtain ⟨length, raw⟩ := found
    dsimp only at spelled size ⊢
    subst spelled size
    have run : (digits ++ back).takeWhile isDigit = digits := by
      apply takeWhile_append_of_head numeral
      intro character first
      rw [← Bool.not_eq_true]
      intro digit
      exact absurd (isWordChar_of_isDigit digit) (by simp [free character first])
    have ended : back.head?.any isWordChar = false := by
      cases first : back.head? with
      | none => rfl
      | some character => exact free character first
    have whole : project ++ '#' :: digits ++ back = project ++ '#' :: (digits ++ back) := by simp
    rw [whole, issueForm?, proper.project?_append, Option.bind_some, List.drop_left]
    simp [run, some, ended]

/-! ## Matches -/

theorem isName_iff {raw : List Char} :
    IsName raw ↔ (∀ character ∈ raw, isNameChar character = true) ∧ 1 ≤ raw.length := by
  simp only [IsName, isNameChar_iff, ← List.length_pos_iff, Nat.succ_le_iff, and_comm]

theorem isAssignee_iff {raw : List Char} :
    IsAssignee raw ↔ (∀ character ∈ raw, isAssigneeChar character = true) ∧ 0 ≤ raw.length := by
  simp only [IsAssignee, isAssigneeChar_iff, Nat.zero_le, and_true]

section Matches

variable {rule : InlineRule} {before : Option Char} {text : List Char} {found : Match}

/-- A form between an opening and a closing bracket is matched wherever it stands. -/
theorem delimited?_eq_some_iff_isForm {opening : List Char} {inner : Char → Bool} {least : Nat}
    {closing : Char} (ends : inner closing = false) (bracketed : rule ≠ .issue)
    (forms : ∀ raw form, rule.IsForm raw form ↔
      ((∀ character ∈ raw, inner character = true) ∧ least ≤ raw.length) ∧
        form = opening ++ raw ++ [closing]) :
    delimited? opening inner least closing text = some found ↔ ∃ form back, text = form ++ back ∧
      found.length = form.length ∧ rule.IsForm found.raw form ∧ rule.IsFree before back.head? := by
  rw [delimited?_eq_some_iff ends]
  constructor
  · rintro ⟨back, whole, inside, long, size⟩
    exact ⟨_, back, whole, size, (forms _ _).mpr ⟨⟨inside, long⟩, rfl⟩,
      fun issue => absurd issue bracketed⟩
  · rintro ⟨form, back, whole, size, isForm, -⟩
    obtain ⟨⟨inside, long⟩, rfl⟩ := (forms _ _).mp isForm
    exact ⟨back, whole, inside, long, size⟩

/-- An issue link is matched where its neighbours leave it free. -/
theorem issueForm?_eq_some_iff_isForm (free : before.any blocksIssue = false) :
    issueForm? text = some found ↔ ∃ form back, text = form ++ back ∧ found.length = form.length ∧
      IsForm .issue found.raw form ∧ IsFree .issue before back.head? := by
  have ahead := any_blocksIssue_eq_false_iff.mp free
  rw [issueForm?_eq_some_iff]
  constructor
  · rintro ⟨back, whole, issue, size, behind⟩
    exact ⟨_, back, whole, size, ⟨issue, rfl⟩, fun _ => ⟨ahead, behind⟩⟩
  · rintro ⟨form, back, whole, size, ⟨issue, rfl⟩, neighbours⟩
    exact ⟨back, whole, issue, size, (neighbours rfl).2⟩

/-- A rule matches a text exactly where the text begins with a form that is free there. -/
theorem match?_eq_some_iff :
    rule.match? before text = some found ↔ ∃ form back, text = form ++ back ∧
      found.length = form.length ∧ rule.IsForm found.raw form ∧ rule.IsFree before back.head? := by
  cases rule with
  | label =>
      exact delimited?_eq_some_iff_isForm (by decide) (by decide) fun _ _ =>
        and_congr_left' isName_iff
  | reference =>
      exact delimited?_eq_some_iff_isForm (by decide) (by decide) fun _ _ =>
        and_congr_left' isName_iff
  | action =>
      exact delimited?_eq_some_iff_isForm (by decide) (by decide) fun _ _ =>
        and_congr_left' isAssignee_iff
  | issue =>
      cases free : before.any blocksIssue with
      | false => simpa [match?, free] using issueForm?_eq_some_iff_isForm free
      | true =>
          have blocked : match? .issue before text = none := by simp [match?, free]
          rw [blocked]
          refine iff_of_false (by simp) ?_
          rintro ⟨form, back, -, -, -, neighbours⟩
          rw [any_blocksIssue_eq_false_iff.mpr (neighbours rfl).1] at free
          cases free

theorem IsForm.ne_nil {raw form : List Char} (isForm : rule.IsForm raw form) : form ≠ [] := by
  cases rule with
  | label => simp [isForm.2]
  | reference => simp [isForm.2]
  | action => simp [isForm.2]
  | issue =>
      obtain ⟨⟨project, digits, rfl, -⟩, rfl⟩ := isForm
      simp

end Matches

/-! ## The scan -/

section Scan

variable {rule : InlineRule}

/-- What is found from a position on begins there or later, and each form ends before
the next one. -/
theorem scanFrom_ordered (position : Nat) (before : Option Char) (skipped : Nat)
    (text : List Char) :
    (∀ found ∈ rule.scanFrom position before skipped text, position + skipped ≤ found.start) ∧
      (rule.scanFrom position before skipped text).Pairwise fun found next =>
        found.stop ≤ next.start := by
  induction text generalizing position before skipped with
  | nil => simp [scanFrom]
  | cons character rest inductionHypothesis =>
      cases skipped with
      | succ fewer =>
          obtain ⟨later, ordered⟩ := inductionHypothesis (position + 1) (some character) fewer
          rw [scanFrom]
          exact ⟨fun found present => by have := later found present; omega, ordered⟩
      | zero =>
          rw [scanFrom]
          cases matched : rule.match? before (character :: rest) with
          | none =>
              obtain ⟨later, ordered⟩ := inductionHypothesis (position + 1) (some character) 0
              exact ⟨fun found present => by have := later found present; omega, ordered⟩
          | some found =>
              obtain ⟨later, ordered⟩ :=
                inductionHypothesis (position + 1) (some character) (found.length - 1)
              refine ⟨List.forall_mem_cons.mpr ⟨Nat.le_refl _, fun next present => ?_⟩,
                List.pairwise_cons.mpr ⟨fun next present => ?_, ordered⟩⟩
              · have := later next present
                omega
              · have := later next present
                dsimp only
                omega

/-- What is found behind the front of a text stands in the text. -/
theorem standsAt_of_mem_scanFrom (front : List Char) (skipped : Nat) (text : List Char) :
    ∀ found ∈ rule.scanFrom front.length front.getLast? skipped text,
      rule.StandsAt (front ++ text) found := by
  induction text generalizing front skipped with
  | nil => simp [scanFrom]
  | cons character rest inductionHypothesis =>
      have below (fewer : Nat) :
          ∀ found ∈ rule.scanFrom (front.length + 1) (some character) fewer rest,
          rule.StandsAt (front ++ character :: rest) found := by
        simpa using inductionHypothesis (front ++ [character]) fewer
      cases skipped with
      | succ fewer => exact below fewer
      | zero =>
          rw [scanFrom]
          cases matched : rule.match? front.getLast? (character :: rest) with
          | none => exact below 0
          | some found =>
              obtain ⟨form, back, whole, size, isForm, free⟩ := match?_eq_some_iff.mp matched
              refine List.forall_mem_cons.mpr ⟨?_, below _⟩
              exact ⟨front, form, back, by rw [whole, List.append_assoc], rfl,
                by dsimp only; rw [size], isForm, free⟩

/-- A form that stands right behind the front of a text is matched there. -/
theorem StandsAt.match?_eq {place : Found} {front text : List Char}
    (stands : rule.StandsAt (front ++ text) place) (here : place.start = front.length) :
    ∃ found, rule.match? front.getLast? text = some found ∧
      place = ⟨front.length, front.length + found.length, found.raw⟩ := by
  obtain ⟨before, form, back, whole, start, stop, isForm, free⟩ := stands
  rw [List.append_assoc] at whole
  obtain ⟨rfl, rfl⟩ := List.append_inj whole (by omega)
  refine ⟨⟨form.length, place.raw⟩, match?_eq_some_iff.mpr ⟨form, back, rfl, rfl, isForm, free⟩, ?_⟩
  rw [← start, ← stop.trans (congrArg (· + form.length) start.symm)]

/-- A form behind the front of a text is found, unless it begins inside a form that is
found. -/
theorem mem_scanFrom_or_inside {place : Found} (front : List Char) (skipped : Nat)
    (text : List Char)
    (stands : rule.StandsAt (front ++ text) place) (behind : front.length + skipped ≤ place.start) :
    place ∈ rule.scanFrom front.length front.getLast? skipped text ∨
      ∃ found ∈ rule.scanFrom front.length front.getLast? skipped text,
        found.start < place.start ∧ place.start < found.stop := by
  induction text generalizing front skipped with
  | nil =>
      obtain ⟨before, form, back, whole, start, -, isForm, -⟩ := stands
      have some := List.length_pos_iff.mpr isForm.ne_nil
      have sizes := congrArg List.length whole
      simp only [List.append_nil, List.length_append] at sizes
      omega
  | cons character rest inductionHypothesis =>
      have below (fewer : Nat) (later : front.length + 1 + fewer ≤ place.start) :=
        inductionHypothesis (front ++ [character]) fewer (by simpa using stands)
          (by simpa using later)
      simp only [List.length_append, List.length_singleton, List.getLast?_concat] at below
      cases skipped with
      | succ fewer => exact below fewer (by omega)
      | zero =>
          rw [scanFrom]
          rcases Nat.eq_or_lt_of_le behind with here | later
          · obtain ⟨found, matched, same⟩ := stands.match?_eq here.symm
            rw [matched, same]
            exact Or.inl List.mem_cons_self
          · cases rule.match? front.getLast? (character :: rest) with
            | none => exact below 0 (by omega)
            | some found =>
                by_cases inside : place.start < front.length + found.length
                · exact Or.inr ⟨_, List.mem_cons_self, later, inside⟩
                · rcases below (found.length - 1) (by omega) with listed | ⟨other, listed, within⟩
                  · exact Or.inl (List.mem_cons_of_mem _ listed)
                  · exact Or.inr ⟨other, List.mem_cons_of_mem _ listed, within⟩

/-! ## Forms that begin inside a form -/

/-- A part of a text that begins inside another part shares with it what comes behind
its first character. -/
theorem exists_shared {front part back front' part' back' : List Char}
    (same : front ++ part ++ back = front' ++ part' ++ back') (later : front.length < front'.length)
    (inside : front'.length < front.length + part.length) :
    ∃ gap shared, front' = front ++ gap ∧ part = gap ++ shared ∧ gap ≠ [] ∧ shared ≠ [] ∧
      shared ++ back = part' ++ back' := by
  rw [List.append_assoc, List.append_assoc] at same
  obtain ⟨gap, rfl, behind⟩ | ⟨more, rfl, -⟩ := List.append_eq_append_iff.mp same
  · rw [List.length_append] at later inside
    obtain ⟨more, rfl, -⟩ | ⟨shared, rfl, rest⟩ := List.append_eq_append_iff.mp behind
    · rw [List.length_append] at inside
      omega
    · rw [List.length_append] at inside
      exact ⟨gap, shared, rfl, rfl, List.length_pos_iff.mp (by omega),
        List.length_pos_iff.mp (by omega),
        rest.symm⟩
  · rw [List.length_append] at later
    omega

/-- A form between brackets ends with the first closing bracket in it. -/
theorem exists_closing (bracketed : rule ≠ .issue) : ∃ closing, ∀ raw form, rule.IsForm raw form →
    ∃ body, form = body ++ [closing] ∧ closing ∉ body := by
  have named {opening raw : List Char} (isName : IsName raw) (plain : ']' ∉ opening) :
      ']' ∉ opening ++ raw := fun present =>
    (List.mem_append.mp present).elim plain fun inside => (isName.2 _ inside).1 rfl
  cases rule with
  | label => exact ⟨']', fun raw form isForm => ⟨_, isForm.2, named isForm.1 (by decide)⟩⟩
  | reference => exact ⟨']', fun raw form isForm => ⟨_, isForm.2, named isForm.1 (by decide)⟩⟩
  | action =>
      refine ⟨')', fun raw form isForm => ⟨_, isForm.2, fun present => ?_⟩⟩
      rcases List.mem_append.mp present with opening | inside
      · exact absurd opening (by decide)
      · exact (isForm.1 _ inside).1 rfl
  | issue => exact absurd rfl bracketed

variable {text : List Char} {found place : Found}

/-- A form between brackets that begins inside another one ends with it. -/
theorem StandsAt.stop_eq (stands : rule.StandsAt text found) (inner : rule.StandsAt text place)
    (bracketed : rule ≠ .issue) (later : found.start < place.start)
    (inside : place.start < found.stop) :
    found.stop = place.stop := by
  obtain ⟨front, form, back, rfl, start, stop, isForm, -⟩ := stands
  obtain ⟨front', form', back', same, start', stop', isForm', -⟩ := inner
  obtain ⟨closing, ends⟩ := exists_closing bracketed
  obtain ⟨body, rfl, whole⟩ := ends _ _ isForm
  obtain ⟨body', rfl, whole'⟩ := ends _ _ isForm'
  obtain ⟨gap, shared, rfl, parts, -, some, behind⟩ := exists_shared same (by omega) (by omega)
  obtain rfl | ⟨rest, last, rfl⟩ := List.eq_nil_or_concat shared
  · exact absurd rfl some
  rw [List.concat_eq_append, ← List.append_assoc] at parts
  obtain ⟨rfl, closes⟩ := List.append_inj' parts rfl
  obtain rfl : closing = last := by simpa using closes
  -- Both forms go on to the same first closing bracket.
  rw [List.concat_eq_append, List.append_assoc, List.append_assoc, List.singleton_append,
    List.singleton_append] at behind
  have free {run : List Char} (without : closing ∉ run) :
      ∀ character ∈ run, (character != closing) = true := by
    intro character present
    simpa using fun equal : character = closing => without (equal ▸ present)
  have bodies :=
    (run_append_inj (free fun present => whole (List.mem_append_right _ present)) (by simp)
    (free whole') (by simp) behind).1
  rw [stop, stop', ← bodies]
  simp only [List.length_append]
  omega

/-- No issue link begins inside another one. -/
theorem StandsAt.stop_le (stands : StandsAt .issue text found) (inner : StandsAt .issue text place)
    (later : found.start < place.start) : found.stop ≤ place.start := by
  obtain ⟨front, form, back, rfl, start, stop, isForm, -⟩ := stands
  obtain ⟨front', form', back', same, start', stop', -, free⟩ := inner
  by_contra inside
  obtain ⟨gap, shared, rfl, rfl, some, -⟩ := exists_shared same (by omega) (by omega)
  -- The character before the inner link belongs to the outer one.
  have last : gap.getLast some ∈ (front ++ gap).getLast? := by
    rw [List.getLast?_append_of_ne_nil _ some, List.getLast?_eq_some_getLast some]
    rfl
  have blocks := isForm.1.blocks (gap.getLast some)
    (isForm.2 ▸ List.mem_append_left _ (List.getLast_mem some))
  rw [blocksIssue_eq_false_iff.mpr ((free rfl).1 _ last)] at blocks
  cases blocks

end Scan

/-- A rule accepts exactly its grammar.  A scan reports one form behind the other, each
with its raw text.  Every label, reference or action item lies inside a form that is
reported and ends with it; every issue link is reported itself. -/
theorem scan_accepts (rule : InlineRule) (text : List Char) :
    (rule.scan text).Pairwise (fun found next => found.stop ≤ next.start) ∧
      (∀ found ∈ rule.scan text, found.start < found.stop ∧ rule.StandsAt text found) ∧
      ∀ place, rule.StandsAt text place →
        (∃ found ∈ rule.scan text, found.start ≤ place.start ∧ found.stop = place.stop) ∧
          (rule = .issue → place ∈ rule.scan text) := by
  have sound : ∀ found ∈ rule.scan text, rule.StandsAt text found :=
    standsAt_of_mem_scanFrom [] 0 text
  refine ⟨(scanFrom_ordered 0 none 0 text).2, fun found present => ?_, fun place stands => ?_⟩
  · obtain ⟨front, form, back, -, start, stop, isForm, -⟩ := sound found present
    have some := List.length_pos_iff.mpr isForm.ne_nil
    exact ⟨by omega, sound found present⟩
  · rcases mem_scanFrom_or_inside [] 0 text stands (Nat.zero_le _) with
      listed | ⟨found, listed, later, inside⟩
    · exact ⟨⟨place, listed, Nat.le_refl _, rfl⟩, fun _ => listed⟩
    · have outer := sound found listed
      by_cases issue : rule = .issue
      · subst issue
        exact absurd (outer.stop_le stands later) (by omega)
      · exact ⟨⟨found, listed, Nat.le_of_lt later, outer.stop_eq stands issue later inside⟩,
          fun same => absurd same issue⟩

/-- A label inside a label is not reported by itself, but the reported one ends with
it. -/
theorem scan_accepts_nestedLabel :
    let text := "[label:[label:a] b".toList
    StandsAt .label text ⟨7, 16, ['a']⟩ ∧ scan .label text = [⟨0, 16, "[label:a".toList⟩] ∧
      (∃ found ∈ scan .label text, found.start ≤ 7 ∧ found.stop = 16) ∧
      StandsAt .label text ⟨0, 16, "[label:a".toList⟩ := by
  intro text
  have inner : StandsAt .label text ⟨7, 16, ['a']⟩ :=
    ⟨"[label:".toList, "[label:a]".toList, " b".toList, by decide, rfl, rfl,
      ⟨⟨by decide, List.forall_mem_singleton.mpr (by decide +kernel)⟩, rfl⟩, by simp [IsFree]⟩
  have found : scan .label text = [⟨0, 16, "[label:a".toList⟩] := by decide +kernel
  obtain ⟨-, sound, complete⟩ := scan_accepts .label text
  exact ⟨inner, found, (complete _ inner).1, (sound _ (by simp [found])).2⟩

end InlineRule
end Markdown
end Galley
