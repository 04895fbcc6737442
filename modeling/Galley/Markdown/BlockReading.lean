import Galley.Markdown.Definition
import Galley.Markdown.Table

/-!
# Reading blocks

A text is read line by line.  At each line the forms of blocks are tried in a fixed
order; a line where none starts belongs to a paragraph.  Quotations and list items hold
texts of their own, which are read in turn with rules of their own.  Definitions leave
no block but are kept.
-/

namespace Galley
namespace Markdown
namespace BlockReading

open BlockForm

/-- The rules by which a text is read. -/
structure Grammar where
  /-- Extensions whose blocks are recognised. -/
  extensions : List Extension := []
  /-- Whether quotations are recognised. -/
  quotes : Bool := true
  /-- Whether lists are recognised. -/
  lists : Bool := true

/-- How far a text is read. -/
structure Reading where
  /-- The blocks so far, the latest first. -/
  blocks : List Block := []
  /-- What is still to be read. -/
  rest : List Char
  /-- The definitions so far. -/
  definitions : Definitions := {}

namespace Reading

/-- The first line of what is still to be read. -/
def line (reading : Reading) : List Char :=
  (cutLine reading.rest).1

/-- What follows the first line. -/
def below (reading : Reading) : List Char :=
  (cutLine reading.rest).2

/-- Add a block and go on with a rest of the text. -/
def add (reading : Reading) (block : Block) (rest : List Char) : Reading :=
  { reading with blocks := block :: reading.blocks, rest := rest }

/-- Add text to the paragraph before it, or start a paragraph. -/
def addText (reading : Reading) (text rest : List Char) : Reading :=
  match reading.blocks with
  | .paragraph before :: others =>
      { reading with blocks := .paragraph (before ++ text) :: others, rest := rest }
  | _ => reading.add (.paragraph text) rest

/-- Add the next line to a paragraph. -/
def addLine (reading : Reading) : Reading :=
  let (line, rest) := cutWholeLine reading.rest
  reading.addText line rest

/-- Add the next line to the paragraph before it, if there is one. -/
def continued? (reading : Reading) : Option Reading :=
  match reading.blocks with
  | .paragraph _ :: _ => some reading.addLine
  | _ => none

/-- Put a block behind a number of blocks. -/
def insertAfter (reading : Reading) (count : Nat) (block : Block) : Reading :=
  let later := reading.blocks.length - count
  { reading with
    blocks := reading.blocks.take later ++ block :: reading.blocks.drop later }

end Reading

/-- The outcome of trying a form at a line: it does not start there, or it starts and
the line is plain nevertheless, or it is read. -/
abbrev Attempt := Option (Option Reading)

/-- A reader of what stands one level below a text. -/
structure Below where
  /-- Read a text at a depth. -/
  text : Grammar → Nat → Definitions → List Char → List Block × Definitions
  /-- Read a quotation whose first line is given without its mark. -/
  quote : Nat → Reading → List Char → Reading
  /-- Read a list whose first mark is given. -/
  list : Nat → Reading → ItemOpening → Reading

/-- The depth from which on quotations hold no quotations and lists no lists. -/
def deepest : Nat := 5

/-! ## Forms of one kind -/

/-- A rule between blocks. -/
def rule (most : Nat) (reading : Reading) : Attempt :=
  if isRule most reading.line then some (some (reading.add .rule reading.below)) else none

/-- Code between fences.  The fence of the end may be missing. -/
def fencedCode (reading : Reading) (fence : Fence) : Option Reading :=
  if fence.mark = '`' ∧ fence.info.contains '`' then none
  else
    let (lines, rest) :=
      leadingLines (fun text => !fence.isClosedBy (cutLine text).1) reading.below
    let info := Text.trim (unescape fence.info)
    some (reading.add
      (.code (if fence.info.isEmpty then none else some info)
        (mapLines (outdent fence.spaces) lines))
      (cutLine rest).2)

/-- Code between fences. -/
def fenced (most : Nat) (reading : Reading) : Attempt :=
  (fence? most reading.line).map (fencedCode reading)

/-- What follows indented code and blanks: whole lines of code, and single blanks. -/
def afterCode : Nat → List Char → List Char
  | 0, text => text
  | count + 1, text =>
      if isCodeLine (cutLine text).1 then
        afterCode count ((cutLine text).2.dropWhile (· == '\n'))
      else
        match text with
        | character :: rest => if Text.isBlank character then afterCode count rest else text
        | [] => []

/-- Indented code.  Behind a paragraph it is part of the paragraph.  What stands behind
the blanks after the code on their last line is plain text. -/
def indentedCode (reading : Reading) : Reading :=
  (reading.continued?).getD (
    let rest := afterCode reading.rest.length reading.rest
    let spanned := reading.rest.take (reading.rest.length - rest.length)
    let isNewline (character : Char) : Bool := character == '\n'
    let text := mapLines (fun line => outdent 4 (expandTab (4 - ·) line)) spanned
    let code : Block := .code none (Text.dropEndWhile isNewline (text.dropWhile isNewline))
    let reading := reading.add code rest
    if rest.isEmpty || spanned.getLast?.any isNewline then reading else reading.addLine)

/-- A heading behind number signs. -/
def heading (most : Nat) (reading : Reading) : Attempt :=
  (heading? most reading.line).map fun (level, text) =>
    some (reading.add (.heading level text) reading.below)

/-- The text up to the line on which a mark stands, or all of it. -/
def markupTo (reading : Reading) (mark follows : List Char) : Reading :=
  let rest := match Markup.after? mark follows with
    | some behind => (cutLine behind).2
    | none => []
  reading.add (.markup (reading.rest.take (reading.rest.length - rest.length))) rest

/-- The text up to a blank line. -/
def markupToBlank (reading : Reading) : Reading :=
  let (lines, rest) := leadingLines (fun text => !startsBlank text) reading.rest
  reading.add (.markup lines) rest

/-- A block of markup.  A tag that starts no block by its name does so where it is alone
on its line and follows no paragraph. -/
def markupBlock (reading : Reading) (opening : Markup.Opening) (follows : List Char) :
    Option Reading :=
  let alone (isComplete : List Char → Bool) : Option Reading :=
    reading.continued? <|>
      if isComplete (cutWholeLine follows).1 then some (markupToBlank reading) else none
  match opening with
  | .comment => some (markupTo reading "-->".toList follows)
  | .instruction => some (markupTo reading "?>".toList follows)
  | .characterData => some (markupTo reading "]]>".toList follows)
  | .declaration => some (markupTo reading ['>'] follows)
  | .closingTag name =>
      if Markup.blockTags.contains name then some (markupToBlank reading)
      else alone Markup.completesClosingTag
  | .tag name =>
      if Markup.verbatimTags.contains name then
        some (markupTo reading ('<' :: '/' :: name.toList ++ ['>']) follows)
      else if Markup.blockTags.contains name then some (markupToBlank reading)
      else alone Markup.completesTag

/-- Markup wherever a block may start. -/
def markup (reading : Reading) : Attempt :=
  (markup? 3 reading.rest).map fun (opening, _, follows) => markupBlock reading opening follows

/-- Markup that breaks off a list or a quotation. -/
def breakingMarkup (most : Nat) (reading : Reading) : Attempt :=
  ((markup? most reading.rest).filter fun (opening, shown, follows) =>
    Markup.breaksOff shown opening follows).map fun (opening, _, follows) =>
      markupBlock reading opening follows

/-- A quotation. -/
def quotation (below : Below) (depth most : Nat) (reading : Reading) : Attempt :=
  (quoted? most reading.line).map fun content => some (below.quote depth reading content)

/-- A list. -/
def list (below : Below) (depth : Nat) (reading : Reading) : Attempt :=
  (firstItem? 3 reading.line).map fun opening => some (below.list depth reading opening)

/-- Blank lines. -/
def blank (reading : Reading) : Attempt :=
  if startsBlank reading.rest then
    some (some (reading.add .blank (leadingLines startsBlank reading.rest).2))
  else none

/-- A line below a paragraph that makes a heading of it; elsewhere the line is a rule or
a list. -/
def underlined (below : Below) (depth : Nat) (reading : Reading) : Attempt :=
  (underline? reading.line).map fun level =>
    match reading.blocks with
    | .paragraph text :: others =>
        some { reading with blocks := .heading level text :: others, rest := reading.below }
    | _ => (rule 3 reading <|> list below depth reading).join

/-- A link definition.  Behind a paragraph it is part of the paragraph. -/
def linkDefinition (reading : Reading) : Attempt :=
  (Definition.linkLabel? reading.rest).map fun (label, behind) =>
    reading.continued? <|>
      let key := Link.key label
      if key.isEmpty then none
      else
        (Definition.linkTarget? behind).map fun (target, rest) =>
          { reading with definitions := reading.definitions.addLink key target, rest := rest }

/-- A footnote. -/
def footnote (reading : Reading) : Attempt :=
  (Definition.note? reading.rest).map fun (key, rest) =>
    some { reading with definitions := reading.definitions.addNote key, rest := rest }

/-- An abbreviation, which leaves a blank behind. -/
def abbreviation (reading : Reading) : Attempt :=
  (Definition.abbreviation? reading.rest).map fun (name, meaning, rest) =>
    some { reading.add .blank rest with
      definitions := reading.definitions.addAbbreviation name meaning }

/-- Math up to a closing line, with what follows that line. -/
def mathFrom : List Char → Option (List Char × List Char)
  | [] => none
  | character :: rest =>
      let closing := (['\n', '$', '$'].isPrefixOf? rest).filter fun follows =>
        (cutLine follows).1.all Link.isGap
      match closing with
      | some follows => some ([character], (cutLine follows).2)
      | none => (mathFrom rest).map fun found => (character :: found.1, found.2)

/-- Math between lines of two dollar signs. -/
def math (reading : Reading) : Attempt :=
  (indented? 3 reading.line).bind fun (_, mark) =>
    (['$', '$'].isPrefixOf? mark).bind fun follows =>
      if follows.all Link.isGap then
        (mathFrom reading.below).map fun (text, rest) => some (reading.add (.math text) rest)
      else none

/-- A table. -/
def table (reading : Reading) : Attempt :=
  (Table.enclosedTable? reading.rest <|> Table.openTable? reading.rest).map fun found =>
    found.map fun (block, rest) => reading.add block rest

/-- Terms with descriptions.  Definitions inside a description hold in it alone. -/
def definitionList (below : Below) (reading : Reading) : Attempt :=
  match Definition.entries reading.rest.length reading.rest with
  | ([], _) => none
  | (entries, rest) =>
      let description (text : List Char) : Block := .description (below.text {} 0 {} text).1
      let parts := entries.flatMap fun entry =>
        entry.terms.map Block.term ++ entry.descriptions.map description
      some (some (reading.add (.definitions parts) rest))

/-! ## Quotations -/

/-- The lines of a quotation without their marks. -/
def unquoted : List Char → List Char :=
  mapLines fun line =>
    let content := match line.dropWhile (· == ' ') with
      | '>' :: rest => rest
      | _ => line
    outdent 1 (expandTab (3 - ·) content)

/-- Whether a text ends with a blank line. -/
def endsBlank (text : List Char) : Bool :=
  Text.allBlank text
    || (text.getLast? == some '\n'
      && (Text.dropEndWhile Link.isGap text.dropLast).getLast? == some '\n')

/-- Lines with the mark of a quotation at the start of a text, and what follows them. -/
def quotedLines (text : List Char) : List Char × List Char :=
  leadingLines (fun lines => (quoted? 3 (cutLine lines).1).isSome) text

/-- What breaks off a quotation. -/
def quoteBreak (below : Below) (depth : Nat) (reading : Reading) : Attempt :=
  blank reading <|> rule 3 reading <|> fenced 3 reading <|> list below depth reading
    <|> breakingMarkup 3 reading

/-- The lines of a quotation after its first, at most a number of them: the text of the
quotation, what is read with it, and whether something broke it off.  Lines without the
mark belong to it unless a blank line of the quotation stands before them. -/
def quoteLines (below : Below) (depth : Nat) : Nat → Reading → List Char → Bool →
    List Char × Reading × Bool
  | 0, reading, text, _ => (text, reading, false)
  | count + 1, reading, text, afterBlank =>
      if reading.rest.isEmpty then (text, reading, false)
      else
        let (marked, rest) := quotedLines reading.rest
        if !marked.isEmpty then
          let content := unquoted marked
          quoteLines below depth count { reading with rest := rest } (text ++ content)
            (endsBlank content)
        else if afterBlank then (text, reading, false)
        else
          match quoteBreak below depth reading with
          | some (some reading) => (text, reading, true)
          | _ =>
              let (line, rest) := cutWholeLine reading.rest
              quoteLines below depth count { reading with rest := rest }
                (text ++ expandTabsTo 3 line) false

/-- A quotation whose first line is given without its mark.  Where it starts with a
blank line or with code, all its lines have the mark. -/
def quoteAt (below : Below) (depth : Nat) (reading : Reading) (content : List Char) : Reading :=
  let first := outdent 1 (expandTab (3 - ·) content)
  let isStrict := isBlankLine first || isCodeLine first || (fence? 3 first).isSome
  let start := { reading with rest := reading.below }
  let (text, reading, isBroken) :=
    if isStrict then
      let (marked, rest) := quotedLines start.rest
      (first ++ '\n' :: unquoted marked, { start with rest := rest }, false)
    else quoteLines below depth start.rest.length start (first ++ ['\n']) false
  let grammar : Grammar := { quotes := depth < deepest }
  let (blocks, definitions) :=
    below.text grammar (depth + 1) reading.definitions (expandTabs text)
  let reading := { reading with definitions := definitions }
  reading.insertAfter (reading.blocks.length - if isBroken then 1 else 0) (.quote blocks)

/-! ## Lists -/

/-- How the lines of a list item end. -/
inductive ItemEnd where
  /-- The next item starts. -/
  | next (opening : ItemOpening)
  /-- The list is complete. -/
  | complete
  /-- A block broke the list off behind a number of other blocks. -/
  | broken (count : Nat)

/-- The text behind the mark of an item, and the column where its further lines start. -/
def itemStart (opening : ItemOpening) : List Char × Nat :=
  let text := expandTab (fun _ => 4) (expandTab (3 - ·) opening.text)
  let spaces := InlineForm.run ' ' text
  if (text.drop spaces).head?.any fun character => !Text.isBlank character then
    let indentation := if 5 ≤ spaces then 1 else spaces
    (text.drop indentation ++ ['\n'], opening.width + indentation)
  else ([], opening.width + 1)

/-- What breaks off a list beside its own items and other lists. -/
def listBreak (below : Below) (depth most : Nat) (reading : Reading) : Attempt :=
  fenced most reading <|> heading most reading <|> quotation below depth most reading
    <|> breakingMarkup most reading

/-- The further lines of an item, at most a number of them: their text, what is read
with it, and how they end. -/
def itemLines (below : Below) (depth : Nat) (opening : ItemOpening) (isEmpty : Bool)
    (column : Nat) : Nat → Reading → List Char → Bool → List Char × Reading × ItemEnd
  | 0, reading, text, _ => (text, reading, .complete)
  | count + 1, reading, text, afterBlank =>
      if reading.rest.isEmpty then (text, reading, .complete)
      else
        let most := min 3 opening.width
        let next (added : List Char) (isBlank : Bool) : List Char × Reading × ItemEnd :=
          itemLines below depth opening isEmpty column count { reading with rest := reading.below }
            (text ++ added) isBlank
        let line := expandTab (4 - ·) (cutWholeLine reading.rest).1
        let plain (_ : Unit) : List Char × Reading × ItemEnd :=
          if afterBlank then (text, reading, .complete) else next line afterBlank
        if startsBlank reading.rest then next ['\n'] true
        else if column ≤ InlineForm.run ' ' line then
          if afterBlank && isEmpty && Text.allBlank text then (text, reading, .complete)
          else next line false
        else
          match rule most reading with
          | some (some found) => (text, found, .broken reading.blocks.length)
          | _ =>
              match nextItem? most opening.bullet reading.line with
              | some following => (text, { reading with rest := reading.below }, .next following)
              | none =>
                  match listBreak below depth most reading with
                  | some (some found) => (text, found, .broken reading.blocks.length)
                  | some none => plain ()
                  | none =>
                      if (firstItem? most reading.line).isSome then (text, reading, .complete)
                      else plain ()

/-- The further lines of an item without their indentation. -/
def itemText (column : Nat) : List Char → List Char :=
  mapLines fun line =>
    if column ≤ InlineForm.run ' ' line then expandTab (fun _ => 4) (line.drop column) else line

/-- The items of a list, at most a number of them: the items, what is read with them,
and how the last one ends. -/
def itemsFrom (below : Below) (grammar : Grammar) (depth : Nat) : Nat → Reading → ItemOpening →
    List Block × Reading × ItemEnd
  | 0, reading, _ => ([], reading, .complete)
  | count + 1, reading, opening =>
      let (first, column) := itemStart opening
      let (lines, reading, ending) :=
        itemLines below depth opening first.isEmpty column reading.rest.length reading [] false
      let text := trimBlankEnd (first ++ itemText column lines)
      let (blocks, definitions) := below.text grammar (depth + 1) reading.definitions text
      let reading := { reading with definitions := definitions }
      match ending with
      | .next opening =>
          let (others, reading, ending) := itemsFrom below grammar depth count reading opening
          (.item blocks :: others, reading, ending)
      | ending => ([.item blocks], reading, ending)

/-- A list whose first mark is given.  Behind a paragraph, an empty item or a first
number other than one is part of the paragraph. -/
def listAt (below : Below) (depth : Nat) (reading : Reading) (opening : ItemOpening) : Reading :=
  let start := if opening.digits.isEmpty then none else some (Text.natOfDigits opening.digits)
  let isWeak := Text.allBlank opening.text || start.any (· != 1)
  let continued := if isWeak then reading.continued? else none
  continued.getD (
    let grammar : Grammar := { lists := depth < deepest }
    let (items, reading, ending) :=
      itemsFrom below grammar depth (reading.rest.length + 1)
        { reading with rest := reading.below } opening
    let place := match ending with
      | .broken count => count
      | _ => reading.blocks.length
    reading.insertAfter place (.list start items))

/-! ## Texts -/

/-- Try the forms in their order. -/
def attempt (below : Below) (grammar : Grammar) (depth : Nat) (reading : Reading) : Attempt :=
  let extended (extension : Extension) (tried : Attempt) : Attempt :=
    if grammar.extensions.contains extension then tried else none
  fenced 3 reading
    <|> (if isCodeLine reading.line then some (some (indentedCode reading)) else none)
    <|> heading 3 reading
    <|> underlined below depth reading
    <|> rule 3 reading
    <|> (if grammar.quotes then quotation below depth 3 reading else none)
    <|> extended .math (math reading)
    <|> (if grammar.lists then list below depth reading else none)
    <|> extended .footnotes (footnote reading)
    <|> linkDefinition reading
    <|> markup reading
    <|> blank reading
    <|> extended .tables (table reading)
    <|> extended .definitionLists (definitionList below reading)
    <|> extended .abbreviations (abbreviation reading)

/-- Read a text of at most a number of lines. -/
def readLines (below : Below) (grammar : Grammar) (depth : Nat) : Nat → Reading → Reading
  | 0, reading => reading
  | count + 1, reading =>
      if reading.rest.isEmpty then reading
      else
        match attempt below grammar depth reading with
        | some (some next) => readLines below grammar depth count next
        | _ => readLines below grammar depth count reading.addLine

/-- Read a text: its blocks and the definitions in it, together with those before it. -/
def textAt (below : Below) (grammar : Grammar) (depth : Nat) (definitions : Definitions)
    (text : List Char) : List Block × Definitions :=
  let reading :=
    readLines below grammar depth text.length { rest := text, definitions := definitions }
  (reading.blocks.reverse, reading.definitions)

/-- The reader of so many levels.  Each level below another has lost the mark of a
quotation, of an item or of a description. -/
def reader : Nat → Below
  | 0 => {
      text := fun _ _ definitions text => ([.paragraph text], definitions)
      quote := fun _ reading _ => reading.addLine
      list := fun _ reading _ => reading.addLine }
  | levels + 1 =>
      let below := reader levels
      { text := textAt below, quote := quoteAt below, list := listAt below }

/-- Read the text of a document.  Its length bounds the number of marks in it and so the
levels. -/
def readDocument (extensions : List Extension) (text : List Char) : List Block × Definitions :=
  (reader (text.length + 1)).text { extensions := extensions } 0 {} text

end BlockReading
end Markdown
end Galley
