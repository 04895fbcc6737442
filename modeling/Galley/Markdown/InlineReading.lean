import Galley.Markdown.Inline
import Galley.Markdown.InlineForm
import Galley.Markdown.Options

/-!
# Reading inline text

The text of a block is read from left to right.  At each place the forms are tried in a
fixed order; where one starts, it either yields pieces or turns out to be plain text.
Emphasis and links hold texts of their own, which are read in turn.  A form that starts
inside such a text and reaches beyond its end takes precedence over it.
-/

namespace Galley
namespace Markdown
namespace InlineReading

/-- What stays the same while the text of a document is read. -/
structure Setting where
  /-- The extensions of Markdown that are recognised. -/
  extensions : List Extension
  /-- What the document defines. -/
  definitions : Definitions

/-- Whether an extension is recognised. -/
def Setting.has (setting : Setting) (extension : Extension) : Bool :=
  setting.extensions.contains extension

/-- What a text stands in. -/
structure Surroundings where
  /-- Inside a link there are no further links. -/
  link : Bool := false
  /-- Inside emphasis single marks are plain. -/
  emphasis : Bool := false
  /-- Inside strong emphasis double marks are plain. -/
  strong : Bool := false

/-- The pieces of a text in which abbreviations are known by name, after a number of
characters that belong to a name already found.  The plain characters just before are
given latest first. -/
def abbreviated (known : List (List Char × List Char)) :
    Nat → List Char → List Char → List Inline
  | _, plain, [] => if plain.isEmpty then [] else [.text plain.reverse]
  | skipped + 1, plain, _ :: rest => abbreviated known skipped plain rest
  | 0, plain, character :: rest =>
      match known.find? fun entry => entry.1.isPrefixOf (character :: rest) with
      | some (name, meaning) =>
          (if plain.isEmpty then [] else [.text plain.reverse])
            ++ .abbreviation name meaning :: abbreviated known (name.length - 1) [] rest
      | none => abbreviated known 0 (character :: plain) rest

/-- Put plain text behind pieces that are given latest first.  Where abbreviations are
known, they are looked for in it and in the text just before. -/
def addText (setting : Setting) (raw : List Char) (before : List Inline) : List Inline :=
  match setting.definitions.abbreviations with
  | [] => .text raw :: before
  | known =>
      let (joined, others) :=
        match before with
        | .text previous :: others => (previous ++ raw, others)
        | _ => (raw, before)
      if joined.isEmpty then .text joined :: others
      else (abbreviated known 0 [] joined).reverse ++ others

/-- What a form yields. -/
structure Yield where
  /-- Its pieces. -/
  pieces : List Inline
  /-- The number of its characters. -/
  length : Nat
  /-- What the text behind it stands in, where that changes. -/
  inLink : Option Bool := none

/-- What a form yields when it reaches up to the rest of a text. -/
def Yield.upTo (text rest : List Char) (pieces : List Inline) : Yield where
  pieces := pieces
  length := text.length - rest.length

/-- A reader of the texts inside emphasis and links. -/
abbrev Reader := Surroundings → List Char → List Inline

/-- The outcome of trying a form at a place: it does not start there, or it starts and
is plain, or it yields something. -/
abbrev Attempt := Option (Option Yield)

/-- The attempt at a form that always yields something where it starts. -/
def Attempt.ofForm (text : List Char) (form : Option (List Inline × List Char)) : Attempt :=
  form.map fun (pieces, rest) => some (.upTo text rest pieces)

/-- Escaped punctuation marks. -/
def escape (text : List Char) : Attempt :=
  let marks := escapedMarks text
  if marks.isEmpty then none else some (some ⟨[.text (unescape marks)], marks.length, none⟩)

/-- Code between runs of backticks; a run that nothing closes is plain. -/
def code (text : List Char) : Attempt :=
  let size := InlineForm.run '`' text
  if size = 0 then none
  else
    match InlineForm.code? size (text.drop size) with
    | some (raw, rest) => some (some (.upTo text rest [.code raw]))
    | none => some (some ⟨[.text (text.take size)], size, none⟩)

/-- An address between angle brackets: a link to itself, or plain text inside a link. -/
def addressYield (setting : Setting) (inside : Surroundings) (text rest url : List Char)
    (shown : List Char) : Yield :=
  if inside.link then
    .upTo text rest (addText setting (text.take (text.length - rest.length)) []).reverse
  else .upTo text rest [.link ⟨targetText url, none⟩ [.text shown]]

/-- An address with a scheme. -/
def address (setting : Setting) (inside : Surroundings) (text : List Char) : Attempt :=
  (InlineForm.address? text).map fun (shown, rest) =>
    some (addressYield setting inside text rest shown shown)

/-- A mail address. -/
def mailAddress (setting : Setting) (inside : Surroundings) (text : List Char) : Attempt :=
  (InlineForm.mailAddress? text).map fun (shown, rest) =>
    some (addressYield setting inside text rest ("mailto:".toList ++ shown) shown)

/-- Whether markup opens or closes a link. -/
def linkChange (raw : List Char) : Option Bool :=
  let starts (marks : List String) : Bool := marks.any fun mark => mark.toList.isPrefixOf raw
  if starts ["<a ", "<a>", "<A ", "<A>"] then some true
  else if starts ["</a ", "</a>", "</A ", "</A>"] then some false
  else none

/-- Raw markup. -/
def markup (text : List Char) : Attempt :=
  (Markup.afterInline? text).map fun rest =>
    let raw := text.take (text.length - rest.length)
    some { Yield.upTo text rest [.markup raw] with inLink := linkChange raw }

/-- The forms that can take precedence over emphasis and links. -/
inductive Preceding where
  | code
  | link
  | address
  | markup
  deriving DecidableEq

/-- The form that seems to start at a place. -/
def Preceding.at? (withLinks : Bool) (text : List Char) : Option Preceding :=
  if text.head? = some '`' then some .code
  else if withLinks && (text.head? == some '[' || ['!', '['].isPrefixOf text) then some .link
  else if (InlineForm.scheme? text).isSome then some .address
  else if Markup.starts text then some .markup
  else none

/-- The first place of a text where a form seems to start: the form, the characters
before it, and the text from there on.  Only a number of characters is looked at. -/
def firstPreceding (withLinks : Bool) : Nat → List Char →
    Option (Preceding × List Char × List Char)
  | 0, _ => none
  | _, [] => none
  | count + 1, character :: rest =>
      match Preceding.at? withLinks ((character :: rest).take (count + 1)) with
      | some form => some (form, [], character :: rest)
      | none =>
          (firstPreceding withLinks count rest).map fun (form, before, text) =>
            (form, character :: before, text)

/-- What takes precedence over a form whose mark is followed by a number of characters
of its own: the first other form among these, if it reaches to their end or beyond. -/
def precedence (withLinks : Bool) (attempt : Preceding → List Char → Attempt) (mark : List Char)
    (count : Nat) (text : List Char) : Option Yield := do
  let (form, before, start) ← firstPreceding withLinks count text
  let yield ← (attempt form start).join
  if before.length + yield.length < count then none
  else
    some {
      pieces := .text (mark ++ before) :: yield.pieces
      length := mark.length + before.length + yield.length }

/-- The attempt at a form that can take precedence over a link. -/
def precedingLink (setting : Setting) (inside : Surroundings) (form : Preceding)
    (text : List Char) : Attempt :=
  match form with
  | .code => code text
  | .address => address setting inside text
  | .markup => markup text
  | .link => none

/-- A link or an image around a text. -/
def linkPiece (read : Reader) (inside : Surroundings) (isImage : Bool) (target : Target)
    (text : List Char) : Inline :=
  if isImage then .image target (read inside text)
  else .link target (read { inside with link := true } text)

/-- The link or image that a text in brackets makes with what follows: a target in
parentheses, or the definition of a label. -/
def completedLink (setting : Setting) (read : Reader) (inside : Surroundings) (isImage : Bool)
    (label : Option (List Char)) (text follows : List Char) : Option (Inline × List Char) :=
  let direct :=
    match follows with
    | '(' :: behind => Link.target? behind
    | _ => none
  match direct with
  | some (target, rest) => some (linkPiece read inside isImage target text, rest)
  | none =>
      let (name, rest) :=
        match follows with
        | '[' :: behind =>
            match Link.label? behind with
            | some (second, rest) => (if second.isEmpty then label else some second, rest)
            | none => (label, follows)
        | _ => (label, follows)
      (name.bind fun name => setting.definitions.links.lookup (Link.key name)).map fun target =>
        (linkPiece read inside isImage target text, rest)

/-- A link or an image. -/
def link (setting : Setting) (read : Reader) (inside : Surroundings) (text : List Char) :
    Attempt :=
  let isImage := text.head? == some '!'
  let mark := if isImage then ['!', '['] else ['[']
  match mark.isPrefixOf? text with
  | none => none
  | some behind =>
      if inside.link && !isImage then some (some ⟨[.text mark], mark.length, none⟩)
      else
        let label := Link.label? behind
        some do
          let (inner, follows) ← label <|> Link.text? behind
          if label.isNone && follows.isEmpty then none
          else
            let count := behind.length - follows.length
            precedence false (precedingLink setting inside) mark count behind <|>
              (completedLink setting read inside isImage (label.map (·.1)) inner follows).map
                fun (piece, rest) => .upTo text rest [piece]

/-- The attempt at a form that can take precedence over emphasis. -/
def precedingEmphasis (setting : Setting) (read : Reader) (inside : Surroundings)
    (form : Preceding) (text : List Char) : Attempt :=
  match form with
  | .link => link setting read inside text
  | .code | .address | .markup => precedingLink setting inside form text

/-- The piece that a run of marks makes of the text that it emphasises. -/
def emphasisPiece (read : Reader) (inside : Surroundings) (count : Nat) (text : List Char) :
    Inline :=
  match count with
  | 1 => .emphasis (read { inside with emphasis := true } text)
  | 2 => .strong (read { inside with strong := true } text)
  | _ => .emphasis [.strong (read { inside with emphasis := true, strong := true } text)]

/-- Emphasis between runs of marks; a run that nothing closes is plain, and so is one
inside emphasis of its own kind. -/
def emphasis (setting : Setting) (read : Reader) (inside : Surroundings) (before : Option Char)
    (text : List Char) : Attempt :=
  (InlineForm.emphasisRun? before text).map fun (mark, count) =>
    let marks := text.take count
    let behind := text.drop count
    let plain : Yield := ⟨[.text marks], count, none⟩
    if (count = 1 ∧ inside.emphasis) ∨ (count = 2 ∧ inside.strong) then some plain
    else
      match InlineForm.emphasised? mark count (some mark) behind with
      | none => some plain
      | some (inner, rest) =>
          let reach := behind.length - rest.length
          precedence true (precedingEmphasis setting read inside) marks reach behind <|>
            some (.upTo text rest [emphasisPiece read inside count inner])

/-- Text struck through between double tildes. -/
def strike (read : Reader) (inside : Surroundings) (text : List Char) : Attempt :=
  (['~', '~'].isPrefixOf? text).bind fun behind =>
    if InlineForm.canOpen '~' behind then
      some ((InlineForm.emphasised? '~' 2 (some '~') behind).map fun (inner, rest) =>
        .upTo text rest [.struck (read inside inner)])
    else none

/-- A reference to a footnote; plain text where there is no such footnote. -/
def note (setting : Setting) (text : List Char) : Attempt :=
  (['[', '^'].isPrefixOf? text).bind fun behind =>
    Attempt.ofForm text ((Link.label? behind).map fun (label, rest) =>
      let key := Link.key label
      if setting.definitions.notes.contains key then ([.footnote key], rest)
      else ([.text (text.take (text.length - rest.length))], rest))

/-- Math between dollar signs. -/
def math (text : List Char) : Attempt :=
  (['$'].isPrefixOf? text).bind fun behind =>
    Attempt.ofForm text ((InlineForm.math? behind).map fun (raw, rest) => ([.math raw], rest))

/-- The forms of cross references, in their order. -/
def crossReference (before : Option Char) (text : List Char) : Attempt :=
  InlineRule.all.findSome? fun rule =>
    (rule.match? before text).map fun found =>
      some ⟨[.crossReference rule found.raw], found.length, none⟩

/-- A break at the end of a line. -/
def lineEnd (text : List Char) : Attempt :=
  Attempt.ofForm text ((InlineForm.afterHardBreak? text).map fun rest => ([.hardBreak], rest))
    <|> Attempt.ofForm text ((InlineForm.afterSoftBreak? text).map fun rest => ([.softBreak], rest))

/-- Try the forms in their order. -/
def attempt (setting : Setting) (read : Reader) (inside : Surroundings) (before : Option Char)
    (text : List Char) : Attempt :=
  let extended (extension : Extension) (tried : Attempt) : Attempt :=
    if setting.has extension then tried else none
  escape text
    <|> code text
    <|> emphasis setting read inside before text
    <|> extended .strikethrough (strike read inside text)
    <|> extended .footnotes (note setting text)
    <|> extended .math (math text)
    <|> extended .crossReferences (crossReference before text)
    <|> link setting read inside text
    <|> address setting inside text
    <|> mailAddress setting inside text
    <|> markup text
    <|> lineEnd text

/-- Put the plain characters that were passed over behind the pieces. -/
def flush (setting : Setting) (plain : List Char) (pieces : List Inline) : List Inline :=
  if plain.isEmpty then pieces else addText setting plain.reverse pieces

/-- Read a text after a number of characters that belong to a form already found.
Pieces and plain characters so far are given latest first. -/
def readFrom (setting : Setting) (read : Reader) (inside : Surroundings) (before : Option Char)
    (pieces : List Inline) (plain : List Char) : Nat → List Char → List Inline
  | _, [] => (flush setting plain pieces).reverse
  | skipped + 1, character :: rest =>
      readFrom setting read inside (some character) pieces plain skipped rest
  | 0, character :: rest =>
      match attempt setting read inside before (character :: rest) with
      | none => readFrom setting read inside (some character) pieces (character :: plain) 0 rest
      | some none =>
          let pieces := addText setting [character] (flush setting plain pieces)
          readFrom setting read inside (some character) pieces [] 0 rest
      | some (some yield) =>
          let pieces := yield.pieces.reverse ++ flush setting plain pieces
          let inside := { inside with link := yield.inLink.getD inside.link }
          readFrom setting read inside (some character) pieces [] (yield.length - 1) rest

/-- Read a text with so many levels of texts inside it. -/
def readNested (setting : Setting) : Nat → Reader
  | 0, _, text => [.text text]
  | levels + 1, inside, text =>
      if text.isEmpty then [.text []]
      else readFrom setting (readNested setting levels) inside none [] [] 0 text

/-- Read a text.  Each text inside it is shorter, so its length bounds their levels. -/
def read (setting : Setting) (text : List Char) : List Inline :=
  readNested setting (text.length + 1) {} text

/-- The text of a block without the blanks around it; only blanks of ASCII count. -/
def trimmed (text : List Char) : List Char :=
  let isEdge (character : Char) : Bool := [' ', '\r', '\n', '\t', '\x0c'].contains character
  Text.dropEndWhile isEdge (text.dropWhile isEdge)

/-- Read the text of a block. -/
def readBlock (setting : Setting) (text : List Char) : List Inline :=
  read setting (trimmed text)

end InlineReading
end Markdown
end Galley
