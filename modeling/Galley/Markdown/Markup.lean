import Galley.Text.Blank

/-!
# Raw markup

Forms of raw HTML: tags with attributes, comments, processing instructions, declarations
and character data sections.  A reader of a form takes a text that starts with the form
and returns what follows it.
-/

namespace Galley
namespace Markdown
namespace Markup

/-- What follows the first occurrence of a mark. -/
def after? (mark : List Char) : List Char → Option (List Char)
  | [] => if mark.isEmpty then some [] else none
  | character :: rest =>
      match mark.isPrefixOf? (character :: rest) with
      | some follows => some follows
      | none => after? mark rest

/-- What follows a mark that at least one character precedes. -/
def afterInner? (mark : List Char) : List Char → Option (List Char)
  | [] => none
  | _ :: rest => after? mark rest

/-- Characters of a tag name behind its first letter. -/
def isNameChar (character : Char) : Bool :=
  character.isAlphanum || character == '-'

/-- A tag name and what follows it. -/
def tagName? : List Char → Option (List Char × List Char)
  | character :: rest =>
      if character.isAlpha then
        some (character :: rest.takeWhile isNameChar, rest.dropWhile isNameChar)
      else none
  | [] => none

/-- Characters of an attribute name. -/
def isAttributeChar (character : Char) : Bool :=
  character.isAlphanum || ['_', '.', ':', '-'].contains character

/-- Characters of a value without quotes. -/
def isValueChar (character : Char) : Bool :=
  !Text.isBlank character && ['!', '"', '\'', '=', '<', '>', '`'].all (· != character)

/-- What follows the value of an attribute. -/
def afterValue? : List Char → Option (List Char)
  | '"' :: rest => after? ['"'] rest
  | '\'' :: rest => after? ['\''] rest
  | text =>
      let rest := text.dropWhile isValueChar
      if rest.length < text.length then some rest else none

/-- What follows an equals sign and a value, where they are there. -/
def afterAssignment (text : List Char) : List Char :=
  match Text.trimStart text with
  | '=' :: rest => (afterValue? (Text.trimStart rest)).getD text
  | _ => text

/-- What follows at most so many attributes, each behind a blank. -/
def afterAttributesWithin : Nat → List Char → List Char
  | 0, text => text
  | count + 1, text =>
      match Text.trimStart text with
      | character :: rest =>
          let starts := character.isAlpha || character == '_' || character == ':'
          if starts ∧ rest.length + 1 < text.length then
            afterAttributesWithin count (afterAssignment (rest.dropWhile isAttributeChar))
          else text
      | [] => text

/-- What follows the attributes of a tag. -/
def afterAttributes (text : List Char) : List Char :=
  afterAttributesWithin text.length text

/-- What follows an opening tag. -/
def afterOpening? (text : List Char) : Option (List Char) :=
  (tagName? text).bind fun (_, rest) =>
    match Text.trimStart (afterAttributes rest) with
    | '/' :: '>' :: follows => some follows
    | '>' :: follows => some follows
    | _ => none

/-- What follows a closing tag. -/
def afterClosing? (text : List Char) : Option (List Char) :=
  (tagName? text).bind fun (_, rest) => ['>'].isPrefixOf? (Text.trimStart rest)

/-- What follows a comment, which holds no two hyphens in a row. -/
def afterComment? : List Char → Option (List Char)
  | '-' :: '-' :: rest => ['>'].isPrefixOf? rest
  | _ :: rest => afterComment? rest
  | [] => none

/-- What follows markup inside a line of text. -/
def afterInline? (text : List Char) : Option (List Char) :=
  match text with
  | '<' :: '/' :: rest => afterClosing? rest
  | '<' :: '?' :: rest => afterInner? "?>".toList rest
  | '<' :: '!' :: '-' :: '-' :: rest =>
      if rest.head? = some '>' ∨ "->".toList.isPrefixOf rest ∨ "--".toList.isPrefixOf rest then none
      else afterComment? rest
  | '<' :: '!' :: rest =>
      match "[CDATA".toList.isPrefixOf? rest with
      | some inner => afterInner? "]]>".toList inner
      | none =>
          if rest.head?.any Char.isUpper then afterInner? ['>'] (rest.drop 1) else none
  | '<' :: rest => afterOpening? rest
  | _ => none

/-- Whether a text starts as markup does. -/
def starts (text : List Char) : Bool :=
  match text with
  | '<' :: '/' :: rest => rest.head?.any Char.isAlpha
  | '<' :: character :: _ => character.isAlpha || character == '!' || character == '?'
  | _ => false

/-- Names of tags that start a block. -/
def blockTags : List String := [
  "address", "article", "aside", "base", "basefont", "blockquote", "body", "caption", "center",
  "col", "colgroup", "dd", "details", "dialog", "dir", "div", "dl", "dt", "fieldset", "figcaption",
  "figure", "footer", "form", "frame", "frameset", "h1", "h2", "h3", "h4", "h5", "h6", "head",
  "header", "hr", "html", "iframe", "legend", "li", "link", "main", "menu", "menuitem", "meta",
  "nav", "noframes", "ol", "optgroup", "option", "p", "param", "section", "source", "summary",
  "table", "tbody", "td", "tfoot", "th", "thead", "title", "tr", "track", "ul"]

/-- Names of tags whose content is kept as it is written. -/
def verbatimTags : List String := ["pre", "script", "style", "textarea"]

/-- How a block of markup starts. -/
inductive Opening where
  | comment
  | instruction
  | characterData
  | declaration
  /-- An opening tag with its name in small letters. -/
  | tag (name : String)
  /-- A closing tag with its name in small letters. -/
  | closingTag (name : String)
  deriving DecidableEq, Repr

/-- A name in small letters; tag names are ASCII. -/
def smallName (name : List Char) : String :=
  String.ofList (name.map Char.toLower)

/-- How a block of markup starts and what follows its start. -/
def opening? (text : List Char) : Option (Opening × List Char) :=
  match text with
  | '<' :: '!' :: '-' :: '-' :: rest => some (.comment, rest)
  | '<' :: '?' :: rest => some (.instruction, rest)
  | '<' :: '!' :: rest =>
      match "[CDATA[".toList.isPrefixOf? rest with
      | some inner => some (.characterData, inner)
      | none =>
          if rest.head?.any Char.isUpper then some (.declaration, rest.drop 1) else none
  | '<' :: '/' :: rest =>
      (tagName? rest).map fun (name, follows) => (.closingTag (smallName name), follows)
  | '<' :: rest => (tagName? rest).map fun (name, follows) => (.tag (smallName name), follows)
  | _ => none

/-- Whether markup that starts with an opening, and what follows it, breaks off a list
or a quotation: tags do so only by name and where nothing but the name stands in them. -/
def breaksOff (shown : List Char) (opening : Opening) (follows : List Char) : Bool :=
  let named (name : String) : Bool :=
    (blockTags.contains name || verbatimTags.contains name) && !shown.any Char.isUpper
      && follows.head?.all fun character => [' ', '\t', '\n'].contains character
  match opening with
  | .tag name => named name
  | .closingTag name => named name
  | _ => true

/-- Whether the first line of a text completes an opening tag and holds nothing else. -/
def completesTag (line : List Char) : Bool :=
  match (afterAttributes line).dropWhile fun character => character == ' ' || character == '\t' with
  | '>' :: rest => rest.all fun character => [' ', '\t', '\n'].contains character
  | _ => false

/-- Whether the first line of a text completes a closing tag and holds nothing else. -/
def completesClosingTag (line : List Char) : Bool :=
  match line.dropWhile fun character => character == ' ' || character == '\t' with
  | '>' :: rest => rest.all fun character => [' ', '\t', '\n'].contains character
  | _ => false

end Markup
end Markdown
end Galley
