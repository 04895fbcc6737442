import Galley.Datum

/-!
# Tokens

A tokenizer hands over a forest of records with named fields.  Nothing is promised about
the fields, so a token keeps them as dynamic values; only the children of a record,
where they are a list, are tokens again.  Something that is no record may stand where a
token is expected.
-/

namespace Galley
namespace Markdown

/-- What a tokenizer hands over. -/
inductive Token where
  /-- A record that has no list of children. -/
  | leaf (fields : Fields)
  /-- A record with a list of children, which is not among its fields. -/
  | branch (fields : Fields) (children : List Token)
  /-- Something that is no record. -/
  | stray (value : Datum)
  deriving Repr, Inhabited

namespace Token

/-- The field that holds the children of a record. -/
def childrenKey : String := "children"

mutual

/-- Read a value as a token. -/
def ofDatum (value : Datum) : Token :=
  match value with
  | .dict entries =>
      let others := entries.filter fun entry => entry.1 != childrenKey
      match childrenOf entries with
      | some children => .branch others children
      | none => .leaf entries
  | .null => .stray .null
  | .bool truth => .stray (.bool truth)
  | .int number => .stray (.int number)
  | .text text => .stray (.text text)
  | .list items => .stray (.list items)

/-- The children among the entries of a record, where they are a list. -/
def childrenOf (entries : List (String × Datum)) : Option (List Token) :=
  match entries with
  | [] => none
  | (name, value) :: rest =>
      if name = childrenKey then tokensOf? value else childrenOf rest

/-- A list of values as tokens. -/
def tokensOf? (value : Datum) : Option (List Token) :=
  match value with
  | .list items => some (ofItems items)
  | .null | .bool _ | .int _ | .text _ | .dict _ => none

/-- Values as tokens. -/
def ofItems (items : List Datum) : List Token :=
  match items with
  | [] => []
  | item :: rest => ofDatum item :: ofItems rest

end

/-- The tokens of a document.  Anything but a list holds none. -/
def forest (value : Datum) : List Token :=
  (tokensOf? value).getD []

/-- The fields of a record. -/
def fields? : Token → Option Fields
  | .leaf fields => some fields
  | .branch fields _ => some fields
  | .stray _ => none

/-- The children of a record, none where they are no list. -/
def children : Token → List Token
  | .branch _ children => children
  | _ => []

/-- A token of a kind with a text, if it has one, further fields and children. -/
def make (kind : String) (raw : Option String) (others : Fields) (children : Option (List Token)) :
    Token :=
  let fields : Fields :=
    ("type", .text kind) :: (raw.toList.map fun text => ("raw", .text text)) ++ others
  match children with
  | some children => .branch fields children
  | none => .leaf fields

/-- The kind of a record. -/
def kind (fields : Fields) : Datum :=
  fields.getD "type" (.text "")

mutual

/-- Whether a token, or one below it, is a record of a kind. -/
def mentions (name : String) (token : Token) : Bool :=
  match token with
  | .leaf fields => (kind fields).same (.text name)
  | .branch fields children => (kind fields).same (.text name) || mention name children
  | .stray _ => false
termination_by structural token

/-- Whether one of some tokens, or one below them, is a record of a kind. -/
def mention (name : String) (tokens : List Token) : Bool :=
  match tokens with
  | [] => false
  | token :: rest => token.mentions name || mention name rest
termination_by structural tokens

end

end Token

end Markdown
end Galley
