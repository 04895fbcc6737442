import Galley.Markdown.Tree

/-!
# Well-formed tokens

A tokenizer hands over records of certain kinds, each in a role: blocks, inline tokens,
and the parts of tables and definition lists.  A record of a kind is a text, or nothing
but its kind, or it holds tokens in a further role.  Images and abbreviations, which are
read in a way of their own, are left out.
-/

namespace Galley
namespace Markdown

/-- What a token is read as. -/
inductive Role where
  | block
  | inline
  | tablePart
  | tableRow
  | tableCell
  | definitionPart
  deriving DecidableEq, Repr

/-- What a record consists of. -/
inductive Content where
  /-- A text. -/
  | text
  /-- Nothing but its kind. -/
  | nothing
  /-- Tokens in a role. -/
  | tokens (role : Role)
  deriving DecidableEq, Repr

/-- What the records of a kind consist of, where the kind may stand in a role. -/
def content? (role : Role) (kind : String) : Option Content :=
  match role with
  | .block =>
      match kind with
      | "heading" | "paragraph" | "block_text" => some (.tokens .inline)
      | "block_code" | "block_html" | "block_math" => some .text
      | "blank_line" | "thematic_break" => some .nothing
      | "block_quote" | "list" | "list_item" => some (.tokens .block)
      | "table" => some (.tokens .tablePart)
      | "def_list" => some (.tokens .definitionPart)
      | _ => none
  | .inline =>
      match kind with
      | "text" | "codespan" | "inline_html" | "inline_math" | "block_math" | "footnote_ref"
      | "asciimark_label" | "asciimark_reference" | "asciimark_action_item"
      | "asciimark_issue_link" => some .text
      | "softbreak" | "linebreak" => some .nothing
      | "emphasis" | "strikethrough" | "strong" | "link" => some (.tokens .inline)
      | _ => none
  | .tablePart =>
      match kind with
      | "table_head" => some (.tokens .tableCell)
      | "table_body" => some (.tokens .tableRow)
      | _ => none
  | .tableRow => if kind = "table_row" then some (.tokens .tableCell) else none
  | .tableCell => if kind = "table_cell" then some (.tokens .inline) else none
  | .definitionPart =>
      match kind with
      | "def_list_head" => some (.tokens .inline)
      | "def_list_item" => some (.tokens .block)
      | _ => none

/-- What a record consists of in a role. -/
def contentOf? (role : Role) (fields : Fields) : Option Content :=
  match Token.kind fields with
  | .text kind => content? role kind
  | _ => none

/-- Whether a value is a text where it is given. -/
def isTextIfGiven (value : Option Datum) : Bool :=
  match value with
  | none | some .null | some (.text _) => true
  | _ => false

/-- The raw text of a record. -/
def rawText? (fields : Fields) : Option String :=
  (fields.get? "raw").bind Datum.text?

/-- The information about the language of code. -/
def information? (fields : Fields) : Option Datum :=
  (attributesOf? fields).bind fun attributes => attributes.get? "info"

/-- Whether the fields of a record are those of its content: a text has raw text and
nothing else does, and the language of code and the text of a term are texts where they
are given. -/
def hasFields (content : Content) (fields : Fields) : Bool :=
  isTextIfGiven (information? fields) && isTextIfGiven (fields.get? "text") &&
    match content with
    | .text => (rawText? fields).isSome
    | .nothing | .tokens _ => (fields.get? "raw").isNone

mutual

/-- Whether a token is well formed in a role. -/
def isWellFormed (role : Role) (token : Token) : Bool :=
  match token with
  | .stray _ => false
  | .leaf fields =>
      (fields.get? Token.childrenKey).isNone &&
        match contentOf? role fields with
        | some content => hasFields content fields
        | none => false
  | .branch fields children =>
      match contentOf? role fields with
      | some (.tokens inner) => hasFields (.tokens inner) fields && areWellFormed inner children
      | some content => hasFields content fields && children.isEmpty
      | none => false
termination_by structural token

/-- Whether tokens are well formed in a role. -/
def areWellFormed (role : Role) (tokens : List Token) : Bool :=
  match tokens with
  | [] => true
  | token :: rest => isWellFormed role token && areWellFormed role rest
termination_by structural tokens

end

/-- The text that a record is by itself: a newline for a soft break, and else its raw
text. -/
def ownText (fields : Fields) : List String :=
  match Token.kind fields with
  | .text "softbreak" => ["\n"]
  | _ => (rawText? fields).toList

/-- The text that stands in for the children of a term: one that is not empty. -/
def standIn (fields : Fields) : List String :=
  match Token.kind fields, fields.get? "text" with
  | .text "def_list_head", some (.text text) => if text.isEmpty then [] else [text]
  | _, _ => []

mutual

/-- The texts of a token and of the tokens below it, each before those below. -/
def texts (token : Token) : List String :=
  match token with
  | .stray _ => []
  | .leaf fields => ownText fields ++ standIn fields
  | .branch fields children =>
      ownText fields ++ if children.isEmpty then standIn fields else textsOf children
termination_by structural token

/-- The texts of tokens, one token after the other. -/
def textsOf (tokens : List Token) : List String :=
  match tokens with
  | [] => []
  | token :: rest => texts token ++ textsOf rest
termination_by structural tokens

end

/-! ## What well-formed tokens are -/

theorem areWellFormed_iff {role : Role} {tokens : List Token} :
    areWellFormed role tokens = true ↔ ∀ token ∈ tokens, isWellFormed role token = true := by
  induction tokens with
  | nil => simp [areWellFormed]
  | cons token rest inductionHypothesis =>
      rw [areWellFormed, Bool.and_eq_true, inductionHypothesis, List.forall_mem_cons]

/-- A well-formed token is a record with the fields of its content, and only tokens in
the role that the content names stand below it. -/
structure Formed (role : Role) (token : Token) (fields : Fields) (content : Content) : Prop where
  /-- The token is a record. -/
  record : token.fields? = some fields
  /-- Its kind may stand in the role. -/
  placed : contentOf? role fields = some content
  /-- Its fields are those of its content. -/
  fits : hasFields content fields = true
  /-- The tokens below are well formed. -/
  below : ∀ inner, content = .tokens inner →
    ∀ child ∈ token.children, isWellFormed inner child = true
  /-- Nothing is below a text, or where there is nothing but a kind. -/
  bare : (∀ inner, content ≠ .tokens inner) → token.children = []

theorem exists_formed {role : Role} {token : Token} (formed : isWellFormed role token = true) :
    ∃ fields content, Formed role token fields content := by
  cases token with
  | stray value => cases formed
  | leaf fields =>
      rw [isWellFormed, Bool.and_eq_true] at formed
      cases found : contentOf? role fields with
      | none =>
          rw [found] at formed
          cases formed.2
      | some content =>
          rw [found] at formed
          exact ⟨fields, content, rfl, found, formed.2, fun _ _ => List.forall_mem_nil _,
            fun _ => rfl⟩
  | branch fields children =>
      rw [isWellFormed] at formed
      cases found : contentOf? role fields with
      | none =>
          rw [found] at formed
          cases formed
      | some content =>
          rw [found] at formed
          cases content with
          | tokens inner =>
              rw [Bool.and_eq_true, areWellFormed_iff] at formed
              refine ⟨fields, .tokens inner, rfl, found, formed.1, ?_, fun other => ?_⟩
              · rintro _ ⟨⟩
                exact formed.2
              · exact absurd rfl (other inner)
          | text =>
              rw [Bool.and_eq_true, List.isEmpty_iff] at formed
              exact ⟨fields, .text, rfl, found, formed.1, nofun, fun _ => formed.2⟩
          | nothing =>
              rw [Bool.and_eq_true, List.isEmpty_iff] at formed
              exact ⟨fields, .nothing, rfl, found, formed.1, nofun, fun _ => formed.2⟩

/-- What a rule goes through one by one is what stands below a well-formed token. -/
theorem elements_eq {role : Role} {token : Token} (formed : isWellFormed role token = true) :
    elements token = pure token.children := by
  cases token with
  | stray value => cases formed
  | branch fields children => rfl
  | leaf fields =>
      rw [isWellFormed, Bool.and_eq_true, Option.isNone_iff_eq_none] at formed
      rw [elements, formed.1]
      rfl

namespace Formed

variable {role : Role} {token : Token} {fields : Fields} {content : Content}

/-- The kind of a well-formed record is a name that may stand in its role. -/
theorem exists_kind (formed : Formed role token fields content) :
    ∃ kind, Token.kind fields = .text kind ∧ content? role kind = some content := by
  have placed := formed.placed
  unfold contentOf? at placed
  split at placed
  · rename_i kind same
    exact ⟨kind, same, placed⟩
  · cases placed

/-- A record whose content is a text has that text as raw text. -/
theorem exists_raw (formed : Formed role token fields .text) :
    ∃ raw, fields.get? "raw" = some (.text raw) := by
  have fits := formed.fits
  simp only [hasFields, Bool.and_eq_true, rawText?] at fits
  cases found : fields.get? "raw" with
  | none =>
      rw [found] at fits
      cases fits.2
  | some value =>
      cases value with
      | text raw => exact ⟨raw, rfl⟩
      | _ =>
          rw [found] at fits
          cases fits.2

/-- Only a record whose content is a text has raw text. -/
theorem no_raw (formed : Formed role token fields content) (noText : content ≠ .text) :
    fields.get? "raw" = none := by
  have fits := formed.fits
  unfold hasFields at fits
  rw [Bool.and_eq_true] at fits
  cases content with
  | text => exact absurd rfl noText
  | nothing => exact Option.isNone_iff_eq_none.mp fits.2
  | tokens inner => exact Option.isNone_iff_eq_none.mp fits.2

/-- The texts of a record that no text stands in for are its own and those below it. -/
theorem texts_eq (formed : Formed role token fields content) (alone : standIn fields = []) :
    texts token = ownText fields ++ textsOf token.children := by
  have record := formed.record
  cases token with
  | stray value => cases record
  | leaf others =>
      obtain rfl : others = fields := Option.some.inj record
      rw [texts, alone]
      rfl
  | branch others children =>
      obtain rfl : others = fields := Option.some.inj record
      rw [texts, alone]
      cases children with
      | nil => rfl
      | cons child rest => rfl

/-- A text stands in only for the children of a term. -/
theorem standIn_eq_nil (formed : Formed role token fields content)
    (noTerm : content? role "def_list_head" ≠ some content) : standIn fields = [] := by
  obtain ⟨kind, isKind, placed⟩ := formed.exists_kind
  have other : kind ≠ "def_list_head" := by
    rintro rfl
    exact noTerm placed
  unfold standIn
  rw [isKind]
  split
  · rename_i same _
    exact absurd (Datum.text.inj same) other
  · rfl

/-- A record that is a text has this one text. -/
theorem exists_text (formed : Formed role token fields .text) :
    ∃ raw, fields.getD "raw" (.text "") = .text raw ∧ texts token = [raw] := by
  obtain ⟨kind, isKind, placed⟩ := formed.exists_kind
  obtain ⟨raw, found⟩ := formed.exists_raw
  have noTerm : content? role "def_list_head" ≠ some .text := by
    cases role <;> exact nofun
  have noBreak : kind ≠ "softbreak" := by
    rintro rfl
    cases role <;> cases placed
  refine ⟨raw, by rw [Fields.getD, found]; rfl, ?_⟩
  rw [formed.texts_eq (formed.standIn_eq_nil noTerm), formed.bare nofun]
  unfold ownText rawText?
  rw [isKind, found]
  split
  · rename_i same
    exact absurd (Datum.text.inj same) noBreak
  · rfl

/-- A record that is neither a text nor a soft break has no text of its own. -/
theorem ownText_eq_nil (formed : Formed role token fields content) (noText : content ≠ .text)
    (noBreak : Token.kind fields ≠ .text "softbreak") : ownText fields = [] := by
  unfold ownText rawText?
  rw [formed.no_raw noText]
  split
  · rename_i same
    exact absurd same noBreak
  · rfl

/-- The texts of a record that holds tokens are those of the tokens. -/
theorem texts_below {inner : Role} (formed : Formed role token fields (.tokens inner))
    (noTerm : content? role "def_list_head" ≠ some (.tokens inner)) :
    texts token = textsOf token.children := by
  obtain ⟨kind, isKind, placed⟩ := formed.exists_kind
  have noBreak : Token.kind fields ≠ .text "softbreak" := by
    intro same
    rw [isKind] at same
    obtain rfl := Datum.text.inj same
    cases role <;> cases placed
  rw [formed.texts_eq (formed.standIn_eq_nil noTerm), formed.ownText_eq_nil nofun noBreak,
    List.nil_append]

end Formed

end Markdown
end Galley
