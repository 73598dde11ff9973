import HtmlMend.Markup.Token
import HtmlMend.Text.Lowercase

/-! # Markup: tags and styles in writing

The text of a tag. A value stands in double quotes unless it holds double quotes and no apostrophe;
within them the quote is escaped, and in a value that is not encoded yet the ampersand and the
angle brackets are too. The value of an attribute may be an inline style, a list of declarations
into which others can be merged. -/

namespace HtmlMend

/-! ## Tags -/

namespace Markup

/-- The quotes around an attribute value. -/
inductive Quote
  | double
  | single
deriving DecidableEq, Repr

/-- The character of a quote. -/
def Quote.char : Quote → Char
  | .double => '"'
  | .single => '\''

/-- The reference to a quote. -/
def Quote.reference : Quote → List Char
  | .double => ['&', 'q', 'u', 'o', 't', ';']
  | .single => ['&', '#', '3', '9', ';']

/-- The quotes for a value. -/
def Quote.choose (value : String) : Quote :=
  if value.toList.contains '"' && !value.toList.contains '\'' then .single else .double

/-- One character of a value in quotes. -/
def escapeChar (quote : Quote) (encoded : Bool) (c : Char) : List Char :=
  if c = quote.char then quote.reference
  else if encoded then [c]
  else if c = '&' then ['&', 'a', 'm', 'p', ';']
  else if c = '<' then ['&', 'l', 't', ';']
  else if c = '>' then ['&', 'g', 't', ';']
  else [c]

/-- A value as it is written between quotes. -/
def escape (quote : Quote) (encoded : Bool) (value : String) : String :=
  String.ofList (value.toList.flatMap (escapeChar quote encoded))

/-- An attribute with the space before it. -/
def writeAttribute (encoded : Bool) (name : String) : Option String → String
  | none => " " ++ name
  | some value =>
    let quote := Quote.choose value
    " " ++ name ++ "=" ++ quote.char.toString ++ escape quote encoded value ++ quote.char.toString

/-- A start tag. -/
def writeStartTag (encoded : Bool) (name : String) (attrs : Attributes) : String :=
  "<" ++ name ++ String.join (attrs.toList.map fun e => writeAttribute encoded e.1 e.2) ++ ">"

/-- An end tag. -/
def writeEndTag (name : String) : String := "</" ++ name ++ ">"

end Markup

/-! ## Inline styles

An inline style is a list of declarations, separated by semicolons. A declaration is kept as it is
written; its property is compared in lower case. -/

/-- A declaration of an inline style. -/
structure Declaration where
  property : String
  text : String
deriving DecidableEq, Repr

namespace Style

/-- The declaration that a field of a style holds; none if it is blank. -/
def readField (field : String) : Option Declaration :=
  let text := Text.strip field
  if text = "" then none
  else some ⟨Text.lower (Text.strip (Text.before ':' text)), text⟩

/-- The declarations of a style. -/
def declarations (style : String) : List Declaration :=
  (Text.fields ';' style).filterMap readField

/-- The declarations without those whose property is in `seen` or came before. -/
def firstOfEach (seen : List String) : List Declaration → List Declaration
  | [] => []
  | d :: rest =>
    if seen.contains d.property then firstOfEach seen rest
    else d :: firstOfEach (d.property :: seen) rest

/-- The declarations of a merged style: `leading`, those of `defaults` whose property the style
does not set, and the style itself, of each property the first. -/
def mergedDeclarations (style : String) (leading defaults : List String) : List Declaration :=
  let existing := declarations style
  let missing := (declarations ("; ".intercalate defaults)).filter fun d =>
    !(existing.map Declaration.property).contains d.property
  firstOfEach [] (declarations ("; ".intercalate leading) ++ missing ++ existing)

/-- A style with declarations merged into it. A semicolon at its end is kept. -/
def merge (style : String) (leading defaults : List String) : String :=
  let merged := (mergedDeclarations style leading defaults).map Declaration.text
  let closed := !merged.isEmpty && (Text.stripEndChars style.toList).getLast? == some ';'
  "; ".intercalate merged ++ (if closed then ";" else "")

end Style

end HtmlMend
