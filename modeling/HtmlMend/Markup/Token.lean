import HtmlMend.NameMap
import HtmlMend.Text.Quoted
import HtmlMend.Text.Split

/-! # Markup: tokens

What a document is cut into. A token carries its raw text, everything read since the token before
it, so that the raw texts in order give the document back; a report on malformed markup stands
between tokens and has none. -/

/-! ## Diagnostics

What is reported about an input: where, and what. A place is written as the file and the line, the
line only if there is one and it is positive; an input without a file name is standard input. -/

namespace HtmlMend

/-- A report on malformed markup. -/
structure Diagnostic where
  code : String
  message : String
  line : Option Int := none
  file : Option String := none
deriving DecidableEq, Repr

namespace Diagnostic

/-- A diagnostic for a code. Without a message of its own the code is the message. -/
def ofCode (code : String) (line : Option Int := none) (message : String := "")
    (file : Option String := none) : Diagnostic where
  code
  message := if message = "" then code else message
  line
  file

/-- A place in an input. -/
def place (file : Option String) (line : Option Int) : String :=
  let name := file.getD "<stdin>"
  match line with
  | some n => if 0 < n then name ++ ":" ++ toString n else name
  | none => name

/-- A message with its place before it. -/
def located (file : Option String) (line : Option Int) (message : String) : String :=
  place file line ++ ": " ++ message

/-- The text of a diagnostic. -/
def text (d : Diagnostic) : String := located d.file d.line d.message

/-- A short description of a diagnostic for a log. -/
def describe (d : Diagnostic) : String :=
  match d.line with
  | some n => "ParseError(" ++ Text.quoted d.code ++ ", line=" ++ toString n ++ ")"
  | none => "ParseError(" ++ Text.quoted d.code ++ ")"

/-- Two diagnostics agree if they report the same code at the same place; the wording of the
message does not count. -/
def agrees (d e : Diagnostic) : Bool :=
  d.code = e.code && d.line = e.line && d.file = e.file

/-- A diagnostic for a file. -/
def inFile (d : Diagnostic) (file : Option String) : Diagnostic := { d with file }

end Diagnostic

end HtmlMend

namespace HtmlMend.Markup

/-! ## Elements

The elements that the rules for pages speak about, each by its role. All others are alike. -/

/-- The kind of a cell: data or header. -/
inductive CellKind
  | data
  | header
deriving DecidableEq, Repr

/-- The name of the element of a cell. -/
def CellKind.tagName : CellKind → String
  | .data => "td"
  | .header => "th"

/-- The kind of cell that an element name stands for. -/
def CellKind.ofTagName? (name : String) : Option CellKind :=
  if name = "td" then some .data else if name = "th" then some .header else none

/-- The role of an element. -/
inductive Element
  /-- The whole document. -/
  | html
  /-- A statement about the document. -/
  | metadata
  /-- A part of the page that is not its main content. -/
  | sectioning
  /-- A part of the page that holds links; a kind of sectioning element. -/
  | navigation
  | body
  /-- The main content. -/
  | main
  | table
  /-- A group of rows. -/
  | rowGroup
  | row
  | cell (kind : CellKind)
  | other
deriving DecidableEq, Repr

namespace Element

/-- The names of the elements with a role, other than cells. -/
def roles : List (String × Element) :=
  [("html", .html), ("meta", .metadata), ("article", .sectioning), ("aside", .sectioning),
   ("footer", .sectioning), ("header", .sectioning), ("nav", .navigation), ("body", .body),
   ("main", .main), ("table", .table), ("thead", .rowGroup), ("tbody", .rowGroup), ("tr", .row)]

/-- The role of the element of a name. -/
def ofName (name : String) : Element :=
  match CellKind.ofTagName? name with
  | some kind => .cell kind
  | none => (roles.lookup name).getD .other

/-- Whether an element is a part of the page that is not its main content. -/
def isSectioning : Element → Bool
  | .sectioning | .navigation => true
  | _ => false

end Element

/-! ## Tokens -/

/-- The attributes of a tag; an attribute may have no value. -/
abbrev Attributes := NameMap (Option String)

/-- A piece of a raw text, from offset `start` up to offset `stop`. -/
structure Span where
  start : Nat
  stop : Nat
deriving DecidableEq, Repr

/-- A start tag. The spans say where in the raw text the values of its attributes stand. -/
structure StartTag where
  name : String
  attrs : Attributes := .empty
  selfClosing : Bool := false
  spans : NameMap Span := .empty
  line : Option Int := none
  raw : String := ""
deriving DecidableEq

/-- An end tag. -/
structure EndTag where
  name : String
  line : Option Int := none
  raw : String := ""
deriving DecidableEq

/-- A token. -/
inductive Token
  | startTag (tag : StartTag)
  | endTag (tag : EndTag)
  | text (data : String) (line : Option Int) (raw : String)
  | comment (data : String) (line : Option Int) (raw : String)
  | doctype (data : String) (line : Option Int) (raw : String)
  | malformed (report : Diagnostic)
  | endOfInput (line : Option Int) (raw : String)
deriving DecidableEq

/-- The attributes of a tag as they were written: a value with a span is the text at it. -/
def StartTag.sourceAttrs (tag : StartTag) : Attributes :=
  tag.attrs.mapWithName fun name value =>
    match tag.spans.get? name with
    | some span => some (Text.slice tag.raw span.start span.stop)
    | none => value

/-- The raw text of a token; a report has none. -/
def Token.raw : Token → String
  | .startTag tag => tag.raw
  | .endTag tag => tag.raw
  | .text _ _ raw | .comment _ _ raw | .doctype _ _ raw | .endOfInput _ raw => raw
  | .malformed _ => ""

/-! ### Descriptions -/

/-- An attribute with its value in quotes. -/
def describeAttribute (name : String) (value : Option String) : String :=
  name ++ "=" ++ (value.map Text.quoted).getD "None"

/-- A start tag with the values of its attributes in quotes. -/
def StartTag.describe (tag : StartTag) : String :=
  "<start:" ++ tag.name ++ (if tag.selfClosing then " /" else "") ++
    String.join (tag.attrs.toList.map fun e => " " ++ describeAttribute e.1 e.2) ++ ">"

/-- An end tag. -/
def EndTag.describe (tag : EndTag) : String := "<end:" ++ tag.name ++ ">"

end HtmlMend.Markup
