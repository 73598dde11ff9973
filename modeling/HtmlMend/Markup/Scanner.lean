import HtmlMend.Input.Reader
import HtmlMend.Markup.Construct

/-! # Markup: the scanner

The scanner cuts what a reader delivers into tokens. It looks at one character at a time, before
the reader moves past it, so a token is passed on only when the character after it is known.

Text is passed on at its line ends and before each `<`. A construct that breaks off is reported,
and its text begins the next text token. Sections that leave no token are pending until the next
token and are part of its raw text. Within a script, from its start tag to its end tag, all else is
text and nothing is reported. -/

namespace HtmlMend.Markup

open Input

/-- What the scanner is reading. -/
inductive Mode
  /-- Text, or nothing yet. -/
  | text
  /-- Text that has just come to the end of a line. -/
  | lineEnd
  /-- A construct. -/
  | within (u : Unfinished)
  /-- A construct that has just been completed. -/
  | closed (k : Construct)
deriving DecidableEq

/-- A scanner. A scan begins with `xml` as `xmlFirst` says; an XML declaration sets it. -/
structure Scanner where
  xmlFirst : Bool := false
  xml : Bool := false
  inScript : Bool := false
  mode : Mode := .text
  /-- The line on which the construct began. -/
  markupLine : Nat := 1
  /-- The text that is not passed on yet. -/
  text : String := ""
  /-- The line on which that text began. -/
  textLine : Nat := 1
deriving DecidableEq

/-- The scanner's answer to a lookahead: itself, the place in the input, and the tokens. -/
structure Reaction where
  scanner : Scanner
  cursor : Cursor
  tokens : List Token := []
deriving DecidableEq

namespace Scanner

/-- A scanner before its first document. -/
def new (xml : Bool) : Scanner := { xmlFirst := xml, xml }

/-- The scanner at the beginning of a document. -/
def restart (s : Scanner) : Scanner := new s.xmlFirst

/-- Pass the text on, if there is any or a section that left no token. -/
def flush (s : Scanner) (cur : Cursor) : Reaction :=
  if s.text = "" ∧ cur.pending = "" then ⟨s, cur, []⟩
  else
    let line := if s.text = "" then cur.line else s.textLine
    ⟨{ s with text := "" }, cur.clear, [.text s.text (some line) cur.pending]⟩

/-- The lookahead in text: the end of the input, the beginning of a construct, or one character
more. -/
def readText (s : Scanner) (cur : Cursor) : Option Char → Reaction
  | none =>
    let r := s.flush cur
    { scanner := r.scanner
      cursor := r.cursor.clear
      tokens := r.tokens ++ [.endOfInput (some r.cursor.line) r.cursor.pending] }
  | some '<' =>
    let r := s.flush cur
    { r with scanner := { r.scanner with mode := .within .begun, markupLine := cur.line } }
  | some c =>
    let mode := if c = '\n' then .lineEnd else .text
    let textLine := if s.text = "" then cur.line else s.textLine
    ⟨{ s with mode, textLine, text := s.text.push c }, cur, []⟩

/-- Pass a complete construct on. -/
def complete (s : Scanner) (cur : Cursor) (k : Construct) : Reaction :=
  let s := { s with mode := .text }
  let line := some (s.markupLine : Int)
  match k with
  | .startTag name attrs selfClosing spans =>
    ⟨{ s with inScript := s.inScript || name = "script" }, cur.clear,
      [.startTag ⟨name, attrs, selfClosing, spans, line, cur.pending⟩]⟩
  | .endTag name =>
    ⟨{ s with inScript := false }, cur.clear, [.endTag ⟨name, line, cur.pending⟩]⟩
  | .comment data => ⟨s, cur.clear, [.comment data line cur.pending]⟩
  | .doctype data => ⟨s, cur.clear, [.doctype data line cur.pending]⟩
  | .cdata => ⟨s, cur, []⟩
  | .xmlDeclaration => ⟨{ s with xml := true }, cur, []⟩

/-- Report a construct that breaks off, and go on with its text. -/
def breakOff (s : Scanner) (cur : Cursor) : Reaction where
  scanner := { s with mode := .text, text := cur.pending, textLine := cur.line }
  cursor := cur
  tokens := if s.inScript then [] else [.malformed (.ofCode "bad html" (some cur.line))]

end Scanner

/-- The lookahead in text, after a reaction to it. -/
def Reaction.readText (r : Reaction) (look : Option Char) : Reaction :=
  let next := r.scanner.readText r.cursor look
  { next with tokens := r.tokens ++ next.tokens }

namespace Scanner

/-- What becomes of an unfinished construct with the lookahead; it breaks off at the end of the
input. -/
def progress (s : Scanner) (cur : Cursor) (u : Unfinished) : Option Char → Progress
  | some c => u.next s.xml s.inScript cur.pending c
  | none => .broken

/-- The scanner's reaction to the lookahead. -/
def react (s : Scanner) (cur : Cursor) (look : Option Char) : Reaction :=
  match s.mode with
  | .text => s.readText cur look
  | .lineEnd => ({ s with mode := .text }.flush cur).readText look
  | .closed k => (s.complete cur k).readText look
  | .within u =>
    let s := { s with mode := .text }
    match s.progress cur u look with
    | .more u => ⟨{ s with mode := .within u }, cur, []⟩
    | .done k => ⟨{ s with mode := .closed k }, cur, []⟩
    | .broken => (s.breakOff cur).readText look

end Scanner

/-! ### Scans -/

/-- The outcome of a scan: the tokens, the scanner after it, and the failure that ended it early. -/
structure Scan where
  tokens : Array Token
  scanner : Scanner
  failure : Option ReadFailure := none

namespace Scanner

/-- Scan what a reader has before it, after the tokens in `passed`. -/
def follow (s : Scanner) (r : Reader) (passed : Array Token) : Scan :=
  let ⟨scanner, cursor, tokens⟩ := s.react r.cursor r.lookahead
  let passed := passed ++ tokens
  match _look : r.lookahead with
  | none => { tokens := passed, scanner }
  | some _ =>
    match _read : { r with cursor }.advance with
    | (_, some why) => { tokens := passed, scanner, failure := some why }
    | (next, none) => scanner.follow next passed
termination_by r.remaining
decreasing_by
  have lt := Reader.remaining_advance_lt (r := { r with cursor }) _look (by rw [_read])
  rw [_read] at lt
  exact lt

/-- Scan a document from its beginning. -/
def scan (s : Scanner) (r : Reader) : Scan :=
  match r.start with
  | (_, some why) => { tokens := #[], scanner := s.restart, failure := some why }
  | (r, none) => s.restart.follow r #[]

end Scanner

end HtmlMend.Markup
