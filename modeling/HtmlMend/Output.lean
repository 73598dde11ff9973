import HtmlMend.Markup.Written

/-! # Output: fragments and events

The output is a sequence of fragments. A fragment tells where its text is from: it is copied from
the input, or a rule has written it. What happens to a page and is worth a record in the log is an
event. -/

namespace HtmlMend.Output

open Markup

/-! ## Fragments -/

/-- A piece of the output. -/
inductive Fragment
  /-- A piece of the input. -/
  | copied (text : String)
  /-- A start tag that takes the place of the one in the input. -/
  | edited (text : String)
  /-- The start tag of an added `main` element. -/
  | mainStart
  /-- The end tag of an added `main` element. -/
  | mainEnd
  /-- The start tag of a row header that takes the place of that of a data cell. -/
  | headerStart (attrs : Markup.Attributes)
  /-- The end tag of such a row header. -/
  | headerEnd
deriving DecidableEq

/-- The text of a fragment. -/
def Fragment.text : Fragment → String
  | .copied text | .edited text => text
  | .mainStart => Markup.writeStartTag false "main" .empty
  | .mainEnd => Markup.writeEndTag "main"
  | .headerStart attrs => Markup.writeStartTag true "th" attrs
  | .headerEnd => Markup.writeEndTag "th"

/-- The text of fragments in order. -/
def textOf (fragments : List Fragment) : String := String.join (fragments.map Fragment.text)

/-! ## Events -/

/-- Why a table is not simple. -/
inductive Complication
  /-- There is a table in it. -/
  | nestedTable
  /-- A cell has an attribute that makes its place in the table hard to tell. -/
  | cellAttribute (kind : CellKind) (name : String)
  /-- It does not end. -/
  | unterminated
  /-- A reason given in words. -/
  | stated (reason : String)
deriving DecidableEq, Repr

/-- A complication in words. -/
def Complication.text : Complication → String
  | .nestedTable => "nested table"
  | .cellAttribute kind name => "<" ++ kind.tagName ++ "> has " ++ name
  | .unterminated => "unterminated"
  | .stated reason => reason

/-- An event. Events of a table have the line on which it begins. -/
inductive Event
  | mainAdded
  | malformed (report : Diagnostic)
  | tableNotSimple (line : Option Int) (why : Complication)
  | primaryColumn (line : Option Int) (column : Option Nat)
  | tableUnterminated (file : Option String) (line : Option Int)
deriving DecidableEq, Repr

/-- How much an event matters. -/
inductive Level
  | debug
  | warning
deriving DecidableEq, Repr

/-- The name of a level. -/
def Level.name : Level → String
  | .debug => "DEBUG"
  | .warning => "WARNING"

/-- A number, or a word for its absence. -/
def numberText {α : Type} [ToString α] : Option α → String
  | some n => toString n
  | none => "None"

namespace Event

/-- The channel of the log that an event goes to. -/
def channel : Event → String
  | .tableNotSimple .. | .primaryColumn .. => "fixuphtml.table"
  | _ => "fixuphtml.rewriter"

/-- The level of an event. -/
def level : Event → Level
  | .tableUnterminated .. => .warning
  | _ => .debug

/-- An event in words. -/
def text : Event → String
  | .mainAdded => "inserting <main>"
  | .malformed report => report.text
  | .tableNotSimple line why =>
    "table at line " ++ numberText line ++ " is not simple: " ++ why.text
  | .primaryColumn line column =>
    "table at line " ++ numberText line ++ ": primary column " ++ numberText column
  | .tableUnterminated file line => Diagnostic.located file line "unterminated table"

/-- An event as a line of the log. -/
def logLine (e : Event) : String := e.channel ++ ": " ++ e.level.name ++ ": " ++ e.text

end Event

end HtmlMend.Output
