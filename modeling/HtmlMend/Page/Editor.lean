import HtmlMend.Markup.Construct
import HtmlMend.Table

/-! # Pages: the editor

The editor turns tokens into fragments of the output, one token at a time. It copies the raw text
of a token unless a rule changes it, adds a `main` element around the main content, and holds a
table back until its end.

Main content begins with the first start tag or text in the body that is in no sectioning element;
it ends where a sectioning element begins or the body ends. A `main` element of the page itself
leaves nothing to add. -/

namespace HtmlMend.Page

open Markup Output

/-! ## Rules for single tags

Three start tags are changed where they stand. That of the document gets the language and loses all
else. The name of the generator gets a suffix, once. The navigation that is the table of contents
gets a title. -/

/-- The texts that rules write and look for. -/
structure Options where
  lang : String := "en"
  generatorSuffix : String := "fixuphtml"
  contentsId : String := "TOC"
  contentsTitle : String := "Table Of Contents"
deriving DecidableEq, Repr

namespace Options

/-- The start tag of the document. -/
def documentTag (o : Options) : Fragment :=
  .edited (writeStartTag false "html" (.ofList [("lang", some o.lang)]))

/-- What follows the name of the generator. -/
def suffix (o : Options) : String := "," ++ o.generatorSuffix

/-- The start tag of a statement: with the suffix, at the end of its content, if it names the
generator and has no suffix yet. -/
def generatorTag (o : Options) (tag : StartTag) : Fragment :=
  match tag.attrs.get? "name", tag.attrs.get? "content", tag.spans.get? "content" with
  | some (some "generator"), some (some content), some span =>
    if o.suffix.toList.isSuffixOf content.toList then .copied tag.raw
    else .edited (Text.insertAt tag.raw span.stop o.suffix)
  | _, _, _ => .copied tag.raw

/-- Whether a navigation is the table of contents. -/
def isContents (o : Options) (tag : StartTag) : Bool :=
  tag.attrs.get? "id" = some (some o.contentsId)

/-- The start tag of the table of contents: with a title, before the characters that close the tag,
unless it has one. -/
def contentsTag (o : Options) (tag : StartTag) : Fragment :=
  if tag.attrs.contains "title" then .copied tag.raw
  else
    let closing := if tag.selfClosing then 2 else 1
    .edited (Text.insertAt tag.raw (tag.raw.length - closing)
      (writeAttribute false "title" (some o.contentsTitle)))

/-- The fragment for a start tag. -/
def startTag (o : Options) (role : Element) (tag : StartTag) : Fragment :=
  match role with
  | .html => o.documentTag
  | .metadata => o.generatorTag tag
  | .navigation => if o.isContents tag then o.contentsTag tag else .copied tag.raw
  | _ => .copied tag.raw

end Options

/-! ## The work on a page -/

/-- What is remembered of a page from one token to the next. -/
structure Outline where
  /-- Whether main content may begin here. -/
  allowMain : Bool := false
  /-- Whether the page still lacks a `main` element. -/
  needMain : Bool := false
  /-- Whether an added `main` element is open. -/
  mainOpen : Bool := false
  /-- The number of sectioning elements that are open. -/
  sectionDepth : Nat := 0
  /-- The open table. -/
  table : Option Table := none
deriving DecidableEq

/-- Change the open table, if there is one. -/
def Outline.mapTable (o : Outline) (change : Table → Table) : Outline :=
  { o with table := o.table.map change }

/-- What a token leads to: the outline after it, the fragments written, and the events. -/
structure Edit where
  outline : Outline
  written : List Fragment := []
  events : List Event := []
deriving DecidableEq

/-! ### Steps of an edit -/

namespace Edit

/-- Change the outline. -/
def modify (e : Edit) (f : Outline → Outline) : Edit := { e with outline := f e.outline }

/-- Record events. -/
def record (e : Edit) (events : List Event) : Edit := { e with events := e.events ++ events }

/-- Put an entry into the open table, or write its fragment if there is none. Empty text is
dropped. -/
def put (e : Edit) (entry : Entry) : Edit :=
  if entry.fragment.text = "" then e
  else if e.outline.table.isSome then e.modify (·.mapTable (·.addEntry entry))
  else { e with written := e.written ++ [entry.fragment] }

/-- Add a `main` element here if the page needs one. -/
def startMain (e : Edit) : Edit :=
  if e.outline.allowMain && e.outline.needMain then
    ((e.record [.mainAdded]).put { fragment := .mainStart }).modify
      ({ · with needMain := false, mainOpen := true })
  else e

/-- End the added `main` element if one is open. -/
def endMain (e : Edit) : Edit :=
  if e.outline.mainOpen then (e.put { fragment := .mainEnd }).modify ({ · with mainOpen := false })
  else e

/-- Close the open table, and write the fragments of `table`. -/
def release (e : Edit) (table : Table) : Edit where
  outline := { e.outline with table := none }
  written := e.written ++ table.render.filter (·.text ≠ "")
  events := e.events ++ table.renderEvents

end Edit

/-! ### Tokens -/

namespace Outline

/-- A table begins: in the open table, or as one of its own. -/
def openTable (o : Outline) (line : Option Int) : Outline :=
  if o.table.isSome then
    o.mapTable fun table => { table.complicate with depth := table.depth + 1 }
  else { o with table := some { line, depth := 1 } }

/-- What a start tag means for the open table. -/
def enterEvents (o : Outline) (role : Element) (tag : StartTag) : List Event :=
  match o.table, role with
  | some table, .table => table.complicationEvents .nestedTable
  | some table, .cell kind => table.startCellEvents kind tag.attrs
  | _, _ => []

/-- The outline after a start tag, before the tag is written. -/
def enter (o : Outline) (role : Element) (tag : StartTag) : Edit :=
  let events := o.enterEvents role tag
  let e : Edit := { outline := o, events }
  match role with
  | .sectioning | .navigation =>
    e.endMain.modify fun o => { o with sectionDepth := o.sectionDepth + 1, allowMain := false }
  | .body => e.modify ({ · with allowMain := true, needMain := true })
  | .main => e.modify ({ · with needMain := false })
  | .table => e.modify (·.openTable tag.line)
  | .rowGroup => e.modify (·.mapTable Table.endCell)
  | .row => e.modify (·.mapTable Table.startRow)
  | .cell kind => e.modify (·.mapTable (·.startCell kind tag.attrs))
  | _ => e

/-- The entry for the start tag of an element of a role, in this outline before the tag. -/
def startEntry (o : Outline) (role : Element) (tag : StartTag) (fragment : Fragment) : Entry :=
  match role, o.table with
  | .cell kind, some table =>
    { fragment
      column := if kind = .data then some table.nextColumn else none
      attrs := some tag.sourceAttrs }
  | _, _ => { fragment }

/-- A start tag. -/
def startTag (o : Outline) (options : Options) (tag : StartTag) : Edit :=
  let role := Element.ofName tag.name
  let entry := o.startEntry role tag (options.startTag role tag)
  let entered := o.enter role tag
  (if role = .body then entered else entered.startMain).put entry

/-- The end of a table: of one within the open table, or of the open table itself. -/
def closeTable (o : Outline) (tag : EndTag) : Edit :=
  let e : Edit := { outline := o }
  let entry : Entry := { fragment := .copied tag.raw }
  match o.table with
  | none => e.put entry
  | some table =>
    let table := { table with depth := table.depth - 1 }
    if table.depth = 0 then e.release (table.addEntry entry)
    else (e.modify ({ · with table := some table })).put entry

/-- The outline after the end of a sectioning element. -/
def leaveSection (o : Outline) : Outline :=
  { o with
    sectionDepth := o.sectionDepth - 1
    allowMain := o.allowMain || o.sectionDepth ≤ 1 }

/-- An end tag. -/
def endTag (o : Outline) (tag : EndTag) : Edit :=
  let e : Edit := { outline := o }
  let entry : Entry := { fragment := .copied tag.raw }
  match Element.ofName tag.name with
  | .sectioning | .navigation => (e.modify leaveSection).put entry
  | .body =>
    (e.endMain.modify ({ · with allowMain := false, needMain := false })).put entry
  | .table => o.closeTable tag
  | .rowGroup | .row => (e.modify (·.mapTable Table.endCell)).put entry
  | .cell kind =>
    (e.modify (·.mapTable Table.endCell)).put { entry with closes := some kind }
  | _ => e.put entry

/-- Text. Outside tables, text that is more than spaces is main content. -/
def text (o : Outline) (data raw : String) : Edit :=
  let e : Edit := { outline := o }
  let begun :=
    if o.table.isSome then e.modify (·.mapTable (·.addContent data))
    else if data.toList.all isSpace then e
    else e.startMain
  begun.put { fragment := .copied raw }

/-- The end of the input. A table that is open is written as it was read. -/
def finish (o : Outline) (file : Option String) (raw : String) : Edit :=
  let e : Edit := { outline := o }
  let closed := match o.table with
    | none => e
    | some table =>
      (e.record (.tableUnterminated file table.line ::
        table.complicationEvents .unterminated)).release table.complicate
  closed.put { fragment := .copied raw }

end Outline

/-- How pages are edited: for which file, whether malformed markup ends the work, and the texts. -/
structure Settings where
  file : Option String := none
  strict : Bool := false
  options : Options := {}
deriving DecidableEq, Repr

/-- The report on malformed markup that a token makes. -/
def Settings.problem? (settings : Settings) : Token → Option Diagnostic
  | .malformed report => some (report.inFile settings.file)
  | _ => none

/-- What a token leads to. -/
def Outline.edit (o : Outline) (settings : Settings) : Token → Edit
  | .startTag tag => o.startTag settings.options tag
  | .endTag tag => o.endTag tag
  | .text data _ raw => o.text data raw
  | .comment _ _ raw | .doctype _ _ raw => Edit.put { outline := o } { fragment := .copied raw }
  | .malformed report =>
    { outline := o, events := [.malformed (report.inFile settings.file)] }
  | .endOfInput _ raw => o.finish settings.file raw

end HtmlMend.Page
