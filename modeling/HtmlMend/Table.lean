import HtmlMend.Output

/-! # Tables

A table is held back until its end: its fragments are entries, and the texts of its cells are
collected by column. A table is simple unless there is another table in it or a cell with an
attribute that spans columns or states a scope. Cells are counted along the row; a cell that begins
ends the one before it.

The cells of the primary column of a simple table are the headers of their rows. The primary column
is the one with the most distinct texts; among several it is the column of names if that is one of
them, else the first. Its data cells are written as header cells of their rows that look like data
cells. All other tables are written as they were read. -/

namespace HtmlMend

open Markup Output

/-! ## Open cells -/

/-- An open cell, in its column, with the pieces of its text. -/
structure Cell where
  kind : CellKind
  column : Nat
  pieces : Array String := #[]
deriving DecidableEq, Repr

namespace Cell

/-- The text of a cell. -/
def text (cell : Cell) : String := Text.strip (String.join cell.pieces.toList)

/-- The beginning of the heading of a column of names. -/
def nameHeading : List Char := ['n', 'a', 'm', 'e']

/-- Whether a cell is the heading of a column of names. -/
def isNameHeading (cell : Cell) : Bool :=
  cell.kind = .header && nameHeading.isPrefixOf (Text.lower cell.text).toList

end Cell

/-! ## What is known of a table while it is read -/

/-- A fragment of a table. The start tag of a data cell has its column, that of any cell its
attributes as they were written, and the end tag of a cell the kind of the cell. -/
structure Entry where
  fragment : Fragment
  column : Option Int := none
  attrs : Option Attributes := none
  closes : Option CellKind := none
deriving DecidableEq

/-- A short description of an entry for a log. -/
def Entry.describe (e : Entry) : String :=
  "TableEntry(" ++ Text.quoted e.fragment.text ++ ", column=" ++ numberText e.column ++ ")"

/-- A table that is being read. -/
structure Table where
  /-- The line on which it begins. -/
  line : Option Int := none
  simple : Bool := true
  /-- The number of tables that are open, itself and those in it. -/
  depth : Nat := 0
  entries : Array Entry := #[]
  /-- For each column the texts of its cells, each text once, in the order in which they came. -/
  columns : List (List String) := []
  /-- The last column whose heading says that it holds names. -/
  nameColumn : Option Nat := none
  /-- The column of the next cell. -/
  nextColumn : Nat := 0
  /-- The open cell. -/
  cell : Option Cell := none
deriving DecidableEq

namespace Table

/-! ### Simplicity -/

/-- The table, no longer simple. -/
def complicate (t : Table) : Table := { t with simple := false }

/-- What is recorded if a table is found not to be simple: the first reason only. -/
def complicationEvents (t : Table) (why : Complication) : List Event :=
  if t.simple then [.tableNotSimple t.line why] else []

/-- The attributes that make a table complicated, in the order in which they are looked for. -/
def complicatingNames : List String := ["rowspan", "colspan", "scope"]

/-- The attribute of a cell that makes its table complicated. -/
def complicatingName? (attrs : Attributes) : Option String :=
  complicatingNames.find? attrs.contains

/-! ### Cells -/

/-- A column with one more text. -/
def addText (text : String) (texts : List String) : List String :=
  if texts.contains text then texts else texts ++ [text]

/-- The table after the end of the open cell, if there is one. -/
def endCell (t : Table) : Table :=
  match t.cell with
  | none => t
  | some cell =>
    { t with
      cell := none
      nameColumn := if cell.isNameHeading then some cell.column else t.nameColumn
      columns := t.columns.modify cell.column (addText cell.text) }

/-- The table at the beginning of a row. -/
def startRow (t : Table) : Table := { t.endCell with nextColumn := 0 }

/-- The columns, with empty ones added up to a column. -/
def growColumns (columns : List (List String)) (column : Nat) : List (List String) :=
  columns ++ List.replicate (column + 1 - columns.length) []

/-- The table at the beginning of a cell. -/
def startCell (t : Table) (kind : CellKind) (attrs : Attributes) : Table :=
  let t := t.endCell
  { t with
    simple := t.simple && (complicatingName? attrs).isNone
    columns := growColumns t.columns t.nextColumn
    nextColumn := t.nextColumn + 1
    cell := some ⟨kind, t.nextColumn, #[]⟩ }

/-- What is recorded at the beginning of a cell. -/
def startCellEvents (t : Table) (kind : CellKind) (attrs : Attributes) : List Event :=
  match complicatingName? attrs with
  | some name => t.complicationEvents (.cellAttribute kind name)
  | none => []

/-- The table after a piece of text; outside cells text is of no interest. -/
def addContent (t : Table) (text : String) : Table :=
  { t with cell := t.cell.map fun cell => { cell with pieces := cell.pieces.push text } }

/-- The table with one more entry. -/
def addEntry (t : Table) (e : Entry) : Table := { t with entries := t.entries.push e }

/-! ## Row headers -/

/-- The better of the best column so far and the next one, each with its number of texts. -/
def betterColumn (names : Option Nat) (best : Option (Nat × Nat)) (next : Nat × Nat) :
    Option (Nat × Nat) :=
  match best with
  | none => some next
  | some (index, count) =>
    if count < next.2 ∨ (next.2 = count ∧ names = some next.1) then some next
    else some (index, count)

/-- The primary column; none if there are no columns. -/
def primaryColumn (t : Table) : Option Nat :=
  let counted := t.columns.zipIdx.map fun e => (e.2, e.1.length)
  (counted.foldl (betterColumn t.nameColumn) none).map Prod.fst

/-! ### The cells of the primary column -/

/-- The declarations that a row header begins its style with, and those that it adds. -/
def headerLeading : List String := ["font-weight: normal"]

/-- The declarations that a row header has unless its style sets the property. -/
def headerDefaults : List String := ["text-align: left"]

/-- The attributes of the row header that takes the place of a data cell: the style comes first
unless it has a place already, and the scope is the row. Values are as they were written. -/
def headerAttrs (attrs : Attributes) : Attributes :=
  let style := Style.merge (((attrs.get? "style").join).getD "") headerLeading headerDefaults
  let styled :=
    if attrs.contains "style" then attrs.insert "style" (some style)
    else .ofList (("style", some style) :: attrs.toList)
  styled.insert "scope" (some "row")

/-! ### Rendering -/

/-- Whether an entry is the start of a data cell of the primary column. -/
def isPromoted (primary : Option Nat) (e : Entry) : Bool :=
  match e.column, primary with
  | some column, some primary => column = primary
  | _, _ => false

/-- The fragments of a simple table. While `promoted`, the end tag of a row header is due: the next
end of a data cell becomes it, unless another cell begins before. -/
def renderSimple (primary : Option Nat) (promoted : Bool) : List Entry → List Fragment
  | [] => []
  | e :: rest =>
    if isPromoted primary e then
      .headerStart (headerAttrs (e.attrs.getD .empty)) :: renderSimple primary true rest
    else if promoted && e.closes = some .data then
      .headerEnd :: renderSimple primary false rest
    else e.fragment :: renderSimple primary (promoted && e.attrs.isNone) rest

/-- The fragments of a table that has ended. -/
def render (t : Table) : List Fragment :=
  if t.simple then renderSimple t.primaryColumn false t.entries.toList
  else t.entries.toList.map Entry.fragment

/-- What is recorded when a table is rendered. -/
def renderEvents (t : Table) : List Event :=
  if t.simple then [.primaryColumn t.line t.primaryColumn] else []

end Table

end HtmlMend
