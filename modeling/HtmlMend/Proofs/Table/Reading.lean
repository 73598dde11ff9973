import HtmlMend.Proofs.Markup.Cover
import HtmlMend.Proofs.Markup.Element
import HtmlMend.Proofs.Page.Step

/-! # Tables: reading

What a table becomes with tokens, apart from its entries (`readAll`). It is simple as long as no
token complicates it (`simple_readAll`), and its next column is the number of cells since the last
start of a row (`nextColumn_readAll`). -/

namespace HtmlMend.Table

open Markup

/-- A table where it begins. -/
def begun (tag : StartTag) : Table := { line := tag.line, depth := 1 }

/-- What a table becomes with tokens, apart from its entries. -/
def readAll (t : Table) (tokens : List Token) : Table := tokens.foldl read t

/-- A token that complicates the table that it is in: the start of another table, or of a cell that
spans columns or rows or states a scope. -/
def Complicates : Token → Prop
  | .startTag tag => tag.name = "table" ∨ (tag.name = "td" ∨ tag.name = "th") ∧
      ∃ name ∈ ["rowspan", "colspan", "scope"], name ∈ tag.attrs.names
  | _ => False

/-- The column of the next cell after a token. -/
def columnStep (column : Nat) : Token → Nat
  | .startTag tag => if tag.name = "tr" then 0
      else if tag.name = "td" ∨ tag.name = "th" then column + 1 else column
  | _ => column

/-- The column of the next cell after tokens: the number of cells since the last start of a row. -/
def columnAfter (tokens : List Token) : Nat := tokens.foldl columnStep 0

variable {t : Table}

@[simp] theorem readAll_nil (t : Table) : t.readAll [] = t := rfl

@[simp] theorem readAll_cons (t : Table) (token : Token) (rest : List Token) :
    t.readAll (token :: rest) = (t.read token).readAll rest := rfl

theorem readAll_append (t : Table) (xs ys : List Token) :
    t.readAll (xs ++ ys) = (t.readAll xs).readAll ys := List.foldl_append

/-! ### Entries -/

/-- The end of a cell and more entries do not depend on each other. -/
theorem endCell_addEntries (t : Table) (entries : List Entry) :
    (t.addEntries entries).endCell = t.endCell.addEntries entries := by
  unfold endCell
  cases cell : t.cell <;> simp [addEntries, cell]

/-- **A token and more entries do not depend on each other.** -/
theorem read_addEntries (t : Table) (entries : List Entry) (token : Token) :
    (t.addEntries entries).read token = (t.read token).addEntries entries := by
  have endCell := t.endCell_addEntries entries
  cases token with
  | startTag tag =>
    simp only [read, readStart]
    cases Element.ofName tag.name with
    | rowGroup => exact endCell
    | row => simp only [startRow, endCell]; rfl
    | cell kind => simp only [startCell, endCell]; rfl
    | _ => rfl
  | endTag tag =>
    simp only [read, readEnd]
    cases Element.ofName tag.name with
    | rowGroup | row | cell => exact endCell
    | _ => rfl
  | _ => rfl

theorem closedBy_addEntries (t : Table) (entries : List Entry) : ∀ token : Token,
    (t.addEntries entries).closedBy token = t.closedBy token
  | .startTag _ | .endTag _ | .text .. | .comment .. | .doctype .. | .malformed _
  | .endOfInput .. => rfl

theorem entries_readAll : ∀ (tokens : List Token) (t : Table),
    (t.readAll tokens).entries = t.entries
  | [], _ => rfl
  | token :: rest, t => by rw [readAll_cons, entries_readAll rest, entries_read]

/-- A table that has been read is rendered with the entries added to it. -/
theorem render_readAll (tag : StartTag) (tokens : List Token) (entries : List Entry) :
    (((begun tag).readAll tokens).addEntries entries).render =
      renderSimple ((begun tag).readAll tokens).verdict false entries := by
  rw [render_eq_renderSimple, toList_addEntries, entries_readAll]
  rfl

theorem readAll_addEntries (entries : List Entry) : ∀ (tokens : List Token) (t : Table),
    (t.addEntries entries).readAll tokens = (t.readAll tokens).addEntries entries
  | [], _ => rfl
  | token :: rest, t => by
    rw [readAll_cons, read_addEntries, readAll_addEntries entries rest, readAll_cons]

/-! ### Simplicity -/

theorem simple_endCell (t : Table) : t.endCell.simple = t.simple := by
  unfold endCell
  split <;> rfl

theorem complicatingName?_eq_none {attrs : Attributes} : (complicatingName? attrs).isNone = true ↔
    ¬∃ name ∈ ["rowspan", "colspan", "scope"], name ∈ attrs.names := by
  simp [complicatingName?, complicatingNames]

/-- **A table stays simple** with tokens that do not complicate it, up to the end of the input. -/
theorem simple_read (token : Token) : (t.read token).simple = true ↔
    t.simple = true ∧ ¬Complicates token ∧ token.isEnd = false := by
  cases token with
  | startTag tag =>
    have table : Element.ofName tag.name = .table ↔ tag.name = "table" := Element.ofName_eq_table_iff
    have data : Element.ofName tag.name = .cell .data ↔ tag.name = "td" := Element.ofName_eq_cell_iff
    have header : Element.ofName tag.name = .cell .header ↔ tag.name = "th" :=
      Element.ofName_eq_cell_iff
    simp only [read, readStart, Complicates, ← table, ← data, ← header]
    cases Element.ofName tag.name with
    | table => simp [complicate]
    | cell kind =>
      simp only [startCell, simple_endCell, Bool.and_eq_true, complicatingName?_eq_none]
      cases kind <;> simp [Token.isEnd]
    | _ => simp [startRow, simple_endCell, Token.isEnd]
  | endTag tag =>
    simp only [read, readEnd, Complicates]
    cases Element.ofName tag.name <;> simp [simple_endCell, Token.isEnd]
  | _ => simp [read, complicate, addContent, Complicates, Token.isEnd]

theorem simple_readAll : ∀ (tokens : List Token) (t : Table), (t.readAll tokens).simple = true ↔
    t.simple = true ∧ ∀ token ∈ tokens, ¬Complicates token ∧ token.isEnd = false
  | [], t => by simp
  | token :: rest, t => by
    rw [readAll_cons, simple_readAll rest, simple_read, List.forall_mem_cons, and_assoc]

/-! ### Columns -/

theorem nextColumn_endCell (t : Table) : t.endCell.nextColumn = t.nextColumn := by
  unfold endCell
  split <;> rfl

theorem nextColumn_read (t : Table) (token : Token) :
    (t.read token).nextColumn = columnStep t.nextColumn token := by
  cases token with
  | startTag tag =>
    have row : Element.ofName tag.name = .row ↔ tag.name = "tr" := Element.ofName_eq_row_iff
    have data : Element.ofName tag.name = .cell .data ↔ tag.name = "td" := Element.ofName_eq_cell_iff
    have header : Element.ofName tag.name = .cell .header ↔ tag.name = "th" :=
      Element.ofName_eq_cell_iff
    simp only [read, readStart, columnStep, ← row, ← data, ← header]
    cases Element.ofName tag.name with
    | cell kind => cases kind <;> simp [startCell, nextColumn_endCell]
    | _ => simp [startRow, complicate, nextColumn_endCell]
  | endTag tag =>
    simp only [read, readEnd, columnStep]
    cases Element.ofName tag.name <;> simp [nextColumn_endCell]
  | _ => rfl

/-- **The next column** is counted over the tokens. -/
theorem nextColumn_readAll : ∀ (tokens : List Token) (t : Table),
    (t.readAll tokens).nextColumn = tokens.foldl columnStep t.nextColumn
  | [], _ => rfl
  | token :: rest, t => by
    rw [readAll_cons, nextColumn_readAll rest, nextColumn_read, List.foldl_cons]

end HtmlMend.Table
