import HtmlMend.Proofs.Page.Run
import HtmlMend.Proofs.Table.Reading

/-! # Tables: the texts of cells

A cell begins with its start tag and goes on until the start or the end of a cell, a row or a group
of rows ends it (`OpenCell`, `EndedCell`). While a table is read, its columns hold the texts of the
cells that have ended (`KnowsCells.readAll`). -/

namespace HtmlMend.Markup

/-- The text of a text token. -/
def Token.data? : Token → Option String
  | .text data _ _ => some data
  | _ => none

end HtmlMend.Markup

namespace HtmlMend.Table

open Markup

/-! ### Cells among tokens -/

/-- The names of the elements that end a cell with their tags: cells, rows and groups of rows. -/
def cellBounds : List String := ["thead", "tbody", "tr", "td", "th"]

/-- A token that begins a cell. -/
def BeginsCell : Token → Prop
  | .startTag tag => tag.name = "td" ∨ tag.name = "th"
  | _ => False

/-- A token that ends a cell that is open. -/
def EndsCell : Token → Prop
  | .startTag tag => tag.name ∈ cellBounds
  | .endTag tag => tag.name ∈ cellBounds
  | _ => False

theorem BeginsCell.endsCell : ∀ {token : Token}, BeginsCell token → EndsCell token
  | .startTag tag, begins => by
    rcases begins with name | name <;> simp [EndsCell, name, cellBounds]

/-- The text in tokens, without the blanks at its ends. -/
def textIn (tokens : List Token) : String := Text.strip (String.join (tokens.filterMap Token.data?))

/-- A cell in a column is open after tokens. Its content is what has come after its start tag. -/
def OpenCell (tokens : List Token) (column : Nat) (content : List Token) : Prop :=
  ∃ front token, tokens = front ++ token :: content ∧ BeginsCell token ∧
    columnAfter front = column ∧ ∀ x ∈ content, ¬EndsCell x

/-- A cell in a column with a text has ended within tokens. -/
def EndedCell (tokens : List Token) (column : Nat) (text : String) : Prop :=
  ∃ front token back content, tokens = front ++ token :: back ∧ EndsCell token ∧
    OpenCell front column content ∧ textIn content = text

/-- A cell in a column with a text has begun within tokens: it has ended, or it is open. -/
def HasCell (tokens : List Token) (column : Nat) (text : String) : Prop :=
  EndedCell tokens column text ∨ ∃ content, OpenCell tokens column content ∧ textIn content = text

/-- A column of a table holds a text. -/
def Holds (t : Table) (column : Nat) (text : String) : Prop :=
  ∃ texts, t.columns[column]? = some texts ∧ text ∈ texts

section Snoc
variable {tokens : List Token} {token : Token} {column : Nat} {text : String}

theorem filterMap_data_snoc : (tokens ++ [token]).filterMap Token.data? =
    tokens.filterMap Token.data? ++ token.data?.toList := by
  cases data : token.data? <;> simp [data]

theorem columnAfter_snoc : columnAfter (tokens ++ [token]) = columnStep (columnAfter tokens) token := by
  simp [columnAfter]

/-- The open cell after one more token: one that begins with it, or one that goes on. -/
theorem openCell_snoc {content : List Token} : OpenCell (tokens ++ [token]) column content ↔
    BeginsCell token ∧ columnAfter tokens = column ∧ content = [] ∨
      ¬EndsCell token ∧ ∃ before, content = before ++ [token] ∧ OpenCell tokens column before := by
  constructor
  · rintro ⟨front, start, split, begins, at_, quiet⟩
    rcases Page.snoc_eq_append_cons.mp split with ⟨rfl, rfl, rfl⟩ | ⟨before, rfl, rfl⟩
    · exact .inl ⟨begins, at_, rfl⟩
    · exact .inr ⟨quiet token (by simp), before, rfl, front, start, rfl, begins, at_,
        fun x mem => quiet x (List.mem_append_left _ mem)⟩
  · rintro (⟨begins, at_, rfl⟩ | ⟨goesOn, before, rfl, front, start, rfl, begins, at_, quiet⟩)
    · exact ⟨tokens, token, rfl, begins, at_, by simp⟩
    · refine ⟨front, start, by simp, begins, at_, fun x mem => ?_⟩
      rcases List.mem_append.mp mem with mem | mem
      · exact quiet x mem
      · exact List.mem_singleton.mp mem ▸ goesOn

/-- The cells that have ended after one more token: the ones before, and one that it ends. -/
theorem endedCell_snoc : EndedCell (tokens ++ [token]) column text ↔
    EndedCell tokens column text ∨
      EndsCell token ∧ ∃ content, OpenCell tokens column content ∧ textIn content = text := by
  constructor
  · rintro ⟨front, ender, back, content, split, ends, isOpen, same⟩
    rcases Page.snoc_eq_append_cons.mp split with ⟨rfl, rfl, -⟩ | ⟨back, -, rfl⟩
    · exact .inr ⟨ends, content, isOpen, same⟩
    · exact .inl ⟨front, ender, back, content, rfl, ends, isOpen, same⟩
  · rintro (⟨front, ender, back, content, rfl, ends, isOpen, same⟩ | ⟨ends, content, isOpen, same⟩)
    · exact ⟨front, ender, back ++ [token], content, by simp, ends, isOpen, same⟩
    · exact ⟨tokens, token, [], content, rfl, ends, isOpen, same⟩

end Snoc

/-! ### Columns -/

variable {t : Table} {column : Nat} {text : String}

theorem mem_addText {texts : List String} {new : String} :
    text ∈ addText new texts ↔ text ∈ texts ∨ text = new := by
  unfold addText
  split
  · next known =>
    refine ⟨.inl, fun h => h.elim id ?_⟩
    rintro rfl
    simpa using known
  · simp

theorem holds_endCell (bound : ∀ cell, t.cell = some cell → cell.column < t.columns.length) :
    t.endCell.Holds column text ↔
      t.Holds column text ∨ ∃ cell, t.cell = some cell ∧ cell.column = column ∧ cell.text = text := by
  unfold endCell
  cases isOpen : t.cell with
  | none => simp [Holds]
  | some cell =>
    have inside := bound cell isOpen
    by_cases here : cell.column = column
    · subst here
      simp [Holds, inside, mem_addText, eq_comm]
    · simp [Holds, here]

theorem holds_growColumns {u : Table} {last : Nat} (grown : u.columns = growColumns t.columns last) :
    u.Holds column text ↔ t.Holds column text := by
  simp only [Holds, grown, growColumns]
  by_cases old : column < t.columns.length
  · rw [List.getElem?_append_left old]
  · rw [List.getElem?_append_right (Nat.not_lt.mp old), List.getElem?_eq_none (Nat.not_lt.mp old)]
    simp [List.getElem?_replicate]

theorem lt_length_growColumns (columns : List (List String)) (last : Nat) :
    last < (growColumns columns last).length := by
  simp [growColumns]
  omega

/-! ### What a table knows of its cells -/

/-- What a token does with the cells of a table: it begins one and ends the one that is open, it
only ends it, or it adds its text to it. -/
inductive ReadsCell (t : Table) (token : Token) (u : Table) : Prop
  | begins (begins : BeginsCell token) (kind : CellKind)
    (cell : u.cell = some ⟨kind, t.nextColumn, #[]⟩)
    (columns : u.columns = growColumns t.endCell.columns t.nextColumn)
  | ends (ends : EndsCell token) (other : ¬BeginsCell token) (cell : u.cell = none)
    (columns : u.columns = t.endCell.columns)
  | goesOn (goesOn : ¬EndsCell token)
    (cell : u.cell = t.cell.map fun c => { c with pieces := c.pieces ++ token.data?.toArray })
    (columns : u.columns = t.columns)

/-- The roles of the elements that end a cell. -/
def boundsCell : Element → Bool
  | .rowGroup | .row | .cell _ => true
  | _ => false

theorem mem_cellBounds_iff {name : String} :
    name ∈ cellBounds ↔ boundsCell (Element.ofName name) = true := by
  refine ⟨?_, fun h => ?_⟩
  · have each : ∀ x ∈ cellBounds, boundsCell (Element.ofName x) = true := by decide
    exact each name
  · cases role : Element.ofName name with
    | rowGroup => rcases Element.ofName_eq_rowGroup_iff.mp role with rfl | rfl <;> decide
    | row =>
      obtain rfl := Element.ofName_eq_row_iff.mp role
      decide
    | cell kind =>
      obtain rfl := Element.ofName_eq_cell_iff.mp role
      cases kind <;> decide
    | _ => simp [role, boundsCell] at h

theorem beginsCell_iff {tag : StartTag} :
    BeginsCell (.startTag tag) ↔ ∃ kind, Element.ofName tag.name = .cell kind := by
  simp only [Element.ofName_eq_cell_iff]
  constructor
  · rintro (name | name)
    · exact ⟨.data, name⟩
    · exact ⟨.header, name⟩
  · rintro ⟨kind, name⟩
    cases kind with
    | data => exact .inl name
    | header => exact .inr name

theorem cell_endCell (t : Table) : t.endCell.cell = none := by
  unfold endCell
  split
  · assumption
  · rfl

/-- **What a token does with the cells of a table.** -/
theorem readsCell (t : Table) (token : Token) : ReadsCell t token (t.read token) := by
  have same : t.cell = t.cell.map fun c => { c with pieces := c.pieces ++ #[] } := by simp
  cases token with
  | startTag tag =>
    have ends : EndsCell (.startTag tag) ↔ _ := mem_cellBounds_iff
    have begins := @beginsCell_iff tag
    simp only [read, readStart]
    generalize Element.ofName tag.name = role at ends begins
    cases role with
    | cell kind =>
      refine .begins (begins.mpr ⟨kind, rfl⟩) kind ?_ ?_ <;> simp [startCell, nextColumn_endCell]
    | rowGroup => exact .ends (ends.mpr rfl) (by simp [begins]) t.cell_endCell rfl
    | row => exact .ends (ends.mpr rfl) (by simp [begins]) t.cell_endCell rfl
    | _ => exact .goesOn (by simp [ends, boundsCell]) same rfl
  | endTag tag =>
    have ends : EndsCell (.endTag tag) ↔ _ := mem_cellBounds_iff
    simp only [read, readEnd]
    generalize Element.ofName tag.name = role at ends
    cases role with
    | cell | rowGroup | row => exact .ends (ends.mpr rfl) not_false t.cell_endCell rfl
    | _ => exact .goesOn (by simp [ends, boundsCell]) same rfl
  | text data => exact .goesOn not_false (by simp [read, addContent, Token.data?]) rfl
  | _ => exact .goesOn not_false same rfl

/-- What a table knows of the cells in tokens: the column of the next one, the one that is open, and
the texts of those that have ended. -/
structure KnowsCells (t : Table) (tokens : List Token) : Prop where
  nextColumn : t.nextColumn = columnAfter tokens
  bound : ∀ cell, t.cell = some cell → cell.column < t.columns.length
  isOpen : ∀ column pieces, (∃ cell, t.cell = some cell ∧ cell.column = column ∧
      cell.pieces.toList = pieces) ↔
    ∃ content, OpenCell tokens column content ∧ content.filterMap Token.data? = pieces
  holds : ∀ column text, t.Holds column text ↔ EndedCell tokens column text

theorem knowsCells_begun (tag : StartTag) : KnowsCells (begun tag) [] where
  nextColumn := rfl
  bound _ h := nomatch h
  isOpen column pieces := by simp [begun, OpenCell]
  holds column text := by simp [begun, Holds, EndedCell]

namespace KnowsCells

variable {tokens : List Token} (h : KnowsCells t tokens)
include h

theorem text_iff : (∃ cell, t.cell = some cell ∧ cell.column = column ∧ cell.text = text) ↔
    ∃ content, OpenCell tokens column content ∧ textIn content = text := by
  constructor
  · rintro ⟨cell, isOpen, at_, rfl⟩
    obtain ⟨content, goes, same⟩ := (h.isOpen column _).mp ⟨cell, isOpen, at_, rfl⟩
    exact ⟨content, goes, by rw [textIn, same]; rfl⟩
  · rintro ⟨content, goes, rfl⟩
    obtain ⟨cell, isOpen, at_, same⟩ := (h.isOpen column _).mpr ⟨content, goes, rfl⟩
    exact ⟨cell, isOpen, at_, by rw [Cell.text, same]; rfl⟩

theorem holds_endCell_iff {token : Token} (ends : EndsCell token) :
    t.endCell.Holds column text ↔ EndedCell (tokens ++ [token]) column text := by
  rw [holds_endCell h.bound, h.holds, h.text_iff, endedCell_snoc, and_iff_right ends]

/-- **What a table knows of its cells after one more token.** -/
theorem read (token : Token) : KnowsCells (t.read token) (tokens ++ [token]) := by
  have next : (t.read token).nextColumn = columnAfter (tokens ++ [token]) := by
    rw [nextColumn_read, h.nextColumn, columnAfter_snoc]
  have does := t.readsCell token
  generalize t.read token = u at next does
  cases does with
  | begins begins kind cell columns =>
    have ends : EndsCell token := begins.endsCell
    refine ⟨next, ?_, fun column pieces => ?_, fun column text => ?_⟩
    · rintro _ some
      obtain rfl := Option.some.inj (cell.symm.trans some)
      rw [columns]
      exact lt_length_growColumns _ _
    · constructor
      · rintro ⟨_, some, rfl, rfl⟩
        obtain rfl := Option.some.inj (cell.symm.trans some)
        exact ⟨[], openCell_snoc.mpr (.inl ⟨begins, h.nextColumn.symm, rfl⟩), rfl⟩
      · rintro ⟨content, goes, rfl⟩
        rcases openCell_snoc.mp goes with ⟨-, at_, rfl⟩ | ⟨goesOn, -⟩
        · exact ⟨_, cell, h.nextColumn.trans at_, rfl⟩
        · exact absurd ends goesOn
    · rw [holds_growColumns columns, h.holds_endCell_iff ends]
  | ends ends other cell columns =>
    refine ⟨next, by simp [cell], fun column pieces => ?_, fun column text => ?_⟩
    · simp [cell, openCell_snoc, other, ends]
    · rw [← h.holds_endCell_iff ends, Holds, Holds, columns]
  | goesOn goesOn cell columns =>
    have other : ¬BeginsCell token := mt BeginsCell.endsCell goesOn
    refine ⟨next, ?_, fun column pieces => ?_, fun column text => ?_⟩
    · rintro _ some
      obtain ⟨old, isOpen, rfl⟩ := Option.map_eq_some_iff.mp (cell.symm.trans some)
      rw [columns]
      exact h.bound old isOpen
    · constructor
      · rintro ⟨_, some, rfl, rfl⟩
        obtain ⟨old, isOpen, rfl⟩ := Option.map_eq_some_iff.mp (cell.symm.trans some)
        obtain ⟨content, goes, same⟩ := (h.isOpen old.column _).mp ⟨old, isOpen, rfl, rfl⟩
        refine ⟨content ++ [token], openCell_snoc.mpr (.inr ⟨goesOn, content, rfl, goes⟩), ?_⟩
        rw [filterMap_data_snoc, same]
        simp
      · rintro ⟨content, goes, rfl⟩
        rcases openCell_snoc.mp goes with ⟨begins, -⟩ | ⟨-, before, rfl, went⟩
        · exact absurd begins other
        · obtain ⟨old, isOpen, at_, same⟩ := (h.isOpen column _).mpr ⟨before, went, rfl⟩
          refine ⟨_, cell.trans (congrArg _ isOpen), at_, ?_⟩
          rw [filterMap_data_snoc, ← same]
          simp
    · rw [endedCell_snoc, ← h.holds]
      simp [Holds, columns, goesOn]

end KnowsCells

/-- **What a table knows of its cells after more tokens.** -/
theorem KnowsCells.readAll : ∀ {more tokens : List Token} {t : Table}, KnowsCells t tokens →
    KnowsCells (t.readAll more) (tokens ++ more)
  | [], _, _, h => by simpa using h
  | token :: rest, tokens, _, h => by
    rw [← List.singleton_append, ← List.append_assoc]
    exact (h.read token).readAll

end HtmlMend.Table
