import HtmlMend.Proofs.Table.Operations

/-! # Tables: an open cell in parts

The kind, the column and the text of the open cell may be kept on their own, and then nothing but
the operations themselves sees to it that they come and go together. The end of a cell looks its
column up and fails if it is not there (`LooseTable.endCell`). A table that is `Sound` has the
column of its open cell, which is the one before the next; sound tables do not fail, and stay sound
(`LooseTable.Sound.read`). What is read is what a table with a whole cell reads
(`LooseTable.read_apart`). -/

namespace HtmlMend

open Markup

/-- The parts of an open cell. -/
structure CellParts where
  kind : Option CellKind := none
  column : Option Nat := none
  pieces : Option (Array String) := none
deriving DecidableEq

/-- A table without its open cell, and the parts of the cell. -/
structure LooseTable where
  table : Table
  parts : CellParts := {}
deriving DecidableEq

/-- Why a step fails. -/
inductive StepFailure
  /-- Strict work ends at malformed markup. -/
  | refused (report : Diagnostic)
  /-- The open cell has no column. -/
  | columnMissing
  /-- The table does not have the column. -/
  | noColumn (column : Nat)
deriving DecidableEq

/-- The table with the parts of its open cell apart. -/
def Table.apart (t : Table) : LooseTable where
  table := { t with cell := none }
  parts := ⟨t.cell.map Cell.kind, t.cell.map Cell.column, t.cell.map Cell.pieces⟩

namespace LooseTable

/-! ### Operations that may fail -/

/-- The table after the end of a cell with this text, in a column that holds `texts`. -/
def close (l : LooseTable) (column : Nat) (text : String) (texts : List String) : LooseTable where
  table :=
    { l.table with
      nameColumn :=
        if l.parts.kind = some .header && Cell.nameHeading.isPrefixOf (Text.lower text).toList
        then some column else l.table.nameColumn
      columns := l.table.columns.set column (Table.addText text texts) }

/-- The table after the end of the open cell, if there is text of one. -/
def endCell (l : LooseTable) : Except StepFailure LooseTable :=
  match l.parts.pieces, l.parts.column with
  | none, _ => .ok l
  | some _, none => .error .columnMissing
  | some pieces, some column =>
    match l.table.columns[column]? with
    | none => .error (.noColumn column)
    | some texts => .ok (l.close column (Text.strip (String.join pieces.toList)) texts)

/-- The table at the beginning of a row. -/
def startRow (l : LooseTable) : Except StepFailure LooseTable :=
  match l.endCell with
  | .error failure => .error failure
  | .ok l => .ok { l with table := { l.table with nextColumn := 0 } }

/-- The table with a cell that begins in the next column. -/
def openCell (l : LooseTable) (kind : CellKind) (attrs : Attributes) : LooseTable where
  table :=
    { l.table with
      simple := l.table.simple && (Table.complicatingName? attrs).isNone
      columns := Table.growColumns l.table.columns l.table.nextColumn
      nextColumn := l.table.nextColumn + 1 }
  parts := ⟨some kind, some l.table.nextColumn, some #[]⟩

/-- The table at the beginning of a cell. -/
def startCell (l : LooseTable) (kind : CellKind) (attrs : Attributes) :
    Except StepFailure LooseTable :=
  match l.endCell with
  | .error failure => .error failure
  | .ok l =>
    match (l.openCell kind attrs).table.columns[l.table.nextColumn]? with
    | none => .error (.noColumn l.table.nextColumn)
    | some _ => .ok (l.openCell kind attrs)

/-- The table after a piece of text. -/
def addContent (l : LooseTable) (text : String) : LooseTable :=
  { l with parts := { l.parts with pieces := l.parts.pieces.map (·.push text) } }

/-- The table with more entries. -/
def addEntries (l : LooseTable) (entries : List Entry) : LooseTable :=
  { l with table := l.table.addEntries entries }

/-- What a table becomes with the start of an element, apart from its entries. -/
def readStart (l : LooseTable) (attrs : Attributes) : Element → Except StepFailure LooseTable
  | .table => .ok { l with table := { l.table.complicate with depth := l.table.depth + 1 } }
  | .rowGroup => l.endCell
  | .row => l.startRow
  | .cell kind => l.startCell kind attrs
  | _ => .ok l

/-- What a table becomes with the end of an element, apart from its entries. -/
def readEnd (l : LooseTable) : Element → Except StepFailure LooseTable
  | .table => .ok { l with table := { l.table with depth := l.table.depth - 1 } }
  | .rowGroup | .row | .cell _ => l.endCell
  | _ => .ok l

/-- What a table becomes with a token, apart from its entries. -/
def read (l : LooseTable) : Token → Except StepFailure LooseTable
  | .startTag tag => l.readStart tag.attrs (Element.ofName tag.name)
  | .endTag tag => l.readEnd (Element.ofName tag.name)
  | .text data _ _ => .ok (l.addContent data)
  | .endOfInput .. => .ok { l with table := l.table.complicate }
  | _ => .ok l

/-! ### Sound tables -/

/-- A table that is open, with the parts of its cell. -/
structure Sound (l : LooseTable) : Prop where
  depth : 0 < l.table.depth
  /-- The parts of a cell are all there or none is. -/
  together : l.parts.kind.isSome = l.parts.pieces.isSome ∧
    l.parts.column.isSome = l.parts.pieces.isSome
  /-- The open cell is the one before the next, and its column is there. -/
  last : ∀ column, l.parts.column = some column →
    column + 1 = l.table.nextColumn ∧ column < l.table.columns.length
  next : l.table.nextColumn ≤ l.table.columns.length
  names : ∀ column, l.table.nameColumn = some column → column < l.table.columns.length

namespace Sound

variable {l : LooseTable}

theorem begun (line : Option Int) : (Table.apart { line, depth := 1 }).Sound where
  depth := Nat.one_pos
  together := ⟨rfl, rfl⟩
  last _ isOpen := nomatch isOpen
  next := Nat.le_refl 0
  names _ named := nomatch named

/-- What does not touch the cells keeps a table sound. -/
theorem congr (h : l.Sound) {t : Table} (depth : 0 < t.depth)
    (next : t.nextColumn = l.table.nextColumn) (columns : t.columns = l.table.columns)
    (names : t.nameColumn = l.table.nameColumn) : ({ l with table := t } : LooseTable).Sound where
  depth
  together := h.together
  last := by simpa [next, columns] using h.last
  next := by simpa [next, columns] using h.next
  names := by simpa [names, columns] using h.names

theorem addEntries (h : l.Sound) (entries : List Entry) : (l.addEntries entries).Sound :=
  h.congr h.depth rfl rfl rfl

theorem addContent (h : l.Sound) (text : String) : (l.addContent text).Sound where
  depth := h.depth
  together := by simpa [LooseTable.addContent] using h.together
  last := h.last
  next := h.next
  names := h.names

theorem close (h : l.Sound) {column : Nat} (inside : column < l.table.columns.length)
    (text : String) (texts : List String) : (l.close column text texts).Sound where
  depth := h.depth
  together := ⟨rfl, rfl⟩
  last _ isOpen := nomatch isOpen
  next := by simpa [LooseTable.close] using h.next
  names c named := by
    simp only [LooseTable.close, List.length_set] at named ⊢
    split at named
    · exact Option.some.inj named ▸ inside
    · exact h.names c named

/-- **The open cell of a sound table can end**, and then no cell is open. -/
theorem endCell (h : l.Sound) : ∃ l', l.endCell = .ok l' ∧ l'.Sound ∧ l'.parts = {} := by
  obtain ⟨kinds, columns⟩ := h.together
  cases pieces : l.parts.pieces with
  | none =>
    have closed : l.parts = {} := by
      rw [pieces] at kinds columns
      cases parts : l.parts
      simp_all
    exact ⟨l, by simp [LooseTable.endCell, pieces], h, closed⟩
  | some texts =>
    obtain ⟨column, isOpen⟩ : ∃ column, l.parts.column = some column :=
      Option.isSome_iff_exists.mp (by rw [columns, pieces]; rfl)
    have inside := (h.last column isOpen).2
    have ends : l.endCell =
        .ok (l.close column (Text.strip (String.join texts.toList)) l.table.columns[column]) := by
      simp [LooseTable.endCell, pieces, isOpen, List.getElem?_eq_getElem inside]
    exact ⟨_, ends, h.close inside _ _, rfl⟩

/-- A cell in a column that is not there cannot end. -/
example : (⟨{}, ⟨some .data, some 0, some #[]⟩⟩ : LooseTable).endCell = .error (.noColumn 0) := rfl

theorem startRow (h : l.Sound) : ∃ l', l.startRow = .ok l' ∧ l'.Sound := by
  obtain ⟨l', ended, sound, closed⟩ := h.endCell
  refine ⟨{ l' with table := { l'.table with nextColumn := 0 } },
    by rw [LooseTable.startRow, ended], sound.depth, sound.together, ?_, Nat.zero_le _, sound.names⟩
  simp [closed]

theorem openCell (h : l.Sound) (kind : CellKind) (attrs : Attributes) :
    (l.openCell kind attrs).Sound where
  depth := h.depth
  together := ⟨rfl, rfl⟩
  last := by
    rintro column ⟨⟩
    exact ⟨rfl, Table.lt_length_growColumns _ _⟩
  next := Table.lt_length_growColumns _ _
  names column named := by
    have := h.names column named
    simp only [LooseTable.openCell, Table.growColumns, List.length_append]
    omega

theorem startCell (h : l.Sound) (kind : CellKind) (attrs : Attributes) :
    ∃ l', l.startCell kind attrs = .ok l' ∧ l'.Sound := by
  obtain ⟨l', ended, sound, -⟩ := h.endCell
  have inside : l'.table.nextColumn < (l'.openCell kind attrs).table.columns.length :=
    Table.lt_length_growColumns _ _
  exact ⟨l'.openCell kind attrs,
    by simp [LooseTable.startCell, ended, List.getElem?_eq_getElem inside],
    sound.openCell kind attrs⟩

/-- **A sound table reads every token** that does not close it, and stays sound. -/
theorem read (h : l.Sound) {token : Token} (goesOn : l.table.closedBy token = false) :
    ∃ l', l.read token = .ok l' ∧ l'.Sound := by
  obtain ⟨ended, ends, sound, -⟩ := h.endCell
  cases token with
  | startTag tag =>
    simp only [LooseTable.read, readStart]
    cases Element.ofName tag.name with
    | table => exact ⟨_, rfl, h.congr (Nat.succ_pos _) rfl rfl rfl⟩
    | rowGroup => exact ⟨ended, ends, sound⟩
    | row => exact h.startRow
    | cell kind => exact h.startCell kind tag.attrs
    | _ => exact ⟨l, rfl, h⟩
  | endTag tag =>
    simp only [LooseTable.read, readEnd]
    cases role : Element.ofName tag.name with
    | table =>
      have deep : 1 < l.table.depth := by simpa [Table.closedBy, role] using goesOn
      exact ⟨_, rfl, h.congr (Nat.sub_pos_of_lt deep) rfl rfl rfl⟩
    | rowGroup | row | cell => exact ⟨ended, ends, sound⟩
    | _ => exact ⟨l, rfl, h⟩
  | text data line raw => exact ⟨_, rfl, h.addContent data⟩
  | endOfInput => exact ⟨_, rfl, h.congr h.depth rfl rfl rfl⟩
  | _ => exact ⟨l, rfl, h⟩

end Sound

theorem read_of_closedBy (l : LooseTable) {token : Token} (closed : l.table.closedBy token = true) :
    ∃ l', l.read token = .ok l' := by
  cases token with
  | endTag tag =>
    simp only [Table.closedBy, Bool.and_eq_true, decide_eq_true_eq] at closed
    exact ⟨_, by rw [LooseTable.read, closed.1, readEnd]⟩
  | endOfInput => exact ⟨_, rfl⟩
  | _ => cases closed

/-! ### Tables with whole cells -/

section Apart
variable {t : Table} {l : LooseTable}

theorem endCell_apart (ok : t.apart.endCell = .ok l) : l = t.endCell.apart := by
  unfold endCell at ok
  unfold Table.endCell
  cases isOpen : t.cell with
  | none =>
    simp only [Table.apart, isOpen, Option.map_none, Except.ok.injEq] at ok
    rw [← ok, Table.apart, isOpen]
    rfl
  | some cell =>
    simp only [Table.apart, isOpen, Option.map_some] at ok
    split at ok
    · cases ok
    · next texts found =>
      have changed (f : List String → List String) :
          t.columns.modify cell.column f = t.columns.set cell.column (f texts) := by
        rw [List.modify_eq_set, found, Option.getD_some]
      obtain rfl := Except.ok.inj ok
      simp [close, Table.apart, Cell.isNameHeading, Cell.text, changed]

theorem startRow_apart (ok : t.apart.startRow = .ok l) : l = t.startRow.apart := by
  unfold startRow at ok
  split at ok
  · cases ok
  · next ended ends =>
    obtain rfl := endCell_apart ends
    exact (Except.ok.inj ok).symm

theorem startCell_apart {kind : CellKind} {attrs : Attributes}
    (ok : t.apart.startCell kind attrs = .ok l) : l = (t.startCell kind attrs).apart := by
  unfold startCell at ok
  split at ok
  · cases ok
  · next ended ends =>
    obtain rfl := endCell_apart ends
    split at ok
    · cases ok
    · exact (Except.ok.inj ok).symm

/-- **What a table reads in parts** is what it reads. -/
theorem read_apart {token : Token} (ok : t.apart.read token = .ok l) :
    l = (t.read token).apart := by
  cases token with
  | startTag tag =>
    simp only [read] at ok
    simp only [Table.read]
    cases role : Element.ofName tag.name with
    | rowGroup => exact endCell_apart (by rwa [role] at ok)
    | row => exact startRow_apart (by rwa [role] at ok)
    | cell kind => exact startCell_apart (by rwa [role] at ok)
    | _ =>
      rw [role] at ok
      exact (Except.ok.inj ok).symm
  | endTag tag =>
    simp only [read] at ok
    simp only [Table.read]
    cases role : Element.ofName tag.name with
    | rowGroup | row | cell => exact endCell_apart (by rwa [role] at ok)
    | _ =>
      rw [role] at ok
      exact (Except.ok.inj ok).symm
  | text data line raw =>
    obtain rfl := Except.ok.inj ok
    cases isOpen : t.cell <;> simp [Table.read, Table.apart, addContent, Table.addContent, isOpen]
  | _ => exact (Except.ok.inj ok).symm

end Apart

end LooseTable

end HtmlMend
