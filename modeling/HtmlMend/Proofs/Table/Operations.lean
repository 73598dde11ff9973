import HtmlMend.Proofs.Table.Cells

/-! # Tables: what operations leave behind

The operations that are performed on a new table tell which cells there are, without a look at any
table: each has the column in which it begins, the text that comes while it is open, and whether
something ends it (`cellsOf`). A cell ends before the next one begins, so cells end in the order in
which they begin. What a table keeps of its columns is read off the cells that have ended, and how
many columns it has off all cells (`keepsBooks_after`). -/

namespace HtmlMend.Table

open Markup

/-! ### Operations -/

/-- An operation on a table. -/
inductive Operation
  | complicate
  | startRow
  | startCell (kind : CellKind) (attrs : Attributes)
  | endCell
  | addContent (text : String)
  | addEntry (entry : Entry)
deriving DecidableEq

namespace Operation

/-- Whether an operation ends the open cell. -/
def endsCell : Operation → Bool
  | .startRow | .startCell .. | .endCell => true
  | _ => false

/-- The text that an operation gives. -/
def content? : Operation → Option String
  | .addContent text => some text
  | _ => none

end Operation

/-- The table after an operation. -/
def perform (t : Table) : Operation → Table
  | .complicate => t.complicate
  | .startRow => t.startRow
  | .startCell kind attrs => t.startCell kind attrs
  | .endCell => t.endCell
  | .addContent text => t.addContent text
  | .addEntry entry => t.addEntry entry

/-- The table after operations. -/
def performAll (t : Table) (ops : List Operation) : Table := ops.foldl perform t

@[simp] theorem performAll_nil (t : Table) : t.performAll [] = t := rfl

@[simp] theorem performAll_cons (t : Table) (op : Operation) (ops : List Operation) :
    t.performAll (op :: ops) = (t.perform op).performAll ops := rfl

theorem performAll_append (t : Table) (before after : List Operation) :
    t.performAll (before ++ after) = (t.performAll before).performAll after := List.foldl_append

/-- The table that begins on a line, after operations. -/
def after (line : Option Int) (ops : List Operation) : Table := performAll { line } ops

/-! ### The cells that operations begin -/

/-- What there is to say of a cell once all operations are known. -/
structure CellRecord where
  kind : CellKind
  /-- The number of cells that have begun before it in its row. -/
  column : Nat
  /-- The text that came while it was open, without the blanks at its ends. -/
  text : String
  ended : Bool
deriving DecidableEq, Repr

/-- The record of a cell that has a text in pieces and is open when operations follow. -/
def recordOf (kind : CellKind) (column : Nat) (pieces : List String) (ops : List Operation) :
    CellRecord where
  kind
  column
  text := Text.strip <| String.join <|
    pieces ++ (ops.takeWhile (!·.endsCell)).filterMap Operation.content?
  ended := ops.any Operation.endsCell

/-- The cells that operations begin, in a row with cells before them. -/
def cellsFrom (column : Nat) : List Operation → List CellRecord
  | [] => []
  | .startRow :: ops => cellsFrom 0 ops
  | .startCell kind _ :: ops => recordOf kind column [] ops :: cellsFrom (column + 1) ops
  | _ :: ops => cellsFrom column ops

/-- The cells that operations begin, in order. -/
def cellsOf (ops : List Operation) : List CellRecord := cellsFrom 0 ops

/-- The cells that operations begin and end, in order. -/
def endedCells (ops : List Operation) : List CellRecord := (cellsOf ops).filter (·.ended)

/-- Whether a cell is the heading of a column of names. -/
def CellRecord.headsNames (r : CellRecord) : Bool :=
  r.kind = .header && Cell.nameHeading.isPrefixOf (Text.lower r.text).toList

/-- One more than the last column that a cell is in; zero if there are no cells. -/
def columnCount (cells : List CellRecord) : Nat :=
  (cells.map CellRecord.column).max?.elim 0 (· + 1)

/-- The texts of the cells in a column, each at its first place only. -/
def textsOf (cells : List CellRecord) (column : Nat) : List String :=
  ((cells.filter (·.column == column)).map CellRecord.text).eraseDups

/-- The column of the last cell that is the heading of a column of names. -/
def namesOf (cells : List CellRecord) : Option Nat :=
  (cells.filter CellRecord.headsNames).getLast?.map CellRecord.column

/-! ### One more cell -/

/-- What a table keeps of cells: the texts by column, and the column of names. -/
def kept (cells : List CellRecord) : List (List String) × Option Nat :=
  let ended := cells.filter (·.ended)
  ((List.range (columnCount cells)).map (textsOf ended), namesOf ended)

/-- The texts by column and the column of names, with one more cell. -/
def addCell (known : List (List String) × Option Nat) (r : CellRecord) :
    List (List String) × Option Nat :=
  let columns := growColumns known.1 r.column
  if r.ended then
    (columns.modify r.column (addText r.text), if r.headsNames then some r.column else known.2)
  else (columns, known.2)

section Snoc
variable (cells : List CellRecord) (r : CellRecord)

theorem columnCount_snoc :
    columnCount (cells ++ [r]) = max (columnCount cells) (r.column + 1) := by
  cases cells with
  | nil => simp [columnCount]
  | cons first rest =>
    simp only [columnCount, List.map_append, List.map_cons, List.cons_append, List.max?_cons',
      List.foldl_append, List.map_nil, List.foldl_cons, List.foldl_nil, Option.elim_some]
    omega

theorem column_lt_columnCount {r : CellRecord} {cells : List CellRecord} (mem : r ∈ cells) :
    r.column < columnCount cells := by
  have mem : r.column ∈ cells.map CellRecord.column := List.mem_map_of_mem mem
  obtain ⟨last, some⟩ := Option.isSome_iff_exists.mp (List.isSome_max?_of_mem mem)
  have := (List.max?_eq_some_iff.mp some).2 _ mem
  simp only [columnCount, some, Option.elim_some]
  omega

theorem textsOf_ended_eq_nil {column : Nat} (beyond : columnCount cells ≤ column) :
    textsOf (cells.filter (·.ended)) column = [] := by
  have none : (cells.filter (·.ended)).filter (·.column == column) = [] := by
    refine List.filter_eq_nil_iff.mpr fun r mem here => ?_
    have := column_lt_columnCount (List.mem_filter.mp mem).1
    have := beq_iff_eq.mp here
    omega
  simp [textsOf, none]

theorem eraseDups_snoc (texts : List String) (text : String) :
    (texts ++ [text]).eraseDups = addText text texts.eraseDups := by
  rw [List.eraseDups_append]
  by_cases known : text ∈ texts
  · simp [addText, known, List.removeAll]
  · simp [addText, known, List.removeAll, List.eraseDups_cons]

theorem textsOf_snoc (column : Nat) : textsOf (cells ++ [r]) column =
    if r.column = column then addText r.text (textsOf cells column) else textsOf cells column := by
  unfold textsOf
  rw [List.filter_append, List.map_append]
  split
  · next here => simp [here, eraseDups_snoc]
  · next other => simp [other]

theorem namesOf_snoc :
    namesOf (cells ++ [r]) = if r.headsNames then some r.column else namesOf cells := by
  unfold namesOf
  rw [List.filter_append]
  split
  · next heads => simp [heads]
  · next other => simp [other]

theorem growColumns_map_range (f : Nat → List String) {count : Nat} (column : Nat)
    (none : ∀ i, count ≤ i → f i = []) : growColumns ((List.range count).map f) column =
      (List.range (max count (column + 1))).map f := by
  refine List.ext_getElem (by simp [growColumns]; omega) fun i here there => ?_
  by_cases old : i < count
  · simp [growColumns, old]
  · simp [growColumns, List.getElem_append, old, none i (by omega)]

theorem addCell_kept : addCell (kept cells) r = kept (cells ++ [r]) := by
  have grown := growColumns_map_range (textsOf (cells.filter (·.ended))) r.column
    fun i => textsOf_ended_eq_nil cells
  unfold addCell kept
  rw [grown, ← columnCount_snoc, List.filter_append]
  by_cases ended : r.ended
  · simp only [ended, if_true, List.filter_cons_of_pos, List.filter_nil, namesOf_snoc,
      Prod.mk.injEq, and_true]
    refine List.ext_getElem (by simp) fun i here there => ?_
    simp only [List.getElem_modify, List.getElem_map, List.getElem_range, textsOf_snoc]
  · simp [ended]

end Snoc

theorem foldl_addCell_kept : ∀ cells front : List CellRecord,
    cells.foldl addCell (kept front) = kept (front ++ cells)
  | [], front => by simp
  | r :: cells, front => by
    rw [List.foldl_cons, addCell_kept, foldl_addCell_kept cells, List.append_assoc,
      List.singleton_append]

theorem growColumns_of_lt {columns : List (List String)} {column : Nat}
    (inside : column < columns.length) : growColumns columns column = columns := by
  simp [growColumns, Nat.sub_eq_zero_of_le (show column + 1 ≤ columns.length from inside)]

/-- A cell may find its column there already. -/
theorem addCell_growColumns (columns : List (List String)) (names : Option Nat) (r : CellRecord) :
    addCell (growColumns columns r.column, names) r = addCell (columns, names) r := by
  simp only [addCell, growColumns_of_lt (lt_length_growColumns columns r.column)]

/-! ### The cells ahead of a table -/

/-- The column of the open cell is there. -/
def CellInside (t : Table) : Prop := ∀ cell, t.cell = some cell → cell.column < t.columns.length

theorem cellInside_new (line : Option Int) : CellInside { line } := by
  intro cell isOpen
  cases isOpen

theorem CellInside.perform {t : Table} (h : t.CellInside) : ∀ op, (t.perform op).CellInside
  | .complicate | .addEntry _ => h
  | .endCell | .startRow => fun cell isOpen => by
    simp [Table.perform, startRow, cell_endCell] at isOpen
  | .startCell kind attrs => fun cell isOpen => by
    obtain rfl := Option.some.inj isOpen
    exact lt_length_growColumns _ _
  | .addContent text => fun cell isOpen => by
    obtain ⟨old, was, rfl⟩ := Option.map_eq_some_iff.mp isOpen
    exact h old was

/-- The cells that end or are open after operations that follow: the open one, and those that the
operations begin. -/
def cellsAhead (t : Table) (ops : List Operation) : List CellRecord :=
  (t.cell.map fun cell => recordOf cell.kind cell.column cell.pieces.toList ops).toList ++
    cellsFrom t.nextColumn ops

/-- The cell that an operation ends. -/
def endedBy (t : Table) (op : Operation) : List CellRecord :=
  if op.endsCell then
    (t.cell.map fun cell => ⟨cell.kind, cell.column, cell.text, true⟩).toList
  else []

theorem recordOf_ends {op : Operation} (ends : op.endsCell = true) (kind : CellKind) (column : Nat)
    (pieces : List String) (ops : List Operation) : recordOf kind column pieces (op :: ops) =
      ⟨kind, column, Text.strip (String.join pieces), true⟩ := by
  simp [recordOf, ends]

theorem recordOf_goesOn {op : Operation} (goesOn : op.endsCell = false) (kind : CellKind)
    (column : Nat) (pieces : List String) (ops : List Operation) :
    recordOf kind column pieces (op :: ops) =
      recordOf kind column (pieces ++ op.content?.toList) ops := by
  cases content : op.content? <;> simp [recordOf, goesOn, content]

/-- The cells ahead of a table are the one that the first operation ends and those ahead of the
table after it. -/
theorem cellsAhead_cons (t : Table) (op : Operation) (ops : List Operation) :
    t.cellsAhead (op :: ops) = t.endedBy op ++ (t.perform op).cellsAhead ops := by
  have ends := @recordOf_ends op
  have goesOn := @recordOf_goesOn op
  unfold cellsAhead endedBy
  cases op with
  | complicate | addEntry =>
    simp [goesOn rfl, perform, complicate, addEntry, cellsFrom, Operation.content?,
      Operation.endsCell]
  | addContent text =>
    simp [goesOn rfl, perform, addContent, cellsFrom, Operation.content?, Operation.endsCell,
      Function.comp_def]
  | endCell =>
    simp [ends rfl, perform, cell_endCell, cellsFrom, nextColumn_endCell, Operation.endsCell,
      Cell.text]
  | startRow =>
    simp [ends rfl, perform, startRow, cell_endCell, cellsFrom, Operation.endsCell, Cell.text]
  | startCell kind attrs =>
    simp [ends rfl, perform, startCell, cellsFrom, nextColumn_endCell, Operation.endsCell,
      Cell.text]

theorem cellsAhead_nil_ended (t : Table) : (t.cellsAhead []).filter (·.ended) = [] := by
  cases isOpen : t.cell <;> simp [cellsAhead, isOpen, cellsFrom, recordOf]

/-- Cells that have ended stay ended, in their order, and others end after them. -/
theorem ended_cellsAhead_append : ∀ (before rest : List Operation) (t : Table),
    (t.cellsAhead before).filter (·.ended) <+: (t.cellsAhead (before ++ rest)).filter (·.ended)
  | [], rest, t => by
    rw [cellsAhead_nil_ended]
    exact List.nil_prefix
  | op :: before, rest, t => by
    rw [List.cons_append, cellsAhead_cons, cellsAhead_cons, List.filter_append, List.filter_append]
    exact List.prefix_append_right_inj _ |>.mpr (ended_cellsAhead_append before rest _)

theorem cell_performAll_eq_none_iff : ∀ (ops : List Operation) (t : Table),
    (t.performAll ops).cell = none ↔ ∀ r ∈ t.cellsAhead ops, r.ended
  | [], t => by
    cases isOpen : t.cell <;> simp [cellsAhead, isOpen, cellsFrom, recordOf]
  | op :: ops, t => by
    have ended : ∀ r ∈ t.endedBy op, r.ended := by
      unfold endedBy
      split <;> simp
    rw [performAll_cons, cell_performAll_eq_none_iff ops, cellsAhead_cons, List.forall_mem_append]
    exact (and_iff_right ended).symm

theorem addContent_of_closed {t : Table} (closed : t.cell = none) (text : String) :
    t.addContent text = t := by
  rw [addContent, closed, Option.map_none, ← closed]

/-! ### What a table knows -/

/-- What a table knows once it knows the cells ahead of it. -/
def outlook (t : Table) (ops : List Operation) : List (List String) × Option Nat :=
  (t.cellsAhead ops).foldl addCell (t.columns, t.nameColumn)

theorem outlook_nil {t : Table} (h : t.CellInside) : t.outlook [] = (t.columns, t.nameColumn) := by
  cases isOpen : t.cell with
  | none => simp [outlook, cellsAhead, isOpen, cellsFrom]
  | some cell =>
    simp [outlook, cellsAhead, isOpen, cellsFrom, recordOf, addCell,
      growColumns_of_lt (h cell isOpen)]

/-- The end of the open cell adds it to what the table knows. -/
theorem foldl_addCell_endedBy {t : Table} (h : t.CellInside) {op : Operation}
    (ends : op.endsCell = true) : (t.endedBy op).foldl addCell (t.columns, t.nameColumn) =
      (t.endCell.columns, t.endCell.nameColumn) := by
  unfold endedBy endCell
  cases isOpen : t.cell with
  | none => simp
  | some cell =>
    simp [ends, addCell, growColumns_of_lt (h cell isOpen), CellRecord.headsNames,
      Cell.isNameHeading]

/-- An operation changes nothing in what a table knows and will know. -/
theorem outlook_perform {t : Table} (h : t.CellInside) (op : Operation) (ops : List Operation) :
    (t.perform op).outlook ops = t.outlook (op :: ops) := by
  have ended := @foldl_addCell_endedBy t h op
  unfold outlook
  rw [cellsAhead_cons, List.foldl_append]
  cases op with
  | complicate | addContent | addEntry => rfl
  | endCell | startRow => rw [ended rfl]; rfl
  | startCell kind attrs =>
    -- The new cell is the first one ahead, and its column is there already.
    have grown := addCell_growColumns t.endCell.columns t.endCell.nameColumn
      (recordOf kind t.endCell.nextColumn [] ops)
    rw [ended rfl]
    exact congrArg (List.foldl addCell · (cellsFrom (t.endCell.nextColumn + 1) ops)) grown

/-- What a table knows after operations is what it knew and the cells of the operations. -/
theorem performAll_eq_outlook : ∀ (ops : List Operation) {t : Table}, t.CellInside →
    ((t.performAll ops).columns, (t.performAll ops).nameColumn) = t.outlook ops
  | [], _, h => (outlook_nil h).symm
  | op :: ops, _, h => by
    rw [performAll_cons, performAll_eq_outlook ops (h.perform op), outlook_perform h]

/-! ### Books -/

section After
variable (line : Option Int) (ops : List Operation)

theorem cellsAhead_new : cellsAhead { line } ops = cellsOf ops := rfl

theorem kept_after :
    ((after line ops).columns, (after line ops).nameColumn) = kept (cellsOf ops) := by
  rw [after, performAll_eq_outlook ops (cellInside_new line), outlook, cellsAhead_new]
  exact foldl_addCell_kept (cellsOf ops) []

/-- What is to be said of the columns of a table after operations, when it begins on a line. -/
structure KeepsBooks : Prop where
  /-- There are columns up to the last one that a cell is in, and each has the texts of its cells
  that have ended. -/
  columns : (after line ops).columns =
    (List.range (columnCount (cellsOf ops))).map (textsOf (endedCells ops))
  nameColumn : (after line ops).nameColumn = namesOf (endedCells ops)
  /-- The order of the cells that have ended is that in which they end. -/
  inOrder : ∀ front back, ops = front ++ back → endedCells front <+: endedCells ops
  /-- While no cell is open, text is dropped. -/
  dropsText : ∀ front text back, ops = front ++ .addContent text :: back →
    (∀ r ∈ cellsOf front, r.ended) → after line ops = after line (front ++ back)

/-- **What a table keeps of its columns.** -/
theorem keepsBooks_after : KeepsBooks line ops := by
  have kept := kept_after line ops
  refine ⟨congrArg Prod.fst kept, congrArg Prod.snd kept, ?_, ?_⟩
  · rintro front back rfl
    exact ended_cellsAhead_append front back { line }
  · rintro front text back rfl ended
    have closed : (after line front).cell = none :=
      (cell_performAll_eq_none_iff front { line }).mpr ended
    have same : (after line front).perform (.addContent text) = after line front :=
      addContent_of_closed closed text
    rw [after, after, performAll_append, performAll_append, performAll_cons]
    exact congrArg (performAll · back) same

end After

/-- Text after the end of a row's last cell is dropped, and so is the cell that nothing ends. -/
example : endedCells [.startRow, .startCell .header .empty, .addContent " Na", .addContent "me",
      .startCell .data .empty, .addContent "7", .endCell, .addContent "8", .startRow,
      .startCell .data .empty, .addContent "9"] =
    [⟨.header, 0, "Name", true⟩, ⟨.data, 1, "7", true⟩] := by
  decide +kernel

end HtmlMend.Table
