import HtmlMend.Page.Report
import HtmlMend.Proofs.Page.Promotion

/-! # Pages: one step of the editor

All that a token does to a page has three parts that depend on each other in one direction only. The
open table reads the token (`Table.read`); the added `main` element begins or ends before it
(`MainState.added`, `MainState.after`); and the token's share of the output, what is added and its
own text, goes to the table or is written (`Outline.share`). A step of the editor is no more than
this (`Outline.edit_spec`). -/

namespace HtmlMend

open Markup Output Page

/-! ### Main content -/

namespace Page

/-- The part of an outline that decides where a `main` element is added. -/
structure MainState where
  allowMain : Bool := false
  needMain : Bool := false
  mainOpen : Bool := false
  sectionDepth : Nat := 0
deriving DecidableEq

/-- The part of the outline that decides where a `main` element is added. -/
def Outline.mainState (o : Outline) : MainState :=
  ⟨o.allowMain, o.needMain, o.mainOpen, o.sectionDepth⟩

namespace MainState

/-- The start tag of a `main` element, if one is to begin. -/
def begun (f : MainState) : Option Fragment :=
  if f.allowMain && f.needMain then some .mainStart else none

/-- The end tag of the added `main` element, if it is open. -/
def ended (f : MainState) : Option Fragment := if f.mainOpen then some .mainEnd else none

/-- What is added before the start of an element that ends main content. -/
def endedBy (f : MainState) : Element → Option Fragment
  | .sectioning | .navigation => f.ended
  | _ => none

/-- What is added before the start of an element. -/
def beforeStart (f : MainState) : Element → Option Fragment
  | .sectioning | .navigation => f.ended
  | .body | .main => none
  | _ => f.begun

theorem begun_mem (f : MainState) : f.begun = none ∨ f.begun = some .mainStart := by
  unfold begun
  split <;> simp

theorem ended_mem (f : MainState) : f.ended = none ∨ f.ended = some .mainEnd := by
  unfold ended
  split <;> simp

/-- What is added before a token, in a table or not. -/
def added (f : MainState) (inTable : Bool) : Token → Option Fragment
  | .startTag tag => f.beforeStart (Element.ofName tag.name)
  | .endTag tag => if Element.ofName tag.name = .body then f.ended else none
  | .text data _ _ => if inTable || data.toList.all isSpace then none else f.begun
  | _ => none

/-- The state after something is added. -/
def afterAdded (f : MainState) : Option Fragment → MainState
  | some .mainStart => { f with needMain := false, mainOpen := true }
  | some .mainEnd => { f with mainOpen := false }
  | _ => f

/-- The state after the start of an element. -/
def afterStart (f : MainState) : Element → MainState
  | .sectioning | .navigation => { f with sectionDepth := f.sectionDepth + 1, allowMain := false }
  | .body => { f with allowMain := true, needMain := true }
  | .main => { f with needMain := false }
  | _ => f

/-- The state after the end of an element. -/
def afterEnd (f : MainState) : Element → MainState
  | .sectioning | .navigation =>
    { f with
      sectionDepth := f.sectionDepth - 1
      allowMain := f.allowMain || f.sectionDepth ≤ 1 }
  | .body => { f with allowMain := false, needMain := false }
  | _ => f

/-- The state after a token, without what is added before it. -/
def afterToken (f : MainState) : Token → MainState
  | .startTag tag => f.afterStart (Element.ofName tag.name)
  | .endTag tag => f.afterEnd (Element.ofName tag.name)
  | _ => f

/-- The state after a token, in a table or not. -/
def after (f : MainState) (inTable : Bool) (token : Token) : MainState :=
  (f.afterAdded (f.added inTable token)).afterToken token

@[simp] theorem afterAdded_none (f : MainState) : f.afterAdded none = f := rfl

/-- What is added before a token is one tag of a `main` element, or nothing. -/
theorem added_mem (f : MainState) (inTable : Bool) (token : Token) :
    f.added inTable token = none ∨ f.added inTable token = some .mainStart ∨
      f.added inTable token = some .mainEnd := by
  have begun : f.begun = none ∨ f.begun = some .mainStart ∨ f.begun = some .mainEnd :=
    f.begun_mem.imp_right .inl
  have ended : f.ended = none ∨ f.ended = some .mainStart ∨ f.ended = some .mainEnd :=
    f.ended_mem.imp_right .inr
  unfold added beforeStart
  repeat' split
  all_goals first | exact begun | exact ended | exact .inl rfl

end MainState

end Page

/-! ### Tables -/

namespace Table

/-- What a table becomes with the start of an element, apart from its entries. -/
def readStart (t : Table) (attrs : Attributes) : Element → Table
  | .table => { t.complicate with depth := t.depth + 1 }
  | .rowGroup => t.endCell
  | .row => t.startRow
  | .cell kind => t.startCell kind attrs
  | _ => t

/-- What a table becomes with the end of an element, apart from its entries. -/
def readEnd (t : Table) : Element → Table
  | .table => { t with depth := t.depth - 1 }
  | .rowGroup | .row | .cell _ => t.endCell
  | _ => t

/-- What a table becomes with a token, apart from its entries. -/
def read (t : Table) : Token → Table
  | .startTag tag => t.readStart tag.attrs (Element.ofName tag.name)
  | .endTag tag => t.readEnd (Element.ofName tag.name)
  | .text data _ _ => t.addContent data
  | .endOfInput .. => t.complicate
  | _ => t

theorem entries_read (t : Table) (token : Token) : (t.read token).entries = t.entries := by
  have endCell (t : Table) : t.endCell.entries = t.entries := by
    unfold Table.endCell
    split <;> rfl
  cases token with
  | startTag tag =>
    simp only [Table.read, Table.readStart]
    split <;> simp [Table.complicate, Table.startRow, Table.startCell, endCell]
  | endTag tag =>
    simp only [Table.read, Table.readEnd]
    split <;> simp [endCell]
  | _ => rfl

/-- What is known of a table from its cells decides what is known after a token. -/
theorem known_read (t : Table) (token : Token) :
    (t.read token).known = (t.known.read token).known := by
  have endCell : t.endCell.known = t.known.endCell.known := by
    unfold Table.endCell
    cases cell : t.cell <;> simp [known, cell]
  cases token with
  | startTag tag =>
    simp only [Table.read, Table.readStart]
    cases Element.ofName tag.name with
    | rowGroup => exact endCell
    | row => exact congrArg (fun u : Table => { u with nextColumn := 0 }) endCell
    | cell kind =>
      exact congrArg (fun u : Table => { u with
        simple := u.simple && (complicatingName? tag.attrs).isNone
        columns := growColumns u.columns u.nextColumn
        nextColumn := u.nextColumn + 1
        cell := some ⟨kind, u.nextColumn, #[]⟩ }) endCell
    | _ => rfl
  | endTag tag =>
    simp only [Table.read, Table.readEnd]
    cases Element.ofName tag.name with
    | rowGroup | row | cell => exact endCell
    | _ => rfl
  | _ => rfl

/-- Whether a token closes the table. -/
def closedBy (t : Table) : Token → Bool
  | .endTag tag => Element.ofName tag.name = .table && t.depth ≤ 1
  | .endOfInput .. => true
  | _ => false

end Table

namespace Page

namespace Outline

/-- The table that holds the start of an element: the open one after it has read it, or one that it
opens. -/
def tableStarted (o : Outline) (role : Element) (tag : StartTag) : Option Table :=
  match o.table with
  | some t => some (t.readStart tag.attrs role)
  | none => if role = .table then some { line := tag.line, depth := 1 } else none

/-- The table that holds a token. -/
def tableWith (o : Outline) : Token → Option Table
  | .startTag tag => o.tableStarted (Element.ofName tag.name) tag
  | token => o.table.map (·.read token)

theorem tableWith_of_some {o : Outline} {t : Table} (table : o.table = some t) (token : Token) :
    o.tableWith token = some (t.read token) := by
  cases token <;> simp [tableWith, tableStarted, table, Table.read]

theorem tableWith_of_none {o : Outline} (table : o.table = none) {token : Token} {t : Table}
    (h : o.tableWith token = some t) :
    ∃ tag, token = .startTag tag ∧ Element.ofName tag.name = .table ∧
      t = { line := tag.line, depth := 1 } := by
  cases token with
  | startTag tag =>
    simp only [tableWith, tableStarted, table] at h
    split at h
    · next role => exact ⟨tag, rfl, role, (Option.some.inj h).symm⟩
    · cases h
  | _ => simp [tableWith, table] at h

/-- The entries that the open table holds. -/
def held (o : Outline) : List Entry := (o.table.map (·.entries.toList)).getD []

theorem entries_tableWith {o : Outline} {token : Token} {t : Table}
    (h : o.tableWith token = some t) : t.entries.toList = o.held := by
  unfold held
  cases table : o.table with
  | none =>
    obtain ⟨tag, -, -, rfl⟩ := tableWith_of_none table h
    rfl
  | some t' =>
    obtain rfl := Option.some.inj ((tableWith_of_some table token).symm.trans h)
    rw [Table.entries_read]
    rfl

/-- Whether a token closes the open table. -/
def closes (o : Outline) (token : Token) : Bool := o.table.any (·.closedBy token)

end Outline

/-! ### Shares of the output -/

/-- What a token leads to in the output: what is added before it, and its own text. A report leads
to nothing. -/
structure Share where
  added : Option Fragment := none
  own : Option Entry := none

/-- The entries of what is added. -/
def addedEntries (added : Option Fragment) : List Entry :=
  (added.map fun fragment => { fragment }).toList

/-- The entries of a share. -/
def Share.entries (s : Share) : List Entry := addedEntries s.added ++ s.own.toList

/-- The kind of cell that an element is. -/
def cellKind? : Element → Option CellKind
  | .cell kind => some kind
  | _ => none

namespace Outline

theorem fragment_startEntry (o : Outline) (role : Element) (tag : StartTag) (fragment : Fragment) :
    (o.startEntry role tag fragment).fragment = fragment := by
  unfold startEntry
  split <;> rfl

theorem closes_startEntry (o : Outline) (role : Element) (tag : StartTag) (fragment : Fragment) :
    (o.startEntry role tag fragment).closes = none := by
  unfold startEntry
  split <;> rfl

/-- Only the start tags of data cells in a table have a column. -/
theorem column_startEntry (o : Outline) (role : Element) (tag : StartTag) (fragment : Fragment) :
    (o.startEntry role tag fragment).column =
      if role = .cell .data then (o.table.map Table.nextColumn).map Int.ofNat else none := by
  unfold startEntry
  split
  · next kind t table => cases kind <;> simp [table]
  · next other =>
    split
    · next cell =>
      cases table : o.table with
      | none => rfl
      | some t => exact absurd table (other .data t cell)
    · rfl

end Outline

/-- The entry for a token in an outline. -/
def Outline.ownEntry (o : Outline) (options : Options) : Token → Option Entry
  | .startTag tag =>
    let role := Element.ofName tag.name
    some (o.startEntry role tag (options.startTag role tag))
  | .endTag tag =>
    some { fragment := .copied tag.raw, closes := cellKind? (Element.ofName tag.name) }
  | .malformed _ => none
  | token => some { fragment := .copied token.raw }

/-- The share of a token in an outline. An entry without text is none. -/
def Outline.share (o : Outline) (options : Options) (token : Token) : Share where
  added := o.mainState.added o.table.isSome token
  own := (o.ownEntry options token).filter (·.fragment.text ≠ "")

/-- The entries of a share and those without text. -/
def Outline.allEntries (o : Outline) (options : Options) (token : Token) : List Entry :=
  addedEntries (o.mainState.added o.table.isSome token) ++ (o.ownEntry options token).toList

/-- The entries that are not empty. -/
def visible (entries : List Entry) : List Entry := entries.filter (·.fragment.text ≠ "")

@[simp] theorem visible_append (xs ys : List Entry) :
    visible (xs ++ ys) = visible xs ++ visible ys := List.filter_append xs ys

theorem visible_allEntries (o : Outline) (options : Options) (token : Token) :
    visible (o.allEntries options token) = (o.share options token).entries := by
  have added : visible (addedEntries (o.mainState.added o.table.isSome token)) =
      addedEntries (o.mainState.added o.table.isSome token) := by
    rcases o.mainState.added_mem o.table.isSome token with h | h | h <;> rw [h] <;> decide
  rw [Outline.allEntries, visible_append, added, Share.entries, Outline.share]
  cases o.ownEntry options token with
  | none => rfl
  | some entry => by_cases empty : entry.fragment.text = "" <;> simp [visible, Option.filter, empty]

/-- What a step does with the entries of a share: a table that goes on takes them; without a table
they are written; and a table that is closed is written with them. -/
inductive Delivers (o : Outline) (token : Token) (entries : List Entry) (e : Edit) : Prop
  | written (table : o.tableWith token = none) (after : e.outline.table = none)
    (written : e.written = entries.map Entry.fragment)
  | held (t : Table) (table : o.tableWith token = some t) (goesOn : o.closes token = false)
    (after : e.outline.table = some (t.addEntries entries)) (written : e.written = [])
  | released (t : Table) (table : o.tableWith token = some t) (closes : o.closes token = true)
    (after : e.outline.table = none)
    (written : e.written = (t.addEntries entries).render.filter (·.text ≠ ""))

/-! ### The parts of a step -/

/-- What an edit has done so far: the state of the main content, and the entries that it has put
into a table or written if there is none. -/
structure Edit.Shows (e : Edit) (f : MainState) (base : Option Table) (entries : List Entry) :
    Prop where
  mainState : e.outline.mainState = f
  table : e.outline.table = base.map (·.addEntries (visible entries))
  written : e.written = if base.isSome then [] else (visible entries).map Entry.fragment

namespace Edit.Shows

variable {e : Edit} {f : MainState} {base : Option Table} {entries : List Entry}

theorem start (o : Outline) (events : List Event) :
    ({ outline := o, events } : Edit).Shows o.mainState o.table [] := by
  refine ⟨rfl, ?_, ?_⟩
  · cases o.table <;> simp [visible]
  · split <;> rfl

theorem put (h : e.Shows f base entries) (entry : Entry) :
    (e.put entry).Shows f base (entries ++ [entry]) := by
  unfold Edit.put
  by_cases empty : entry.fragment.text = ""
  · have same : visible (entries ++ [entry]) = visible entries := by simp [visible, empty]
    rw [if_pos empty]
    exact ⟨h.mainState, by rw [same, h.table], by rw [same, h.written]⟩
  · have more : visible (entries ++ [entry]) = visible entries ++ [entry] := by
      simp [visible, empty]
    rw [if_neg empty]
    cases base with
    | none =>
      have table : e.outline.table = none := h.table
      have written : e.written = (visible entries).map Entry.fragment := h.written
      rw [table, if_neg (by simp)]
      exact ⟨h.mainState, table, by simp [written, more]⟩
    | some t =>
      have table : e.outline.table = some (t.addEntries (visible entries)) := h.table
      rw [table, if_pos (by simp)]
      refine ⟨h.mainState, ?_, h.written⟩
      simp [Edit.modify, Outline.mapTable, table, more, Table.addEntries_append,
        Table.addEntry_eq]

/-- A change of the outline that leaves the table as it is. -/
theorem modify (h : e.Shows f base entries) {change : Outline → Outline}
    (g : MainState → MainState) (table : ∀ o, (change o).table = o.table)
    (mainState : ∀ o, (change o).mainState = g o.mainState) :
    (e.modify change).Shows (g f) base entries :=
  ⟨(mainState _).trans (congrArg g h.mainState), (table _).trans h.table, h.written⟩

theorem startMain (h : e.Shows f base entries) :
    e.startMain.Shows (f.afterAdded f.begun) base (entries ++ addedEntries f.begun) := by
  have flags := h.mainState
  subst flags
  unfold Edit.startMain
  by_cases begins : (e.outline.allowMain && e.outline.needMain) = true
  · have added : e.outline.mainState.begun = some .mainStart := if_pos begins
    rw [if_pos begins, added]
    have recorded : (e.record [.mainAdded]).Shows e.outline.mainState base entries :=
      ⟨rfl, h.table, h.written⟩
    exact (recorded.put { fragment := .mainStart }).modify
      ({ · with needMain := false, mainOpen := true }) (fun _ => rfl) (fun _ => rfl)
  · have added : e.outline.mainState.begun = none := if_neg begins
    rw [if_neg begins, added]
    simpa [addedEntries] using h

theorem endMain (h : e.Shows f base entries) :
    e.endMain.Shows (f.afterAdded f.ended) base (entries ++ addedEntries f.ended) := by
  have flags := h.mainState
  subst flags
  unfold Edit.endMain
  by_cases ends : e.outline.mainOpen = true
  · have added : e.outline.mainState.ended = some .mainEnd := if_pos ends
    rw [if_pos ends, added]
    exact (h.put { fragment := .mainEnd }).modify ({ · with mainOpen := false })
      (fun _ => rfl) (fun _ => rfl)
  · have added : e.outline.mainState.ended = none := if_neg ends
    rw [if_neg ends, added]
    simpa [addedEntries] using h

theorem delivers {o : Outline} {options : Options} {token : Token}
    (h : e.Shows f (o.tableWith token) (o.allEntries options token))
    (goesOn : o.closes token = false) : Delivers o token (o.share options token).entries e := by
  rw [← visible_allEntries]
  cases table : o.tableWith token with
  | none =>
    rw [table] at h
    exact .written table h.table h.written
  | some t =>
    rw [table] at h
    exact .held t table goesOn h.table h.written

end Edit.Shows

/-! ### Steps -/

namespace Outline

/-- What a start tag is when it is entered: the section that it opens ends the added `main` element,
and the table reads it. -/
theorem enter_shows (o : Outline) (role : Element) (tag : StartTag) :
    (o.enter role tag).Shows ((o.mainState.afterAdded (o.mainState.endedBy role)).afterStart role)
      (o.tableStarted role tag) (addedEntries (o.mainState.endedBy role)) := by
  have start := Edit.Shows.start o (o.enterEvents role tag)
  have reads (change : Table → Table) :=
    Edit.Shows.start (o.mapTable change) (o.enterEvents role tag)
  have base (other : role ≠ .table) :
      o.tableStarted role tag = o.table.map (·.readStart tag.attrs role) := by
    cases table : o.table <;> simp [tableStarted, table, other]
  unfold enter
  cases role with
  | sectioning | navigation =>
    rw [base (by decide)]
    simp only [Table.readStart, Option.map_id_fun', id]
    refine start.endMain.modify (·.afterStart .sectioning) ?_ ?_ <;> exact fun _ => rfl
  | body =>
    rw [base (by decide)]
    simp only [Table.readStart, Option.map_id_fun', id]
    refine start.modify (·.afterStart .body) ?_ ?_ <;> exact fun _ => rfl
  | main =>
    rw [base (by decide)]
    simp only [Table.readStart, Option.map_id_fun', id]
    refine start.modify (·.afterStart .main) ?_ ?_ <;> exact fun _ => rfl
  | table =>
    have opened : o.tableStarted .table tag = (o.openTable tag.line).table := by
      cases table : o.table <;>
        simp [tableStarted, table, openTable, mapTable, Table.readStart]
    have flags : (o.openTable tag.line).mainState = o.mainState := by
      unfold openTable
      split <;> rfl
    have opens := Edit.Shows.start (o.openTable tag.line) (o.enterEvents .table tag)
    rw [flags] at opens
    rw [opened]
    exact opens
  | rowGroup | row | cell =>
    rw [base (by simp)]
    exact reads _
  | html | metadata | other =>
    rw [base (by decide)]
    simp only [Table.readStart, Option.map_id_fun', id]
    exact start

theorem beforeStart_shows (o : Outline) (role : Element) (tag : StartTag) :
    (if role = .body then o.enter role tag else (o.enter role tag).startMain).Shows
      ((o.mainState.afterAdded (o.mainState.beforeStart role)).afterStart role)
      (o.tableStarted role tag) (addedEntries (o.mainState.beforeStart role)) := by
  have entered := o.enter_shows role tag
  have begins := entered.startMain
  cases role with
  | body => exact entered
  | sectioning | navigation | main =>
    -- No main content begins here: it is not allowed any more, or not needed.
    have begun : ∀ f : MainState, (f.afterStart .sectioning).begun = none ∧
        (f.afterStart .navigation).begun = none ∧ (f.afterStart .main).begun = none :=
      fun f => ⟨rfl, rfl, by simp [MainState.afterStart, MainState.begun]⟩
    rw [if_neg (by decide)]
    simp only [begun, addedEntries, Option.map_none, Option.toList_none, List.append_nil,
      MainState.afterAdded_none] at begins
    exact begins
  | _ =>
    rw [if_neg (by simp)]
    exact begins

/-- **A start tag** shows its share. -/
theorem startTag_shows (o : Outline) (options : Options) (tag : StartTag) :
    (o.startTag options tag).Shows (o.mainState.after o.table.isSome (.startTag tag))
      (o.tableWith (.startTag tag)) (o.allEntries options (.startTag tag)) :=
  (o.beforeStart_shows (Element.ofName tag.name) tag).put _

/-- **An end tag** that closes no table shows its share. -/
theorem endTag_shows (o : Outline) (options : Options) (tag : EndTag)
    (goesOn : o.closes (.endTag tag) = false) :
    (o.endTag tag).Shows (o.mainState.after o.table.isSome (.endTag tag))
      (o.tableWith (.endTag tag)) (o.allEntries options (.endTag tag)) := by
  have start := Edit.Shows.start o []
  have reads (change : Table → Table) := Edit.Shows.start (o.mapTable change) []
  have base : o.tableWith (.endTag tag) =
      o.table.map (·.readEnd (Element.ofName tag.name)) := rfl
  unfold endTag
  simp only [MainState.after, MainState.added, MainState.afterToken, allEntries, ownEntry,
    Option.toList_some, base]
  cases role : Element.ofName tag.name with
  | sectioning | navigation =>
    simp only [Table.readEnd, Option.map_id_fun', id]
    refine (start.modify (·.afterEnd .sectioning) ?_ ?_).put _ <;> exact fun _ => rfl
  | body =>
    simp only [Table.readEnd, Option.map_id_fun', id]
    refine (start.endMain.modify (·.afterEnd .body) ?_ ?_).put _ <;> exact fun _ => rfl
  | table =>
    cases table : o.table with
    | none =>
      rw [table] at start
      simp only [closeTable, table]
      exact start.put _
    | some t =>
      have deep : t.depth - 1 ≠ 0 := by
        simp [closes, table, Table.closedBy, role] at goesOn
        omega
      have goes := Edit.Shows.start { o with table := some { t with depth := t.depth - 1 } } []
      simp only [closeTable, table, if_neg deep]
      exact goes.put _
  | rowGroup | row | cell => exact (reads _).put _
  | _ =>
    simp only [Table.readEnd, Option.map_id_fun', id]
    exact start.put _

/-- **Text** shows its share. -/
theorem text_shows (o : Outline) (options : Options) (data : String) (line : Option Int)
    (raw : String) :
    (o.text data raw).Shows (o.mainState.after o.table.isSome (.text data line raw))
      (o.tableWith (.text data line raw)) (o.allEntries options (.text data line raw)) := by
  have start := Edit.Shows.start o []
  unfold text
  simp only [MainState.after, MainState.added, MainState.afterToken, allEntries, ownEntry,
    Option.toList_some, tableWith]
  cases table : o.table with
  | none =>
    rw [table] at start
    by_cases blank : data.toList.all isSpace = true
    · simp only [Option.isSome_none, Bool.false_eq_true, if_false, if_pos blank, Bool.false_or]
      exact start.put _
    · simp only [Option.isSome_none, Bool.false_eq_true, if_false, if_neg blank, Bool.false_or]
      exact start.startMain.put _
  | some t =>
    have reads := Edit.Shows.start (o.mapTable (·.addContent data)) []
    have read : (o.mapTable (·.addContent data)).table = some (t.addContent data) := by
      simp [mapTable, table]
    rw [read] at reads
    simp only [Option.isSome_some, if_true, Bool.true_or]
    exact reads.put _

/-- **A table is closed by its end tag** with the entry for the tag. -/
theorem closeTable_released {o : Outline} {options : Options} {tag : EndTag}
    (closes : o.closes (.endTag tag) = true) :
    (o.endTag tag).outline.mainState = o.mainState.after o.table.isSome (.endTag tag) ∧
      Delivers o (.endTag tag) (o.share options (.endTag tag)).entries (o.endTag tag) := by
  cases table : o.table with
  | none => simp [Outline.closes, table] at closes
  | some t =>
    simp only [Outline.closes, table, Option.any_some, Table.closedBy, Bool.and_eq_true,
      decide_eq_true_eq] at closes
    obtain ⟨role, shallow⟩ := closes
    have last : t.depth - 1 = 0 := by omega
    have edit : o.endTag tag = ({ outline := o } : Edit).release
        (({ t with depth := t.depth - 1 } : Table).addEntry { fragment := .copied tag.raw }) := by
      simp only [endTag, role, closeTable, table, if_pos last]
    rw [edit]
    refine ⟨by simp [MainState.after, MainState.added, MainState.afterToken, role,
      MainState.afterEnd, Edit.release, Outline.mainState], ?_⟩
    refine .released (t.read (.endTag tag)) (by simp [tableWith, table])
      (by simp [Outline.closes, table, Table.closedBy, role, shallow]) rfl ?_
    have all : o.allEntries options (.endTag tag) = [{ fragment := .copied tag.raw }] := by
      simp [allEntries, MainState.added, role, ownEntry, cellKind?, addedEntries]
    rw [← visible_allEntries, all]
    by_cases empty : tag.raw = ""
    · simp [Edit.release, Table.addEntry_eq, Table.render_addEntries, visible, Fragment.text, empty,
        Table.read, role, Table.readEnd]
    · simp [Edit.release, Table.addEntry_eq, visible, Fragment.text, empty, Table.read, role,
        Table.readEnd]

/-- **At the end of the input** a table that is open is written as it was read. -/
theorem finish_released (o : Outline) (options : Options) (file : Option String)
    (line : Option Int) (raw : String) :
    (o.finish file raw).outline.mainState = o.mainState ∧
      Delivers o (.endOfInput line raw) (o.share options (.endOfInput line raw)).entries
        (o.finish file raw) := by
  have start := Edit.Shows.start o []
  have all : o.allEntries options (.endOfInput line raw) = [{ fragment := .copied raw }] := rfl
  rw [← visible_allEntries, all]
  unfold finish
  cases table : o.table with
  | none =>
    rw [table] at start
    have put := start.put { fragment := .copied raw }
    exact ⟨put.mainState, .written (by simp [tableWith, table]) put.table put.written⟩
  | some t =>
    have verbatim (entries : List Entry) : (t.complicate.addEntries entries).render =
        t.entries.toList.map Entry.fragment ++ entries.map Entry.fragment := by
      simp [Table.render, Table.complicate, Table.addEntries]
    have before := verbatim []
    rw [Table.addEntries_nil, List.map_nil, List.append_nil] at before
    have closes : o.closes (.endOfInput line raw) = true := by simp [closes, table, Table.closedBy]
    have table' : o.tableWith (.endOfInput line raw) = some t.complicate := by
      simp [tableWith, table, Table.read]
    simp only [Edit.put, Edit.release, Edit.record]
    by_cases empty : (Fragment.copied raw).text = ""
    · rw [if_pos empty]
      refine ⟨rfl, .released _ table' closes rfl ?_⟩
      simp [before, visible, empty]
    · simp only [if_neg empty, Option.isSome_none, Bool.false_eq_true, if_false]
      refine ⟨rfl, .released _ table' closes rfl ?_⟩
      simp [before, verbatim, visible, empty]

/-- A step leads to the next state of the main content, and delivers the share of its token. -/
theorem edit_spec (o : Outline) (settings : Settings) (token : Token) :
    (o.edit settings token).outline.mainState = o.mainState.after o.table.isSome token ∧
      Delivers o token (o.share settings.options token).entries (o.edit settings token) := by
  -- Only end tags and the end of the input close a table.
  have goesOn (other : ∀ t : Table, t.closedBy token = false) : o.closes token = false := by
    cases table : o.table <;> simp [closes, table, other]
  match token with
  | .startTag tag =>
    have shows := o.startTag_shows settings.options tag
    exact ⟨shows.mainState, shows.delivers (goesOn fun _ => rfl)⟩
  | .endTag tag =>
    cases closes : o.closes (.endTag tag) with
    | false =>
      have shows := o.endTag_shows settings.options tag closes
      exact ⟨shows.mainState, shows.delivers closes⟩
    | true => exact closeTable_released closes
  | .text data line raw =>
    have shows := o.text_shows settings.options data line raw
    exact ⟨shows.mainState, shows.delivers (goesOn fun _ => rfl)⟩
  | .comment data line raw | .doctype data line raw =>
    have shows := (Edit.Shows.start o []).put { fragment := .copied raw }
    have base : o.table = o.table.map fun t => t := by simp
    rw [base] at shows
    exact ⟨shows.mainState, shows.delivers (goesOn fun _ => rfl)⟩
  | .malformed report =>
    have shows := Edit.Shows.start o [.malformed (report.inFile settings.file)]
    have base : o.table = o.table.map fun t => t := by simp
    rw [base] at shows
    exact ⟨shows.mainState, shows.delivers (goesOn fun _ => rfl)⟩
  | .endOfInput line raw => exact o.finish_released settings.options settings.file line raw

theorem mainState_edit (o : Outline) (settings : Settings) (token : Token) :
    (o.edit settings token).outline.mainState = o.mainState.after o.table.isSome token :=
  (o.edit_spec settings token).1

theorem table_edit (o : Outline) (settings : Settings) (token : Token) :
    (o.edit settings token).outline.table = if o.closes token then none
      else (o.tableWith token).map (·.addEntries (o.share settings.options token).entries) := by
  obtain ⟨-, delivers⟩ := o.edit_spec settings token
  cases delivers with
  | written table after _ =>
    rw [after, table]
    split <;> rfl
  | held t table goesOn after _ => simp [after, table, goesOn]
  | released t _ closes after _ => simp [after, closes]

theorem table_edit_end (o : Outline) (settings : Settings) (line : Option Int) (raw : String) :
    (o.edit settings (.endOfInput line raw)).outline.table = none := by
  rw [table_edit]
  cases table : o.table with
  | none => simp [closes, tableWith, table]
  | some t => simp [closes, table, Table.closedBy]

end Outline

end Page

end HtmlMend
