import HtmlMend.Proofs.Page.Conservation
import HtmlMend.Proofs.Page.TableRun
import HtmlMend.Proofs.Table.Cells

/-! # Pages: the texts of the cells of a table

When a table is rendered its columns hold the texts of the cells that a tag of a cell, a row or a
group of rows has ended (`mend_cellTexts`). The end tag of the table does not end a cell: a cell
that is open there is not counted, unless its column holds its text from another cell
(`mend_cellTexts_open`). -/

namespace HtmlMend.Page

open Markup Output Table

/-- **The texts of cells**: a table in no other that its end tag closes is rendered with columns
that hold the texts of the cells that have ended in it. These are the texts of all its cells exactly
if its column has the text of a cell that is open at the end of the table from one that has
ended. -/
theorem mend_cellTexts {settings : Settings} {xml : Bool} {html : String}
    {before inner after : List Token} {tag : StartTag} {closer : Token}
    (tokens : documentTokens xml html = before ++ .startTag tag :: (inner ++ closer :: after))
    (outer : openTables before = 0) (table : IsTable tag inner closer)
    (closed : closer.isEnd = false) : ∃ t entries,
      (outlineFrom settings {} (before ++ .startTag tag :: inner)).table = some t ∧
      ((mend settings xml (.whole html)).ending = .complete →
        (mend settings xml (.whole html)).written.toList = writtenFrom settings {} before ++
          ((t.read closer).addEntries entries).render ++ writtenFrom settings
            (outlineFrom settings {} (before ++ .startTag tag :: (inner ++ [closer]))) after) ∧
      (∀ column text, (t.read closer).Holds column text ↔ EndedCell inner column text) ∧
      ((∀ column text, HasCell inner column text → (t.read closer).Holds column text) ↔
        ∀ column content, OpenCell inner column content →
          EndedCell inner column (textIn content)) := by
  have shut := (hasTables_outlineFrom settings before).table_eq_none outer
  have held := (table.held settings shut).1
  rw [← outlineFrom_append] at held
  refine ⟨_, entriesFrom settings (outlineFrom settings {} (before ++ .startTag tag :: inner)) [closer],
    held, fun complete => ?_, ?_⟩
  · have rendered := table.written settings shut
    rw [← List.cons_append, entriesFrom_append, addEntries_append, readAll_append, readAll_cons,
      readAll_nil, ← read_addEntries, ← outlineFrom_append] at rendered
    have split : documentTokens xml html =
        before ++ (.startTag tag :: inner ++ [closer]) ++ after := by simp [tokens]
    rw [written_mend complete, split, writtenFrom_append, writtenFrom_append, rendered]
    rfl
  have holds : ∀ column text, (((begun tag).readAll inner).read closer).Holds column text ↔
      EndedCell inner column text := by
    intro column text
    rw [read_of_closedBy table.closedBy_closer closed]
    exact (knowsCells_begun tag).readAll.holds column text
  rw [read_addEntries]
  refine ⟨holds, fun all column content isOpen => ?_, ?_⟩
  · exact (holds column _).mp (all column _ (.inr ⟨content, isOpen, rfl⟩))
  · rintro each column text (ended | ⟨content, isOpen, rfl⟩)
    · exact (holds column text).mpr ended
    · exact (holds column _).mpr (each column content isOpen)

theorem mend_cellTexts_cell :
    let tag : StartTag := { name := "table", line := some 1, raw := "<table>" }
    let inner := [Token.startTag { name := "td", line := some 1, raw := "<td>" },
      .text "a" (some 1) "a", .endTag { name := "td", line := some 1, raw := "</td>" }]
    let closer := Token.endTag { name := "table", line := some 1, raw := "</table>" }
    documentTokens false "<table><td>a</td></table>" =
        [] ++ .startTag tag :: (inner ++ closer :: [.endOfInput (some 1) ""]) ∧
      openTables [] = 0 ∧ IsTable tag inner closer ∧ closer.isEnd = false ∧
      ∃ t, (outlineFrom {} {} ([] ++ .startTag tag :: inner)).table = some t ∧
        ∀ column text, (t.read closer).Holds column text ↔ EndedCell inner column text := by
  intro tag inner closer
  have tokens : documentTokens false "<table><td>a</td></table>" =
      [] ++ .startTag tag :: (inner ++ closer :: [.endOfInput (some 1) ""]) := by decide +kernel
  have table : IsTable tag inner closer := ⟨rfl, by decide, by decide⟩
  obtain ⟨t, -, held, -, holds, -⟩ := @mend_cellTexts {} _ _ _ _ _ _ _ tokens rfl table rfl
  exact ⟨tokens, rfl, table, rfl, t, held, holds⟩

/-- The text of a cell that is open at the end of its table is missing in its column, and so another
column is promoted. -/
theorem mend_cellTexts_open :
    let tag : StartTag := { name := "table", line := some 1, raw := "<table>" }
    let row := Token.startTag { name := "tr", line := some 1, raw := "<tr>" }
    let cell := Token.startTag { name := "td", line := some 1, raw := "<td>" }
    let text (s : String) := Token.text s (some 1) s
    let inner := [row, cell, text "a", cell, text "b", row, cell, text "a", cell, text "c"]
    let closer := Token.endTag { name := "table", line := some 1, raw := "</table>" }
    let html := "<table><tr><td>a<td>b<tr><td>a<td>c</table>"
    documentTokens false html =
        [] ++ .startTag tag :: (inner ++ closer :: [.endOfInput (some 1) ""]) ∧
      openTables [] = 0 ∧ IsTable tag inner closer ∧ closer.isEnd = false ∧
      HasCell inner 1 "c" ∧
      (outlineFrom {} {} (.startTag tag :: inner)).table.map Table.columns = some [["a"], ["b"]] ∧
      (mend {} false (.whole html)).text = "<table><tr>" ++
        "<th style=\"font-weight: normal; text-align: left\" scope=\"row\">a<td>b<tr>" ++
        "<th style=\"font-weight: normal; text-align: left\" scope=\"row\">a<td>c</table>" := by
  intro tag row cell text inner closer html
  have table : IsTable tag inner closer := ⟨rfl, by decide, by decide⟩
  have last : OpenCell inner 1 [text "c"] :=
    ⟨[row, cell, text "a", cell, text "b", row, cell, text "a"], cell, rfl, .inl rfl, by decide,
      by simp [text, EndsCell]⟩
  exact ⟨by decide +kernel, rfl, table, rfl, .inr ⟨_, last, by decide⟩, by decide +kernel,
    by decide +kernel⟩

end HtmlMend.Page
