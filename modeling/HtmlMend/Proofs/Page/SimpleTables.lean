import HtmlMend.Proofs.Page.Conservation
import HtmlMend.Proofs.Page.TableRun

/-! # Pages: simple tables

A table that ends with the input, or that a token within it complicates, is written as it was read.
In any other table the start tags of the data cells of the primary column become those of row
headers, and no other start tags do (`mend_tables`). -/

namespace HtmlMend.Page

open Markup Output

/-- A table that is not simple: it ends with the input, or a token complicates it. -/
def IsComplicated (inner : List Token) (closer : Token) : Prop :=
  closer.isEnd = true ∨ ∃ token ∈ inner, Table.Complicates token

/-- What becomes of a token in a simple table, where the next cell is in a column: the start tag of
a data cell of the primary column is that of a row header, the end tag of a data cell may be that of
a row header, and all else is as it was read. -/
inductive Promoted (primary : Option Nat) (column : Nat) : Token → Share → Piece → Prop
  | start (tag : StartTag) (share : Share) (name : tag.name = "td") (chosen : primary = some column) :
    Promoted primary column (.startTag tag) share
      ⟨share.added, some (.headerStart (Table.headerAttrs tag.sourceAttrs))⟩
  | stop (tag : EndTag) (share : Share) (name : tag.name = "td") :
    Promoted primary column (.endTag tag) share ⟨share.added, some .headerEnd⟩
  | same (token : Token) (share : Share)
    (other : ∀ tag, token = .startTag tag → tag.name = "td" → primary ≠ some column) :
    Promoted primary column token share share.piece

/-- What becomes of tokens in a simple table, where the next cell is in a column. -/
inductive Promotes (primary : Option Nat) : Nat → List Token → List Share → List Piece → Prop
  | nil (column : Nat) : Promotes primary column [] [] []
  | cons {column : Nat} {token : Token} {share : Share} {piece : Piece} {tokens : List Token}
    {shares : List Share} {pieces : List Piece} (here : Promoted primary column token share piece)
    (rest : Promotes primary (Table.columnStep column token) tokens shares pieces) :
    Promotes primary column (token :: tokens) (share :: shares) (piece :: pieces)

/-- How a table is written whose tokens come in an outline, where `t` is the open table before its
last token. Nothing is written before that. Then the entries are written as they were read if the
table is complicated; else the data cells of the primary column are promoted. -/
structure WritesTable (settings : Settings) (o : Outline) (tag : StartTag) (inner : List Token)
    (closer : Token) (t : Table) : Prop where
  table : (outlineFrom settings o (.startTag tag :: inner)).table = some t
  entries : t.entries.toList = entriesFrom settings o (.startTag tag :: inner)
  held : writtenFrom settings o (.startTag tag :: inner) = []
  complicated : IsComplicated inner closer →
    writtenFrom settings o (.startTag tag :: (inner ++ [closer])) =
      (entriesFrom settings o (.startTag tag :: (inner ++ [closer]))).map Entry.fragment
  simple : ¬IsComplicated inner closer → ∃ pieces,
    Promotes t.primaryColumn 0 (.startTag tag :: (inner ++ [closer]))
      (sharesFrom settings o (.startTag tag :: (inner ++ [closer]))) pieces ∧
    writtenFrom settings o (.startTag tag :: (inner ++ [closer])) = pieces.flatMap Piece.fragments

/-! ### Promoted cells -/

/-- Data cells that begin have text. -/
def CellsShown (tokens : List Token) : Prop :=
  ∀ tag, Token.startTag tag ∈ tokens → tag.name = "td" → tag.raw ≠ ""

variable {o : Outline} {t : Table} {primary : Option Nat}

/-- The entry of the start of a data cell. -/
def dataCellEntry (t : Table) (tag : StartTag) : Entry where
  fragment := .copied tag.raw
  column := some t.nextColumn
  attrs := some tag.sourceAttrs

theorem own_dataCell (table : o.table = some t) {tag : StartTag} (name : tag.name = "td")
    (shown : tag.raw ≠ "") (options : Options) :
    (o.share options (.startTag tag)).own = some (dataCellEntry t tag) := by
  have role : Element.ofName tag.name = .cell .data := Element.ofName_eq_cell_iff.mpr name
  simp [Outline.share, Outline.ownEntry, Outline.startEntry, Options.startTag, role, table,
    Fragment.text, shown, dataCellEntry]

/-- **The start of a data cell** is promoted exactly in the primary column. -/
theorem promote_dataCell (primary : Option Nat) (due : Bool) (t : Table) (tag : StartTag) :
    Table.promote primary due (dataCellEntry t tag) = if primary = some t.nextColumn
      then .headerStart (Table.headerAttrs tag.sourceAttrs) else .copied tag.raw := by
  have promoted : Table.isPromoted primary (dataCellEntry t tag) = true ↔
      primary = some t.nextColumn := by
    cases primary with
    | none => simp [Table.isPromoted]
    | some column => simp [Table.isPromoted, dataCellEntry]; omega
  simp only [Table.promote, promoted]
  split <;> simp [dataCellEntry]

/-- A token that does not begin a data cell is as it was read, or the end tag of a row header. -/
theorem promoted_of_other {token : Token} (other : ∀ tag, token = .startTag tag → tag.name ≠ "td")
    (options : Options) (due : Bool) (column : Nat) : Promoted primary column token
      (o.share options token) ((o.share options token).promoted primary due) := by
  rcases promoted_share primary due with same | ⟨-, f, own, promotion⟩
  · rw [same]
    exact .same token _ fun tag is name => absurd name (other tag is)
  · cases promotion with
    | start tag name => exact absurd name (other tag rfl)
    | stop tag name =>
      have stop : Promoted primary column _ _ _ := .stop tag (o.share options (.endTag tag)) name
      rw [← own] at stop
      exact stop

/-- **The share of a token in a simple table** is promoted exactly if the token begins a data cell
of the primary column, end tags apart. -/
theorem promoted_of_table (table : o.table = some t) {token : Token} (shown : CellsShown [token])
    (options : Options) (due : Bool) : Promoted primary t.nextColumn token (o.share options token)
      ((o.share options token).promoted primary due) := by
  by_cases cell : ∃ tag, token = .startTag tag ∧ tag.name = "td"
  · obtain ⟨tag, rfl, name⟩ := cell
    have own := own_dataCell table name (shown tag (by simp) name) options
    rw [Share.promoted, own, Option.map_some, promote_dataCell]
    split
    · next chosen => exact .start tag _ name chosen
    · next other =>
      have same := Promoted.same (.startTag tag) (o.share options (.startTag tag)) fun _ _ _ => other
      rwa [Share.piece, own] at same
  · exact promoted_of_other (fun tag is name => cell ⟨tag, is, name⟩) options due _

/-- **The tokens of a table** are promoted one by one while it stays open, and so is the last
one. -/
theorem promotes_of_staysOpen (settings : Settings) {closer : Token} : ∀ {inner : List Token}
    {o : Outline} {t : Table} {column : Nat} (due : Bool), o.table = some t → t.nextColumn = column →
    StaysOpen t.depth inner → CellsShown (inner ++ [closer]) →
    Promotes primary column (inner ++ [closer]) (sharesFrom settings o (inner ++ [closer]))
      (promoteAll primary due (sharesFrom settings o (inner ++ [closer])))
  | [], _, _, _, due, table, rfl, _, shown =>
    .cons (promoted_of_table table shown settings.options due) (.nil _)
  | token :: rest, _, t, _, due, table, rfl, stays, shown => by
    obtain ⟨after, -, later⟩ := edit_of_staysOpen settings table stays
    have here : CellsShown [token] := fun tag mem => shown tag (by simp_all)
    exact .cons (promoted_of_table table here settings.options due)
      (promotes_of_staysOpen settings _ after (t.nextColumn_read token) later
        fun tag mem => shown tag (List.mem_cons_of_mem token mem))

/-! ### The tokens of a table -/

theorem StaysOpen.isEnd : ∀ {tokens : List Token} {depth : Nat}, StaysOpen depth tokens →
    ∀ token ∈ tokens, token.isEnd = false
  | token :: rest, depth, stays, x, mem => by
    obtain ⟨-, later⟩ := staysOpen_cons.mp stays
    rcases List.mem_cons.mp mem with rfl | mem
    · cases x with
      | endOfInput => exact absurd later.pos (Nat.lt_irrefl 0)
      | _ => rfl
    · exact later.isEnd x mem

theorem not_complicates_of_closedBy {token : Token} (closes : t.closedBy token = true) :
    ¬Table.Complicates token := by
  cases token with
  | startTag => cases closes
  | _ => exact not_false

/-- **A table is simple** where it is written, unless it is complicated. -/
theorem IsTable.simple_iff {tag : StartTag} {inner : List Token} {closer : Token}
    (h : IsTable tag inner closer) :
    ((Table.begun tag).readAll (inner ++ [closer])).simple = true ↔ ¬IsComplicated inner closer := by
  have closes := not_complicates_of_closedBy h.closedBy_closer
  have ended := h.stays.isEnd
  rw [Table.simple_readAll, IsComplicated, not_or, not_exists, Bool.not_eq_true]
  constructor
  · rintro ⟨-, each⟩
    exact ⟨(each closer (by simp)).2, fun x ⟨mem, complicates⟩ =>
      (each x (List.mem_append_left _ mem)).1 complicates⟩
  · rintro ⟨goesOn, plain⟩
    refine ⟨rfl, fun x mem => ?_⟩
    rcases List.mem_append.mp mem with mem | mem
    · exact ⟨fun complicates => plain x ⟨mem, complicates⟩, ended x mem⟩
    · obtain rfl := List.mem_singleton.mp mem
      exact ⟨closes, goesOn⟩

/-- No column of a complicated table is promoted. -/
theorem IsTable.verdict_of_complicated {tag : StartTag} {inner : List Token} {closer : Token}
    (h : IsTable tag inner closer) (complicated : IsComplicated inner closer) :
    ((Table.begun tag).readAll (inner ++ [closer])).verdict = none := by
  rw [Table.verdict, if_neg (mt h.simple_iff.mp (not_not_intro complicated))]

/-- The primary column of a simple table is that before its end. -/
theorem IsTable.verdict_of_simple {tag : StartTag} {inner : List Token} {closer : Token}
    (h : IsTable tag inner closer) (simple : ¬IsComplicated inner closer) :
    ((Table.begun tag).readAll (inner ++ [closer])).verdict =
      ((Table.begun tag).readAll inner).primaryColumn := by
  have goesOn : closer.isEnd = false := by
    rw [← Bool.not_eq_true]
    exact fun ended => simple (.inl ended)
  rw [Table.verdict, if_pos (h.simple_iff.mpr simple), Table.readAll_append, Table.readAll_cons,
    read_of_closedBy h.closedBy_closer goesOn]
  rfl

/-- **How a table is written.** -/
theorem IsTable.writesTable {tag : StartTag} {inner : List Token} {closer : Token}
    (h : IsTable tag inner closer) (settings : Settings) (shut : o.table = none)
    (shown : CellsShown (inner ++ [closer])) : ∃ t, WritesTable settings o tag inner closer t := by
  obtain ⟨held, quiet⟩ := h.held settings shut
  have written := h.written settings shut
  rw [Table.render_readAll] at written
  refine ⟨_, held, by simp [Table.entries_readAll, Table.begun], quiet, fun complicated => ?_,
    fun simple => ?_⟩
  · rw [written, h.verdict_of_complicated complicated]
    exact Table.renderSimple_of_forall none fun e _ => Table.isPromoted_none e
  rw [written, h.verdict_of_simple simple]
  refine ⟨promoteAll _ false _, ?_, renderSimple_shares _ _ false⟩
  -- The start tag of the table begins no cell.
  have opener : ∀ tag', Token.startTag tag = .startTag tag' → tag'.name ≠ "td" := by
    intro tag' same name
    cases same
    simp [h.name] at name
  have column : Table.columnStep 0 (.startTag tag) = 0 := by simp [Table.columnStep, h.name]
  obtain ⟨opened, -⟩ := h.opened settings shut
  refine .cons (promoted_of_other opener settings.options false 0) ?_
  rw [column]
  exact promotes_of_staysOpen settings _ opened rfl h.stays shown

/-! ### Documents -/

/-- **The tables of a document.** The report is on the tokens of the document, or on the first of
them if malformed markup has ended the work. After each token the outline has the open table, and
how many there are. A table that is in no other ends; it is written as it was read if it is
complicated, and with the data cells of the primary column promoted if not. -/
theorem mend_tables (settings : Settings) (xml : Bool) (html : String) :
    (∃ m ≤ (documentTokens xml html).length,
      (mend settings xml (.whole html)).outline =
        outlineFrom settings {} ((documentTokens xml html).take m) ∧
      (mend settings xml (.whole html)).written.toList =
        writtenFrom settings {} ((documentTokens xml html).take m) ∧
      ((mend settings xml (.whole html)).ending = .complete ∨ settings.strict = false →
        m = (documentTokens xml html).length)) ∧
    (∀ front, front <+: documentTokens xml html →
      HasTables (outlineFrom settings {} front) (openTables front)) ∧
    ∀ before tag rest, documentTokens xml html = before ++ .startTag tag :: rest →
      openTables before = 0 → tag.name = "table" →
      (∃ inner closer after, rest = inner ++ closer :: after ∧ IsTable tag inner closer) ∧
      ∀ inner closer after, rest = inner ++ closer :: after → IsTable tag inner closer →
        ∃ t, WritesTable settings (outlineFrom settings {} before) tag inner closer t := by
  obtain ⟨⟨body, line, split, -⟩, report⟩ := documentTokens_spec settings xml html
  refine ⟨?_, fun front _ => hasTables_outlineFrom settings front, ?_⟩
  · rw [report]
    exact Report.exists_take_addAll (documentTokens xml html) {}
  intro before tag rest tokens outer name
  refine ⟨?_, ?_⟩
  · rcases snoc_eq_append_cons.mp (split.symm.trans tokens) with ⟨-, same, -⟩ | ⟨rest, rfl, -⟩
    · cases same
    · exact exists_isTable name rest line ""
  · rintro inner closer after rfl table
    have shut := (hasTables_outlineFrom settings before).table_eq_none outer
    refine table.writesTable settings shut fun cell mem _ => ?_
    refine (covers_documentTokens xml html).raw_ne (.startTag cell) ?_ rfl rfl
    rw [tokens]
    simp only [List.mem_append, List.mem_cons, List.not_mem_nil, or_false] at mem ⊢
    exact .inr (.inr (mem.imp_right .inl))

theorem mend_tables_cell :
    let tag : StartTag := { name := "table", line := some 1, raw := "<table>" }
    let inner := [Token.startTag { name := "td", line := some 1, raw := "<td>" },
      .text "a" (some 1) "a"]
    let closer := Token.endTag { name := "table", line := some 1, raw := "</table>" }
    documentTokens false "<table><td>a</table>" =
        [] ++ .startTag tag :: (inner ++ closer :: [.endOfInput (some 1) ""]) ∧
      openTables [] = 0 ∧ tag.name = "table" ∧ IsTable tag inner closer ∧
      ∃ t, WritesTable {} (outlineFrom {} {} []) tag inner closer t := by
  intro tag inner closer
  have tokens : documentTokens false "<table><td>a</table>" =
      [] ++ .startTag tag :: (inner ++ closer :: [.endOfInput (some 1) ""]) := by decide +kernel
  have table : IsTable tag inner closer := ⟨rfl, by decide, by decide⟩
  obtain ⟨-, written⟩ := (mend_tables {} false _).2.2 _ _ _ tokens rfl rfl
  exact ⟨tokens, rfl, rfl, table, written inner closer _ rfl table⟩

end HtmlMend.Page
