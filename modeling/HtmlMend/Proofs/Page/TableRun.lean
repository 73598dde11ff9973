import HtmlMend.Proofs.Page.Depth
import HtmlMend.Proofs.Page.Piece
import HtmlMend.Proofs.Table.Reading

/-! # Pages: runs over a table

A table among the tokens (`IsTable`) is held back up to the token that closes it: nothing is written
before, and then it is rendered with the entries of all its tokens (`IsTable.held`,
`IsTable.written`). -/

namespace HtmlMend.Page

open Markup Output

/-! ### Tables among tokens -/

/-- Tables are open before and after each of the tokens. -/
def StaysOpen (depth : Nat) (tokens : List Token) : Prop :=
  ∀ front, front <+: tokens → 0 < front.foldl openTablesStep depth

theorem staysOpen_nil {depth : Nat} : StaysOpen depth [] ↔ 0 < depth :=
  ⟨fun h => h [] List.nil_prefix, fun pos front h => by simpa [List.prefix_nil.mp h] using pos⟩

theorem staysOpen_cons {depth : Nat} {token : Token} {rest : List Token} :
    StaysOpen depth (token :: rest) ↔ 0 < depth ∧ StaysOpen (openTablesStep depth token) rest := by
  refine ⟨fun h => ⟨h [] List.nil_prefix, fun front within => ?_⟩, fun ⟨pos, later⟩ front h => ?_⟩
  · exact h (token :: front) (List.cons_prefix_cons.mpr ⟨rfl, within⟩)
  · rcases List.prefix_cons_iff.mp h with rfl | ⟨front, rfl, within⟩
    · exact pos
    · exact later front within

instance decidableStaysOpen : ∀ (depth : Nat) (tokens : List Token), Decidable (StaysOpen depth tokens)
  | _, [] => decidable_of_iff _ staysOpen_nil.symm
  | depth, token :: rest =>
    have := decidableStaysOpen (openTablesStep depth token) rest
    decidable_of_iff _ staysOpen_cons.symm

theorem StaysOpen.pos {depth : Nat} {tokens : List Token} (h : StaysOpen depth tokens) : 0 < depth :=
  h [] List.nil_prefix

/-- A table that is in no other: tables are open after its start tag up to the token that closes it,
and none is open after that. The closing token is an end tag, or the end of the input. -/
structure IsTable (tag : StartTag) (inner : List Token) (closer : Token) : Prop where
  name : tag.name = "table"
  stays : StaysOpen 1 inner
  closes : (inner ++ [closer]).foldl openTablesStep 1 = 0

/-- Tokens after which no table is open have a first such token. -/
theorem exists_closer : ∀ {tokens : List Token} {depth : Nat}, 0 < depth →
    tokens.foldl openTablesStep depth = 0 → ∃ inner closer after, tokens = inner ++ closer :: after ∧
      StaysOpen depth inner ∧ (inner ++ [closer]).foldl openTablesStep depth = 0
  | [], _, pos, zero => absurd zero (Nat.ne_of_gt pos)
  | token :: rest, depth, pos, zero => by
    by_cases now : openTablesStep depth token = 0
    · exact ⟨[], token, rest, rfl, staysOpen_nil.mpr pos, now⟩
    obtain ⟨inner, closer, after, rfl, stays, closes⟩ := exists_closer (Nat.pos_of_ne_zero now) zero
    exact ⟨token :: inner, closer, after, rfl, staysOpen_cons.mpr ⟨pos, stays⟩, closes⟩

theorem depth_readAll : ∀ {tokens : List Token} {t : Table}, StaysOpen t.depth tokens →
    (t.readAll tokens).depth = tokens.foldl openTablesStep t.depth
  | [], _, _ => rfl
  | token :: rest, t, stays => by
    obtain ⟨-, later⟩ := staysOpen_cons.mp stays
    have depth := depth_read_of_goesOn (Nat.ne_of_gt later.pos)
    rw [← depth] at later
    rw [Table.readAll_cons, depth_readAll later, depth, List.foldl_cons]

theorem IsTable.closedBy_closer {tag : StartTag} {inner : List Token} {closer : Token}
    (h : IsTable tag inner closer) : ((Table.begun tag).readAll inner).closedBy closer = true := by
  have depth : ((Table.begun tag).readAll inner).depth = inner.foldl openTablesStep 1 :=
    depth_readAll h.stays
  have pos := h.stays inner (List.prefix_refl inner)
  have closes := h.closes
  rw [List.foldl_append, ← depth] at closes
  exact (closedBy_iff (depth ▸ pos)).mpr closes

/-- The end tag of a table changes nothing but the depth. -/
theorem read_of_closedBy {t : Table} {token : Token} (closes : t.closedBy token = true)
    (inner : token.isEnd = false) : t.read token = { t with depth := t.depth - 1 } := by
  cases token with
  | endTag tag =>
    have role : Element.ofName tag.name = .table := by
      simp only [Table.closedBy, Bool.and_eq_true, decide_eq_true_eq] at closes
      exact closes.1
    simp [Table.read, Table.readEnd, role]
  | endOfInput => cases inner
  | _ => cases closes

/-- **Every table ends**: with its end tag, or with the input. -/
theorem exists_isTable {tag : StartTag} (name : tag.name = "table") (after : List Token)
    (line : Option Int) (raw : String) : ∃ inner closer rest,
      after ++ [.endOfInput line raw] = inner ++ closer :: rest ∧ IsTable tag inner closer := by
  have zero : (after ++ [Token.endOfInput line raw]).foldl openTablesStep 1 = 0 := by
    rw [List.foldl_append]
    rfl
  obtain ⟨inner, closer, rest, split, stays, closes⟩ := exists_closer Nat.one_pos zero
  exact ⟨inner, closer, rest, split, name, stays, closes⟩

/-! ### Entries with text -/

theorem text_ne_of_mem_share {o : Outline} {options : Options} {token : Token} {e : Entry}
    (mem : e ∈ (o.share options token).entries) : e.fragment.text ≠ "" := by
  rw [← visible_allEntries] at mem
  simpa using (List.mem_filter.mp mem).2

theorem text_promote_ne {primary : Option Nat} {due : Bool} {e : Entry} (ne : e.fragment.text ≠ "") :
    (Table.promote primary due e).text ≠ "" := by
  unfold Table.promote
  split
  · simp [Fragment.text, writeStartTag]
  · split
    · decide
    · exact ne

theorem text_renderSimple_ne {primary : Option Nat} : ∀ {entries : List Entry} {due : Bool},
    (∀ e ∈ entries, e.fragment.text ≠ "") →
    ∀ f ∈ Table.renderSimple primary due entries, f.text ≠ ""
  | [], _, _, f, mem => by simp [Table.renderSimple] at mem
  | e :: rest, due, ne, f, mem => by
    rw [Table.renderSimple_cons] at mem
    rcases List.mem_cons.mp mem with rfl | mem
    · exact text_promote_ne (ne e (by simp))
    · exact text_renderSimple_ne (fun x hx => ne x (List.mem_cons_of_mem e hx)) f mem

theorem filter_render_eq {t : Table} (ne : ∀ e ∈ t.entries.toList, e.fragment.text ≠ "") :
    t.render.filter (·.text ≠ "") = t.render := by
  rw [Table.render_eq_renderSimple]
  exact List.filter_eq_self.mpr fun f mem => by simpa using text_renderSimple_ne ne f mem

/-! ### Holding and writing -/

variable {settings : Settings} {o : Outline} {t : Table}

/-- The entries of tokens that come in an outline. -/
def entriesFrom (settings : Settings) (o : Outline) (tokens : List Token) : List Entry :=
  (sharesFrom settings o tokens).flatMap Share.entries

theorem entriesFrom_cons (token : Token) (rest : List Token) :
    entriesFrom settings o (token :: rest) = (o.share settings.options token).entries ++
      entriesFrom settings (o.edit settings token).outline rest := rfl

theorem entriesFrom_append (xs ys : List Token) : entriesFrom settings o (xs ++ ys) =
    entriesFrom settings o xs ++ entriesFrom settings (outlineFrom settings o xs) ys := by
  rw [entriesFrom, sharesFrom_append, List.flatMap_append]
  rfl

theorem text_ne_of_mem_entries : ∀ {tokens : List Token} {o : Outline} {e : Entry},
    e ∈ entriesFrom settings o tokens → e.fragment.text ≠ ""
  | [], _, _, mem => nomatch mem
  | token :: rest, o, e, mem => by
    rw [entriesFrom_cons] at mem
    rcases List.mem_append.mp mem with mem | mem
    · exact text_ne_of_mem_share mem
    · exact text_ne_of_mem_entries mem

/-- A table that stays open holds the entries of a token. -/
theorem edit_of_staysOpen (settings : Settings) (table : o.table = some t) {token : Token}
    {rest : List Token} (stays : StaysOpen t.depth (token :: rest)) :
    (o.edit settings token).outline.table =
        some ((t.read token).addEntries (o.share settings.options token).entries) ∧
      (o.edit settings token).written = [] ∧ StaysOpen (t.read token).depth rest := by
  obtain ⟨pos, later⟩ := staysOpen_cons.mp stays
  have goesOn : t.closedBy token = false := by
    rw [← Bool.not_eq_true, closedBy_iff pos]
    exact Nat.ne_of_gt later.pos
  rw [← depth_read_of_goesOn (Nat.ne_of_gt later.pos)] at later
  have read := Outline.tableWith_of_some table token
  obtain ⟨-, delivers⟩ := o.edit_spec settings token
  cases delivers with
  | written none => cases read.symm.trans none
  | held t' some _ after written =>
    obtain rfl := Option.some.inj (read.symm.trans some)
    exact ⟨after, written, later⟩
  | released _ _ closes => simp [Outline.closes, table, goesOn] at closes

/-- **A table holds the entries of tokens** while it stays open, and nothing is written. -/
theorem run_of_staysOpen (settings : Settings) : ∀ {tokens : List Token} {o : Outline} {t : Table},
    o.table = some t → StaysOpen t.depth tokens →
    (outlineFrom settings o tokens).table =
        some ((t.readAll tokens).addEntries (entriesFrom settings o tokens)) ∧
      writtenFrom settings o tokens = []
  | [], _, _, table, _ => by simpa [entriesFrom, sharesFrom, writtenFrom] using table
  | token :: rest, o, t, table, stays => by
    obtain ⟨after, written, later⟩ := edit_of_staysOpen settings table stays
    obtain ⟨held, quiet⟩ := run_of_staysOpen settings after later
    refine ⟨?_, by rw [writtenFrom, written, quiet]; rfl⟩
    rw [outlineFrom_cons, held, entriesFrom_cons, Table.addEntries_append, Table.readAll_addEntries,
      Table.readAll_cons]

namespace IsTable

variable {tag : StartTag} {inner : List Token} {closer : Token} (h : IsTable tag inner closer)
  (settings : Settings) (shut : o.table = none)
include h shut

theorem opened : (o.edit settings (.startTag tag)).outline.table =
      some ((Table.begun tag).addEntries (o.share settings.options (.startTag tag)).entries) ∧
    (o.edit settings (.startTag tag)).written = [] := by
  have role := Element.ofName_eq_table_iff.mpr h.name
  have with_ : o.tableWith (.startTag tag) = some (Table.begun tag) := by
    simp [Outline.tableWith, Outline.tableStarted, shut, role, Table.begun]
  obtain ⟨-, delivers⟩ := o.edit_spec settings (.startTag tag)
  cases delivers with
  | written none => cases with_.symm.trans none
  | held t some _ after written =>
    obtain rfl := Option.some.inj (with_.symm.trans some)
    exact ⟨after, written⟩
  | released _ _ closes => simp [Outline.closes, shut] at closes

/-- **A table is held back**: the open table has the entries of all its tokens so far. -/
theorem held : (outlineFrom settings o (.startTag tag :: inner)).table =
      some (((Table.begun tag).readAll inner).addEntries
        (entriesFrom settings o (.startTag tag :: inner))) ∧
    writtenFrom settings o (.startTag tag :: inner) = [] := by
  obtain ⟨table, quiet⟩ := h.opened settings shut
  obtain ⟨held, later⟩ := run_of_staysOpen settings table h.stays
  refine ⟨?_, by rw [writtenFrom, quiet, later]; rfl⟩
  rw [outlineFrom_cons, held, entriesFrom_cons, Table.addEntries_append, Table.readAll_addEntries]

/-- **A table is written when it is closed**, rendered with the entries of all its tokens. -/
theorem written : writtenFrom settings o (.startTag tag :: (inner ++ [closer])) =
    (((Table.begun tag).readAll (inner ++ [closer])).addEntries
      (entriesFrom settings o (.startTag tag :: (inner ++ [closer])))).render := by
  obtain ⟨held, quiet⟩ := h.held settings shut
  have closes := h.closedBy_closer
  have text : ∀ e ∈ entriesFrom settings o (.startTag tag :: (inner ++ [closer])),
      e.fragment.text ≠ "" := fun _ => text_ne_of_mem_entries
  rw [← List.cons_append, entriesFrom_append] at text ⊢
  rw [writtenFrom_append, quiet, Table.readAll_append, Table.addEntries_append]
  generalize entriesFrom settings o (.startTag tag :: inner) = entries at held text ⊢
  generalize outlineFrom settings o (.startTag tag :: inner) = o' at held text ⊢
  have read := Outline.tableWith_of_some held closer
  obtain ⟨-, delivers⟩ := o'.edit_spec settings closer
  cases delivers with
  | written none => cases read.symm.trans none
  | held _ _ goesOn =>
    rw [Outline.closes, held, Option.any_some, Table.closedBy_addEntries, closes] at goesOn
    cases goesOn
  | released t some _ _ rendered =>
    obtain rfl := Option.some.inj (read.symm.trans some)
    have last : entriesFrom settings o' [closer] = (o'.share settings.options closer).entries := by
      simp [entriesFrom, sharesFrom]
    rw [last] at text ⊢
    rw [Table.read_addEntries, filter_render_eq] at rendered
    · simp [writtenFrom, rendered]
    · simpa [Table.entries_read, Table.entries_readAll, Table.begun] using text

end IsTable

end HtmlMend.Page
