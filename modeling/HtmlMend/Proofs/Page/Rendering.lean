import HtmlMend.Proofs.Page.Again
import HtmlMend.Proofs.Table.Cells

/-! # Pages: which entries become tags of row headers

A simple table is rendered with one bit that is carried from entry to entry. What the bit says is a
statement about the entries so far (`IsDue`, `dueAfter_iff`): a data cell of the primary column has
begun, and since then no cell has begun and no data cell has ended. So for each entry of a table
that a page holds one can say which token it is of (`IsEntry`) and what is written for it
(`RendersAs`), and the tags of row headers come in pairs as far as there are end tags
(`rendersSimple_of_table`). -/

namespace HtmlMend.Output

/-- Whether a fragment is a tag of a row header. -/
def Fragment.isHeaderTag : Fragment → Bool
  | .headerStart _ | .headerEnd => true
  | _ => false

end HtmlMend.Output

namespace HtmlMend

open Markup Output

/-! ### Entries -/

namespace Entry

/-- An entry is the start tag of a data cell of the primary column. -/
def BeginsIn (primary : Option Nat) (e : Entry) : Prop :=
  ∃ column : Nat, primary = some column ∧ e.column = some column

/-- An entry is the start tag of a cell. -/
def BeginsCell (e : Entry) : Prop := e.attrs.isSome

/-- An entry is the end tag of a data cell. -/
def EndsData (e : Entry) : Prop := e.closes = some .data

end Entry

namespace Page.Options

/-- The fragment for a token: its raw text, or what the rules make of a start tag. -/
def fragment (options : Options) : Token → Fragment
  | .startTag tag => options.startTag (Element.ofName tag.name) tag
  | token => .copied token.raw

theorem isHeaderTag_startTag (options : Options) (role : Element) (tag : StartTag) :
    (options.startTag role tag).isHeaderTag = false := by
  unfold Options.startTag
  split
  · rfl
  · unfold Options.generatorTag
    split
    · split <;> rfl
    · rfl
  · unfold Options.contentsTag
    split
    · split <;> rfl
    · rfl
  · rfl

theorem isHeaderTag_fragment (options : Options) (token : Token) :
    (options.fragment token).isHeaderTag = false := by
  cases token with
  | startTag tag => exact isHeaderTag_startTag options _ tag
  | _ => rfl

end Page.Options

namespace Table

/-- An entry that a table holds of a token. The start tag of a cell has its attributes, and its
column if that is a data cell; the end tag of a cell has the kind of the cell. Of any other token
but a report there is what is written for it, and nothing else. Before a token there may be the tag
of a `main` element, where some state of the main content adds it. -/
inductive IsEntry (options : Page.Options) : Token → Entry → Prop
  | cellStart (kind : CellKind) (tag : StartTag) (column : Nat) (name : tag.name = kind.tagName) :
    IsEntry options (.startTag tag)
      { fragment := .copied tag.raw, column := if kind = .data then some column else none
        attrs := some tag.sourceAttrs }
  | cellEnd (kind : CellKind) (tag : EndTag) (name : tag.name = kind.tagName) :
    IsEntry options (.endTag tag) { fragment := .copied tag.raw, closes := some kind }
  | other (token : Token) (noStart : ¬BeginsCell token)
    (noEnd : ∀ tag kind, token = .endTag tag → tag.name ≠ CellKind.tagName kind)
    (noReport : token.isReport = false) :
    IsEntry options token { fragment := options.fragment token }
  | added (main : Page.MainState) (inTable : Bool) (token : Token) (fragment : Fragment)
    (adds : main.added inTable token = some fragment) : IsEntry options token { fragment }

/-- Each of the entries is of one of the tokens. -/
def AreEntries (options : Page.Options) (tokens : List Token) (entries : List Entry) : Prop :=
  ∀ e ∈ entries, ∃ token ∈ tokens, IsEntry options token e

theorem AreEntries.mono {options : Page.Options} {before tokens : List Token} {entries : List Entry}
    (h : AreEntries options before entries) (known : before ⊆ tokens) :
    AreEntries options tokens entries := by
  intro e mem
  obtain ⟨token, isBefore, isEntry⟩ := h e mem
  exact ⟨token, known isBefore, isEntry⟩

namespace IsEntry

variable {options : Page.Options} {token : Token} {primary : Option Nat} {e : Entry}
  (h : IsEntry options token e)
include h

theorem isHeaderTag_fragment : e.fragment.isHeaderTag = false := by
  cases h with
  | cellStart | cellEnd => rfl
  | other => exact options.isHeaderTag_fragment token
  | added main inTable _ fragment adds =>
    rcases main.added_mem inTable token with none | start | stop
    · cases none.symm.trans adds
    · cases start.symm.trans adds
      rfl
    · cases stop.symm.trans adds
      rfl

theorem beginsCell (begins : e.BeginsIn primary) : e.BeginsCell := by
  obtain ⟨column, -, at_⟩ := begins
  cases h with
  | cellStart => rfl
  | _ => cases at_

theorem not_endsData (begins : e.BeginsCell) : ¬e.EndsData := by
  cases h with
  | cellStart => intro ends; cases ends
  | _ => cases begins

end IsEntry

/-! ### The bit -/

/-- The end tag of a row header is due after entries: one is the start tag of a data cell of the
primary column, and since then no cell has begun and no data cell has ended. -/
def IsDue (primary : Option Nat) (entries : List Entry) : Prop :=
  ∃ front start between, entries = front ++ start :: between ∧ start.BeginsIn primary ∧
    ∀ x ∈ between, ¬x.BeginsCell ∧ ¬x.EndsData

section Due
variable {primary : Option Nat} {entries : List Entry} {e : Entry}

theorem isPromoted_iff : isPromoted primary e = true ↔ e.BeginsIn primary := by
  unfold isPromoted Entry.BeginsIn
  cases primary with
  | none => simp
  | some column =>
    cases e.column with
    | none => simp
    | some own => simp

theorem isDue_snoc : IsDue primary (entries ++ [e]) ↔
    e.BeginsIn primary ∨ IsDue primary entries ∧ ¬e.BeginsCell ∧ ¬e.EndsData := by
  constructor
  · rintro ⟨front, start, between, split, begins, quiet⟩
    rcases Page.snoc_eq_append_cons.mp split with ⟨rfl, rfl, rfl⟩ | ⟨between, rfl, rfl⟩
    · exact .inl begins
    · exact .inr ⟨⟨front, start, between, rfl, begins,
        fun x mem => quiet x (List.mem_append_left _ mem)⟩, quiet e (by simp)⟩
  · rintro (begins | ⟨⟨front, start, between, rfl, begins, quiet⟩, goesOn⟩)
    · exact ⟨entries, e, [], rfl, begins, by simp⟩
    · refine ⟨front, start, between ++ [e], by simp, begins, fun x mem => ?_⟩
      rcases List.mem_append.mp mem with mem | mem
      · exact quiet x mem
      · exact List.mem_singleton.mp mem ▸ goesOn

theorem dueNext_iff {due : Bool} : dueNext primary due e = true ↔
    e.BeginsIn primary ∨ due = true ∧ ¬e.BeginsCell ∧ ¬e.EndsData := by
  unfold dueNext
  rw [← isPromoted_iff, Entry.BeginsCell, Entry.EndsData]
  cases isPromoted primary e <;> cases due <;> cases e.attrs <;> simp

theorem dueAfter_append_iff : ∀ (after before : List Entry) {due : Bool},
    (due = true ↔ IsDue primary before) →
    (dueAfter primary due after = true ↔ IsDue primary (before ++ after))
  | [], before, due, h => by rwa [List.append_nil]
  | e :: rest, before, due, h => by
    have next : dueNext primary due e = true ↔ IsDue primary (before ++ [e]) := by
      rw [dueNext_iff, isDue_snoc, h]
    rw [dueAfter, List.foldl_cons, ← List.singleton_append, ← List.append_assoc]
    exact dueAfter_append_iff rest (before ++ [e]) next

/-- **What the bit says**: whether the end tag of a row header is due is seen in the entries. -/
theorem dueAfter_iff (before : List Entry) :
    dueAfter primary false before = true ↔ IsDue primary before :=
  dueAfter_append_iff before [] (by simp [IsDue])

end Due

/-! ### Entries and their fragments -/

/-- What is written for an entry of a simple table that has entries before it. -/
structure RendersAs (primary : Option Nat) (before : List Entry) (e : Entry) (f : Fragment) :
    Prop where
  starts : ∀ attrs, f = .headerStart attrs ↔
    e.BeginsIn primary ∧ e.attrs.map headerAttrs = some attrs
  ends : f = .headerEnd ↔ e.EndsData ∧ IsDue primary before
  same : ¬e.BeginsIn primary → ¬(e.EndsData ∧ IsDue primary before) → f = e.fragment

/-- What one entry leads to, where the end tag of a row header may be due. -/
theorem promote_cases (primary : Option Nat) (due : Bool) (e : Entry) :
    (e.BeginsIn primary ∧
      promote primary due e = .headerStart (headerAttrs (e.attrs.getD .empty))) ∨
    (¬e.BeginsIn primary ∧ (e.EndsData ∧ due = true) ∧ promote primary due e = .headerEnd) ∨
    (¬e.BeginsIn primary ∧ ¬(e.EndsData ∧ due = true) ∧ promote primary due e = e.fragment) := by
  unfold promote
  rw [← isPromoted_iff, Entry.EndsData]
  by_cases begins : isPromoted primary e = true
  · simp [begins]
  · by_cases ends : e.closes = some .data ∧ due = true
    · simp [begins, ends]
    · have other : ¬(due && e.closes = some .data) = true := by
        simpa [and_comm] using ends
      simp only [begins, ends, other, Bool.false_eq_true, if_false, false_and, not_false_eq_true,
        true_and, false_or]

theorem headerStart_ne_of_plain {f : Fragment} (plain : f.isHeaderTag = false)
    (attrs : Attributes) : f ≠ .headerStart attrs := by
  rintro rfl
  cases plain

theorem headerEnd_ne_of_plain {f : Fragment} (plain : f.isHeaderTag = false) : f ≠ .headerEnd := by
  rintro rfl
  cases plain

/-- An entry is written as its fragment, or as a tag of a row header. -/
theorem IsEntry.rendersAs {options : Page.Options} {token : Token} {primary : Option Nat}
    {e : Entry} (h : IsEntry options token e) (before : List Entry) :
    RendersAs primary before e (promote primary (dueAfter primary false before) e) := by
  have plain := h.isHeaderTag_fragment
  have which := promote_cases primary (dueAfter primary false before) e
  rw [dueAfter_iff] at which
  rcases which with ⟨begins, f⟩ | ⟨other, ends, f⟩ | ⟨other, goesOn, f⟩
  · have cell := h.beginsCell begins
    obtain ⟨attrs, some⟩ := Option.isSome_iff_exists.mp cell
    rw [f]
    exact ⟨fun _ => by simp [begins, some], by simp [h.not_endsData cell],
      fun other => absurd begins other⟩
  · rw [f]
    exact ⟨fun _ => by simp [other], by simp [ends], fun _ goesOn => absurd ends goesOn⟩
  · rw [f]
    exact ⟨fun attrs => by simp [other, headerStart_ne_of_plain plain],
      by simp [goesOn, headerEnd_ne_of_plain plain], fun _ _ => rfl⟩

/-- How a simple table of tokens is rendered: one fragment for each entry, and row headers' tags in
pairs. -/
structure RendersSimple (options : Page.Options) (tokens : List Token) (t : Table) : Prop where
  entries : AreEntries options tokens t.entries.toList
  length : t.render.length = t.entries.toList.length
  each : ∀ before e after, t.entries.toList = before ++ e :: after →
    ∃ f, t.render[before.length]? = some f ∧ RendersAs t.primaryColumn before e f
  /-- The end tag of a row header follows its start tag, with no other such tag between them. -/
  paired : ∀ front back, t.render = front ++ .headerEnd :: back →
    ∃ before attrs between, front = before ++ .headerStart attrs :: between ∧
      ∀ f ∈ between, f.isHeaderTag = false
  /-- Between two end tags of row headers there is a start tag. -/
  once : ∀ front between back,
    t.render = front ++ .headerEnd :: (between ++ .headerEnd :: back) →
    ∃ attrs, .headerStart attrs ∈ between

theorem length_renderSimple (primary : Option Nat) : ∀ (entries : List Entry) (due : Bool),
    (renderSimple primary due entries).length = entries.length
  | [], _ => rfl
  | e :: rest, due => by
    rw [renderSimple_cons, List.length_cons, List.length_cons, length_renderSimple primary rest]

section Entries
variable {options : Page.Options} {tokens : List Token}

/-- Before the end tag of a row header there is its start tag, unless that was due from the
beginning. -/
theorem paired_renderSimple {primary : Option Nat} : ∀ {entries : List Entry} {due : Bool}
    {front back : List Fragment}, AreEntries options tokens entries →
    renderSimple primary due entries = front ++ .headerEnd :: back →
    (∃ before attrs between, front = before ++ .headerStart attrs :: between ∧
      ∀ f ∈ between, f.isHeaderTag = false) ∨ due = true ∧ ∀ f ∈ front, f.isHeaderTag = false
  | [], due, front, back, _, split => by simp [renderSimple] at split
  | e :: rest, due, front, back, known, split => by
    obtain ⟨token, -, isEntry⟩ := known e (by simp)
    have plain := isEntry.isHeaderTag_fragment
    have later : AreEntries options tokens rest := fun x mem => known x (List.mem_cons_of_mem e mem)
    have which := promote_cases primary due e
    rw [renderSimple_cons] at split
    cases front with
    | nil =>
      -- The end tag comes first, so it was due from the beginning.
      obtain ⟨here, -⟩ := List.cons_eq_cons.mp split
      rw [here] at which
      rcases which with ⟨-, f⟩ | ⟨-, ⟨-, isDue⟩, -⟩ | ⟨-, -, f⟩
      · cases f
      · exact .inr ⟨isDue, by simp⟩
      · exact absurd f.symm (headerEnd_ne_of_plain plain)
    | cons first front =>
      obtain ⟨here, tail⟩ := List.cons_eq_cons.mp split
      rcases paired_renderSimple later tail with
        ⟨before, attrs, between, rfl, quiet⟩ | ⟨isDue, quiet⟩
      · exact .inl ⟨first :: before, attrs, between, rfl, quiet⟩
      rw [here] at which
      rcases which with ⟨-, rfl⟩ | ⟨other, ends, -⟩ | ⟨other, -, rfl⟩
      · exact .inl ⟨[], _, front, rfl, quiet⟩
      · rcases dueNext_iff.mp isDue with begins | ⟨-, -, goesOn⟩
        · exact absurd begins other
        · exact absurd ends.1 goesOn
      · rcases dueNext_iff.mp isDue with begins | ⟨was, -, -⟩
        · exact absurd begins other
        · exact .inr ⟨was, List.forall_mem_cons.mpr ⟨plain, quiet⟩⟩

/-- The last start tag before the second of two end tags comes after the first. -/
theorem headerStart_mem_between {front between before quiet : List Fragment} {attrs : Attributes}
    (cut : front ++ .headerEnd :: between = before ++ .headerStart attrs :: quiet)
    (none : ∀ f ∈ quiet, f.isHeaderTag = false) : .headerStart attrs ∈ between := by
  rcases List.append_eq_append_iff.mp cut with ⟨as, rfl, tail⟩ | ⟨bs, rfl, tail⟩
  · cases as with
    | nil => cases tail
    | cons first as =>
      obtain ⟨-, rfl⟩ := List.cons_eq_cons.mp tail
      simp
  · cases bs with
    | nil => cases tail
    | cons first bs =>
      obtain ⟨-, rfl⟩ := List.cons_eq_cons.mp tail
      have := none .headerEnd (by simp)
      cases this

/-- **How a simple table is rendered**, whatever entries it holds. -/
theorem rendersSimple_of_entries {t : Table} (simple : t.simple = true)
    (entries : AreEntries options tokens t.entries.toList) : RendersSimple options tokens t := by
  have render : t.render = renderSimple t.primaryColumn false t.entries.toList := by
    rw [Table.render, if_pos simple]
  have paired : ∀ front back, t.render = front ++ .headerEnd :: back →
      ∃ before attrs between, front = before ++ .headerStart attrs :: between ∧
        ∀ f ∈ between, f.isHeaderTag = false := by
    intro front back split
    rw [render] at split
    rcases paired_renderSimple entries split with pair | ⟨due, -⟩
    · exact pair
    · cases due
  refine ⟨entries, by rw [render, length_renderSimple], fun before e after split => ?_, paired,
    fun front between back split => ?_⟩
  · obtain ⟨token, -, isEntry⟩ := entries e (by simp [split])
    refine ⟨_, ?_, isEntry.rendersAs before⟩
    rw [render, split, renderSimple_append, renderSimple_cons,
      List.getElem?_append_right (by simp [length_renderSimple]), length_renderSimple,
      Nat.sub_self, List.getElem?_cons_zero]
  · rw [← List.cons_append, ← List.append_assoc] at split
    obtain ⟨before, attrs, quiet, cut, none⟩ := paired _ back split
    exact ⟨attrs, headerStart_mem_between cut none⟩

end Entries

end Table

/-! ### The entries of a page -/

namespace Page

open Table

variable {settings : Settings} {options : Options} {o : Outline} {token : Token}
  {before : List Token} {t : Table} {e : Entry}

theorem isEntry_endTag_of_noCell {tag : EndTag}
    (noCell : ∀ kind, Element.ofName tag.name ≠ .cell kind) :
    IsEntry options (.endTag tag) { fragment := .copied tag.raw } := by
  refine .other (.endTag tag) not_false (fun tag' kind same name => noCell kind ?_) rfl
  obtain rfl := Token.endTag.inj same
  exact Element.ofName_eq_cell_iff.mpr name

theorem isEntry_startTag_cell {tag : StartTag} {kind : CellKind}
    (role : Element.ofName tag.name = .cell kind) (table : o.tableWith (.startTag tag) = some t) :
    IsEntry options (.startTag tag) (o.startEntry (.cell kind) tag (.copied tag.raw)) := by
  cases isOpen : o.table with
  | none =>
    -- Without an open table a cell opens none.
    obtain ⟨tag', same, isTable, -⟩ := Outline.tableWith_of_none isOpen table
    cases same
    cases role.symm.trans isTable
  | some open_ =>
    simp only [Outline.startEntry, isOpen]
    exact .cellStart kind tag open_.nextColumn (Element.ofName_eq_cell_iff.mp role)

theorem isEntry_startTag_of_noCell {tag : StartTag}
    (noCell : ∀ kind, Element.ofName tag.name ≠ .cell kind) :
    IsEntry options (.startTag tag) (o.startEntry (Element.ofName tag.name) tag
      (options.startTag (Element.ofName tag.name) tag)) := by
  have plain : o.startEntry (Element.ofName tag.name) tag
      (options.startTag (Element.ofName tag.name) tag) =
      { fragment := options.startTag (Element.ofName tag.name) tag } := by
    unfold Outline.startEntry
    split
    · next kind _ role _ => exact absurd role (noCell kind)
    · rfl
  have noStart : ¬BeginsCell (.startTag tag) := by
    intro begins
    obtain ⟨kind, role⟩ := beginsCell_iff.mp begins
    exact noCell kind role
  rw [plain]
  refine .other (.startTag tag) noStart (fun tag' kind same => ?_) rfl
  cases same

theorem isEntry_endTag (tag : EndTag) :
    IsEntry options (.endTag tag)
      { fragment := .copied tag.raw, closes := cellKind? (Element.ofName tag.name) } := by
  cases role : Element.ofName tag.name with
  | cell kind => exact .cellEnd kind tag (Element.ofName_eq_cell_iff.mp role)
  | _ => exact isEntry_endTag_of_noCell (by simp [role])

theorem isEntry_ownEntry (table : o.tableWith token = some t)
    (own : o.ownEntry options token = some e) : IsEntry options token e := by
  cases token with
  | startTag tag =>
    obtain rfl := Option.some.inj own
    cases role : Element.ofName tag.name with
    | cell kind => exact isEntry_startTag_cell role table
    | _ => exact role ▸ isEntry_startTag_of_noCell (by simp [role])
  | endTag tag =>
    obtain rfl := Option.some.inj own
    exact isEntry_endTag tag
  | malformed => cases own
  | text | comment | doctype | endOfInput =>
    obtain rfl := Option.some.inj own
    refine .other _ not_false (fun tag kind same => ?_) rfl
    cases same

theorem isEntry_of_mem_share (table : o.tableWith token = some t)
    (mem : e ∈ (o.share options token).entries) : IsEntry options token e := by
  rcases List.mem_append.mp mem with mem | mem
  · obtain ⟨fragment, adds, rfl⟩ : ∃ fragment,
        o.mainState.added o.table.isSome token = some fragment ∧ { fragment } = e := by
      simpa [Outline.share, addedEntries] using mem
    exact .added o.mainState o.table.isSome token fragment adds
  · have own : o.ownEntry options token = some e := by
      have := Option.mem_toList.mp mem
      exact (Option.filter_eq_some_iff.mp this).1
    exact isEntry_ownEntry table own

/-- After a step, what the open table holds is of the tokens before or of this one. -/
theorem areEntries_held_edit (held : AreEntries settings.options before o.held) :
    AreEntries settings.options (before ++ [token]) (o.edit settings token).outline.held := by
  intro e mem
  cases table : o.tableWith token with
  | none =>
    have shut : (o.edit settings token).outline.table = none := by
      rw [Outline.table_edit, table]
      split <;> rfl
    simp [Outline.held, shut] at mem
  | some t =>
    rcases List.mem_append.mp (mem_held_edit mem) with mem | mem
    · exact held.mono (List.subset_append_left _ _) e mem
    · exact ⟨token, by simp, isEntry_of_mem_share table mem⟩

theorem areEntries_held_outlineFrom (settings : Settings) : ∀ (tokens before : List Token)
    {o : Outline}, AreEntries settings.options before o.held →
    AreEntries settings.options (before ++ tokens) (outlineFrom settings o tokens).held
  | [], before, _, held => by rwa [List.append_nil]
  | token :: rest, before, _, held => by
    rw [outlineFrom_cons, ← List.singleton_append, ← List.append_assoc]
    exact areEntries_held_outlineFrom settings rest (before ++ [token]) (areEntries_held_edit held)

/-- The end tag that closes a table has it rendered, with the entry for the tag. -/
theorem written_of_closes (settings : Settings) (table : o.table = some t) {tag : EndTag}
    (closes : o.closes (.endTag tag) = true) : Element.ofName tag.name = .table ∧
      (o.edit settings (.endTag tag)).written =
        (({ t with depth := t.depth - 1 } : Table).addEntries
          [{ fragment := .copied tag.raw }]).render.filter (·.text ≠ "") := by
  simp only [Outline.closes, table, Option.any_some, Table.closedBy, Bool.and_eq_true,
    decide_eq_true_eq] at closes
  obtain ⟨role, shallow⟩ := closes
  have last : t.depth - 1 = 0 := by omega
  refine ⟨role, ?_⟩
  simp only [Outline.edit, Outline.endTag, role, Outline.closeTable, table, if_pos last,
    Edit.release, Table.addEntry_eq, List.nil_append]

/-- **How the tables of a page are rendered**: the table that is open after tokens, if it is simple,
and the table that an end tag closes then, which has one more entry and the same primary column. -/
theorem rendersSimple_of_table {settings : Settings} {tokens : List Token} {t : Table}
    (table : (outlineFrom settings {} tokens).table = some t) (simple : t.simple = true) :
    RendersSimple settings.options tokens t ∧
      ∀ tag, (outlineFrom settings {} tokens).closes (.endTag tag) = true →
      ∃ u : Table, ((outlineFrom settings {} tokens).edit settings (.endTag tag)).written =
          u.render.filter (·.text ≠ "") ∧
        u.entries.toList = t.entries.toList ++ [{ fragment := .copied tag.raw }] ∧
        u.primaryColumn = t.primaryColumn ∧
        RendersSimple settings.options (tokens ++ [.endTag tag]) u := by
  have held := areEntries_held_outlineFrom settings tokens [] (o := {}) fun e mem => by
    simp [Outline.held] at mem
  rw [List.nil_append, Outline.held, table] at held
  refine ⟨rendersSimple_of_entries simple held, fun tag closes => ?_⟩
  obtain ⟨role, written⟩ := written_of_closes settings table closes
  refine ⟨_, written, toList_addEntries _ _, rfl, rendersSimple_of_entries simple fun e mem => ?_⟩
  rw [toList_addEntries] at mem
  rcases List.mem_append.mp mem with mem | mem
  · exact held.mono (List.subset_append_left _ _) e mem
  · obtain rfl := List.mem_singleton.mp mem
    exact ⟨.endTag tag, by simp, isEntry_endTag_of_noCell (by simp [role])⟩

theorem rendersSimple_of_table_cells :
    let tokens := [Token.startTag { name := "table", raw := "<table>" },
      .startTag { name := "td", raw := "<td>" }, .text "a" none "a",
      .startTag { name := "td", raw := "<td>" }, .endTag { name := "td", raw := "</td>" }]
    ∃ t, (outlineFrom {} {} tokens).table = some t ∧ t.simple = true ∧ RendersSimple {} tokens t ∧
      ∀ tag, (outlineFrom {} {} tokens).closes (.endTag tag) = true →
        ∃ u : Table, ((outlineFrom {} {} tokens).edit {} (.endTag tag)).written =
            u.render.filter (·.text ≠ "") ∧
          u.entries.toList = t.entries.toList ++ [{ fragment := .copied tag.raw }] ∧
          u.primaryColumn = t.primaryColumn ∧
          RendersSimple {} (tokens ++ [.endTag tag]) u := by
  intro tokens
  have isSimple : (outlineFrom {} {} tokens).table.any (·.simple) = true := by decide +kernel
  obtain ⟨t, table, simple⟩ := (Option.any_eq_true _ _).mp isSimple
  exact ⟨t, table, simple, rendersSimple_of_table table simple⟩

end Page

end HtmlMend
