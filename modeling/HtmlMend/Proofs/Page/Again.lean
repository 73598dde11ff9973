import HtmlMend.Proofs.Page.Depth
import HtmlMend.Proofs.Page.Piece
import HtmlMend.Proofs.Table.Reading

/-! # Pages: a page that is edited again

A second run goes over what a first run has written. It finds nothing to add (`Echoes`): the added
`main` elements are those of the page now, and a table in which cells were promoted is no longer
simple. The first run decides at the end of a table which of its cells are promoted; `primary` is
that decision, known beforehand. So what the second run reads of a token the first run has read is
`Again`, and it writes the text of the token (`Echoes.again`). -/

namespace HtmlMend.Page

open Markup Output

/-! ### What is held and what is written -/

/-- The text of the entries that the open table holds. -/
def heldText (o : Outline) : String := textOf (o.held.map Entry.fragment)

variable {settings : Settings} {primary : Option Nat} {due : Bool} {o : Outline} {token : Token}

/-- The text of entries of which those in a column are promoted. -/
def renderedText (primary : Option Nat) (due : Bool) (entries : List Entry) : String :=
  textOf (Table.renderSimple primary due entries)

theorem renderedText_nil : renderedText primary due [] = "" := textOf_nil

theorem renderedText_append (xs ys : List Entry) (due : Bool) :
    renderedText primary due (xs ++ ys) = renderedText primary due xs ++
      renderedText primary (Table.dueAfter primary due xs) ys := by
  rw [renderedText, Table.renderSimple_append, textOf_append]
  rfl

theorem renderedText_of_forall {entries : List Entry}
    (plain : ∀ e ∈ entries, Table.isPromoted primary e = false) :
    renderedText primary false entries = textOf (entries.map Entry.fragment) := by
  rw [renderedText, Table.renderSimple_of_forall primary plain]

/-- The decision is right at a token: none outside tables, and that of a table that it closes. -/
structure Decides (primary : Option Nat) (o : Outline) (token : Token) : Prop where
  outside : o.tableWith token = none → primary = none
  closing : ∀ t, o.tableWith token = some t → o.closes token = true → primary = t.verdict

/-- **A step writes or holds the entries of a token**, promoted as it is decided. -/
theorem rendered_edit (settings : Settings) (decides : Decides primary o token) :
    textOf (o.edit settings token).written ++
        renderedText primary false (o.edit settings token).outline.held =
      renderedText primary false (o.held ++ (o.share settings.options token).entries) := by
  obtain ⟨-, delivers⟩ := o.edit_spec settings token
  cases delivers with
  | written table after written =>
    have shut : o.held = [] := by
      cases open_ : o.table with
      | none => simp [Outline.held, open_]
      | some t => simp [Outline.tableWith_of_some open_] at table
    have shut' : (o.edit settings token).outline.held = [] := by simp [Outline.held, after]
    rw [written, shut, shut', decides.outside table, renderedText_nil, String.append_empty,
      List.nil_append, renderedText_of_forall fun e _ => Table.isPromoted_none e]
  | held t table goesOn after written =>
    have holds : (o.edit settings token).outline.held =
        o.held ++ (o.share settings.options token).entries := by
      simp [Outline.held, after, Outline.entries_tableWith table]
    rw [written, holds, textOf_nil, String.empty_append]
  | released t table closes after written =>
    have shut : (o.edit settings token).outline.held = [] := by simp [Outline.held, after]
    rw [written, shut, textOf_filter, Table.render_eq_renderSimple, Table.toList_addEntries,
      Outline.entries_tableWith table, decides.closing t table closes, renderedText_nil,
      String.append_empty]
    rfl

theorem exists_decides (o : Outline) (token : Token) : ∃ primary, Decides primary o token ∧
    (primary = none ∨ ∃ t, o.tableWith token = some t ∧ o.closes token = true ∧
      primary = t.verdict) := by
  cases closes : o.closes token with
  | false =>
    exact ⟨none, ⟨fun _ => rfl, fun t _ closed => nomatch closes.symm.trans closed⟩, .inl rfl⟩
  | true =>
    cases table : o.tableWith token with
    | none => exact ⟨none, ⟨fun _ => rfl, fun t open_ => nomatch table.symm.trans open_⟩, .inl rfl⟩
    | some t =>
      refine ⟨t.verdict, ⟨fun shut => (nomatch table.symm.trans shut), fun t' open_ _ => ?_⟩,
        .inr ⟨t, rfl, rfl, rfl⟩⟩
      rw [Option.some.inj (table.symm.trans open_)]

/-- What is held after a token was held before, or is of the token. -/
theorem mem_held_edit {e : Entry} (mem : e ∈ (o.edit settings token).outline.held) :
    e ∈ o.held ++ (o.share settings.options token).entries := by
  rw [Outline.held, Outline.table_edit] at mem
  split at mem
  · simp at mem
  · cases table : o.tableWith token with
    | none => simp [table] at mem
    | some t => simpa [table, Outline.entries_tableWith table] using mem

/-- **A step writes or holds the text of the entries** of a token if no entry is promoted where it
closes a table. -/
theorem verbatim_edit (closing : ∀ t, o.tableWith token = some t → o.closes token = true →
      ∀ e ∈ o.held ++ (o.share settings.options token).entries,
        Table.isPromoted t.verdict e = false) :
    textOf (o.edit settings token).written ++ heldText (o.edit settings token).outline =
      heldText o ++ textOf ((o.share settings.options token).entries.map Entry.fragment) := by
  obtain ⟨primary, decides, which⟩ := exists_decides o token
  have plain : ∀ e ∈ o.held ++ (o.share settings.options token).entries,
      Table.isPromoted primary e = false := by
    rcases which with rfl | ⟨t, table, closes, rfl⟩
    · exact fun e _ => Table.isPromoted_none e
    · exact closing t table closes
  have rendered := rendered_edit settings decides
  rw [renderedText_of_forall plain, renderedText_of_forall fun e mem => plain e (mem_held_edit mem),
    List.map_append, textOf_append] at rendered
  exact rendered

/-! ### What the second run reads -/

/-- The tokens are read alike: only their lines and their texts may differ, and the attributes of
tags that are not those of cells. -/
inductive Alike : Token → Token → Prop
  | startTag (tag tag' : StartTag) (name : tag'.name = tag.name)
    (attrs : ∀ kind, Element.ofName tag.name = .cell kind → tag'.attrs = tag.attrs) :
    Alike (.startTag tag) (.startTag tag')
  | endTag (tag tag' : EndTag) (name : tag'.name = tag.name) :
    Alike (.endTag tag) (.endTag tag')
  | text (data : String) (line line' : Option Int) (raw : String) :
    Alike (.text data line raw) (.text data line' raw)
  | comment (data : String) (line line' : Option Int) (raw : String) :
    Alike (.comment data line raw) (.comment data line' raw)
  | doctype (data : String) (line line' : Option Int) (raw : String) :
    Alike (.doctype data line raw) (.doctype data line' raw)
  | endOfInput (line line' : Option Int) (raw : String) :
    Alike (.endOfInput line raw) (.endOfInput line' raw)

/-- What the second run reads in the place of a token. A data cell that was promoted is a row header
now, and its end tag is that of one, if that was due. -/
inductive Again (options : Options) (primary : Option Nat) (due : Bool) (o : Outline) :
    Token → Token → Prop
  | alike {token token' : Token} (alike : Alike token token')
    (plain : ∀ e, o.ownEntry options token = some e → Table.isPromoted primary e = false) :
    Again options primary due o token token'
  | headerStart (tag tag' : StartTag) (name : tag.name = "td") (name' : tag'.name = "th")
    (scope : "scope" ∈ tag'.attrs.names) :
    Again options primary due o (.startTag tag) (.startTag tag')
  | headerEnd (tag tag' : EndTag) (name : tag.name = "td") (name' : tag'.name = "th")
    (isDue : due = true) : Again options primary due o (.endTag tag) (.endTag tag')

/-! ### The main content of the second run -/

namespace MainState

/-- The state in which the added `main` element is not open, as it is one of the page. -/
def shut (f : MainState) : MainState := { f with mainOpen := false }

theorem begun_afterAdded_begun (f : MainState) : (f.afterAdded f.begun).begun = none := by
  cases h : f.begun with
  | none => exact h
  | some fragment =>
    obtain rfl : fragment = .mainStart := by
      have := f.begun_mem
      simp_all
    simp [afterAdded, begun]

end MainState

variable {options : Options} {token' : Token}

/-- **The second run adds nothing** to what the first has added. -/
theorem Again.added_eq_none (again : Again options primary due o token token') (f : MainState)
    (inTable : Bool) :
    (f.afterAdded (f.added inTable token)).shut.added inTable token' = none := by
  have start {role role' : Element}
      (same : role' = role ∨ role = .cell .data ∧ role' = .cell .header) :
      (f.afterAdded (f.beforeStart role)).shut.beforeStart role' = none := by
    have begun := f.begun_afterAdded_begun
    rcases same with rfl | ⟨rfl, rfl⟩
    · cases role' with
      | sectioning | navigation => rfl
      | body | main => rfl
      | _ => exact begun
    · exact begun
  cases again with
  | alike alike plain =>
    cases alike with
    | startTag tag tag' name attrs => exact start (.inl (by rw [name]))
    | endTag tag tag' name =>
      simp only [MainState.added]
      split <;> rfl
    | text data line line' raw =>
      simp only [MainState.added]
      split
      · rfl
      · exact f.begun_afterAdded_begun
    | _ => rfl
  | headerStart tag tag' name name' scope =>
    refine start (.inr ⟨?_, ?_⟩)
    · rw [name]
      decide
    · rw [name']
      decide
  | headerEnd tag tag' name name' isDue =>
    simp only [MainState.added]
    split <;> rfl

theorem Again.afterToken_eq (again : Again options primary due o token token') (f : MainState) :
    f.shut.afterToken token' = (f.afterToken token).shut := by
  have start (role : Element) : f.shut.afterStart role = (f.afterStart role).shut := by
    cases role <;> rfl
  have stop (role : Element) : f.shut.afterEnd role = (f.afterEnd role).shut := by
    cases role <;> rfl
  cases again with
  | alike alike plain =>
    cases alike with
    | startTag tag tag' name attrs =>
      rw [MainState.afterToken, MainState.afterToken, name, start]
    | endTag tag tag' name => rw [MainState.afterToken, MainState.afterToken, name, stop]
    | _ => rfl
  | headerStart tag tag' name name' scope =>
    rw [MainState.afterToken, MainState.afterToken, name, name']
    rfl
  | headerEnd tag tag' name name' isDue =>
    rw [MainState.afterToken, MainState.afterToken, name, name']
    rfl

/-! ### The tables of the second run -/

section Read
variable {t t' : Table}

theorem simple_read (complicated : t.simple = false) (token : Token) :
    (t.read token).simple = false := by
  rw [← Bool.not_eq_true, Table.simple_read, complicated]
  simp

theorem simple_read_header {tag : StartTag} (name : tag.name = "th")
    (scope : "scope" ∈ tag.attrs.names) (t : Table) : (t.read (.startTag tag)).simple = false := by
  rw [← Bool.not_eq_true, Table.simple_read]
  exact fun simple => simple.2.1 (.inr ⟨.inr name, "scope", by simp, scope⟩)

theorem Alike.read_eq (alike : Alike token token') (t : Table) : t.read token' = t.read token := by
  cases alike with
  | startTag tag tag' name attrs =>
    rw [Table.read, Table.read, name]
    cases role : Element.ofName tag.name with
    | cell kind => rw [attrs kind role]
    | _ => rfl
  | endTag tag tag' name => rw [Table.read, Table.read, name]
  | _ => rfl

/-- A table in which the same is known knows the same after tokens that are read alike. -/
theorem Alike.known_read (alike : Alike token token') (same : t'.known = t.known) :
    (t'.read token').known = (t.read token).known := by
  rw [Table.known_read, Table.known_read t, same, alike.read_eq]

theorem Again.depth_read (again : Again options primary due o token token')
    (same : t'.depth = t.depth) : (t'.read token').depth = (t.read token).depth := by
  rw [Page.depth_read, Page.depth_read, same]
  cases again with
  | alike alike plain =>
    cases alike with
    | startTag tag tag' name attrs => rw [depthStep, depthStep, name]
    | endTag tag tag' name => rw [depthStep, depthStep, name]
    | _ => rfl
  | headerStart tag tag' name name' scope =>
    rw [depthStep, depthStep, name, name']
    rfl
  | headerEnd tag tag' name name' isDue =>
    rw [depthStep, depthStep, name, name']
    rfl

theorem Again.closedBy_eq (again : Again options primary due o token token')
    (same : t'.depth = t.depth) : t'.closedBy token' = t.closedBy token := by
  cases again with
  | alike alike plain =>
    cases alike with
    | endTag tag tag' name => rw [Table.closedBy, Table.closedBy, name, same]
    | _ => rfl
  | headerStart tag tag' name name' scope => rfl
  | headerEnd tag tag' name name' isDue =>
    rw [Table.closedBy, Table.closedBy, name, name', same]
    rfl

end Read

/-- The table of the second run has the depth of that of the first. It is not simple, or it knows
what that knows and none of its entries is promoted. -/
structure Echo (primary : Option Nat) (due : Bool) (t t' : Table) : Prop where
  depth : t'.depth = t.depth
  plain : t'.simple = false ∨ due = false ∧ t'.known = t.known ∧
    ∀ e ∈ t'.entries.toList, Table.isPromoted primary e = false

/-- A table is open in the second run if one is in the first. -/
def EchoTable (primary : Option Nat) (due : Bool) : Option Table → Option Table → Prop
  | none, none => True
  | some t, some t' => Echo primary due t t'
  | _, _ => False

theorem EchoTable.cases {table table' : Option Table} (echo : EchoTable primary due table table') :
    (table = none ∧ table' = none) ∨
      ∃ t t', table = some t ∧ table' = some t' ∧ Echo primary due t t' := by
  cases table with
  | none =>
    cases table' with
    | none => exact .inl ⟨rfl, rfl⟩
    | some t' => exact echo.elim
  | some t =>
    cases table' with
    | none => exact echo.elim
    | some t' => exact .inr ⟨t, t', rfl, rfl, echo⟩

theorem EchoTable.isSome_eq {table table' : Option Table}
    (echo : EchoTable primary due table table') : table'.isSome = table.isSome := by
  rcases echo.cases with ⟨rfl, rfl⟩ | ⟨t, t', rfl, rfl, -⟩ <;> rfl

/-- The second run is where the first is. -/
structure Echoes (primary : Option Nat) (due : Bool) (f : MainState) (table : Option Table)
    (o' : Outline) : Prop where
  mainState : o'.mainState = f.shut
  table : EchoTable primary due table o'.table

/-! ### One step of both runs -/

/-- No entry of a share is promoted if that of the token is not. -/
theorem plain_entries (plain : ∀ e, o.ownEntry options token = some e →
    Table.isPromoted primary e = false) :
    ∀ e ∈ (o.share options token).entries, Table.isPromoted primary e = false := by
  intro e mem
  rcases List.mem_append.mp mem with mem | mem
  · obtain ⟨fragment, -, rfl⟩ := Option.map_eq_some_iff.mp (Option.mem_toList.mp mem)
    simp [Table.isPromoted]
  · exact plain e (own_share (Option.mem_toList.mp mem))

/-- The entries of tokens that are read alike are in the same column. -/
theorem Alike.column_eq {o' : Outline} (alike : Alike token token')
    (next : o'.table.map Table.nextColumn = o.table.map Table.nextColumn) {e e' : Entry}
    (own : o.ownEntry options token = some e) (own' : o'.ownEntry options token' = some e') :
    e'.column = e.column := by
  cases alike with
  | startTag tag tag' name attrs =>
    obtain rfl := Option.some.inj own
    obtain rfl := Option.some.inj own'
    simp only [name]
    rw [Outline.column_startEntry, Outline.column_startEntry, next]
  | _ =>
    obtain rfl := Option.some.inj own
    obtain rfl := Option.some.inj own'
    rfl

variable {o' : Outline}

theorem Alike.plain (alike : Alike token token')
    (next : o'.table.map Table.nextColumn = o.table.map Table.nextColumn)
    (plain : ∀ e, o.ownEntry options token = some e → Table.isPromoted primary e = false) :
    ∀ e', o'.ownEntry options token' = some e' → Table.isPromoted primary e' = false := by
  intro e' own'
  cases own : o.ownEntry options token with
  | none => cases alike <;> cases own
  | some e =>
    have notPromoted := plain e own
    unfold Table.isPromoted at notPromoted ⊢
    rwa [alike.column_eq next own own']

/-- An open table of the second run follows that of the first. -/
theorem Echo.again {t t' : Table} (open_ : o.table = some t) (open_' : o'.table = some t')
    (echo : Echo primary due t t') (again : Again options primary due o token token') :
    Echo primary (Table.dueAfter primary due (o.share options token).entries)
      ((t.read token).addEntries (o.share options token).entries)
      ((t'.read token').addEntries (o'.share options token').entries) := by
  refine ⟨again.depth_read echo.depth, ?_⟩
  rcases echo.plain with complicated | ⟨rfl, same, old⟩
  · exact .inl (simple_read complicated token')
  cases again with
  | alike alike plain =>
    have next : o'.table.map Table.nextColumn = o.table.map Table.nextColumn := by
      have nextColumn := congrArg Table.nextColumn same
      rw [open_, open_']
      exact congrArg some nextColumn
    refine .inr ⟨Table.dueAfter_of_forall primary (plain_entries plain),
      alike.known_read same, fun e mem => ?_⟩
    rw [Table.toList_addEntries, Table.entries_read] at mem
    rcases List.mem_append.mp mem with mem | mem
    · exact old e mem
    · exact plain_entries (alike.plain next plain) e mem
  | headerStart tag tag' name name' scope => exact .inl (simple_read_header name' scope t')
  | headerEnd tag tag' name name' isDue => cases isDue

theorem Again.tableWith_of_none (again : Again options primary false o token token')
    (shut : o.table = none) (shut' : o'.table = none) :
    EchoTable primary (Table.dueAfter primary false (o.share options token).entries)
      ((o.tableWith token).map (·.addEntries (o.share options token).entries))
      ((o'.tableWith token').map (·.addEntries (o'.share options token').entries)) := by
  have other {role : Element} {tag : StartTag} (o : Outline) (shut : o.table = none)
      (notTable : role ≠ .table) : o.tableStarted role tag = none := by
    simp [Outline.tableStarted, shut, notTable]
  cases again with
  | alike alike plain =>
    have next : o'.table.map Table.nextColumn = o.table.map Table.nextColumn := by
      rw [shut, shut']
    have plain' := plain_entries (alike.plain next plain)
    have notDue := Table.dueAfter_of_forall primary (plain_entries plain)
    generalize (o.share options token).entries = entries at notDue ⊢
    generalize (o'.share options token').entries = entries' at plain' ⊢
    cases alike with
    | startTag tag tag' name attrs =>
      rw [Outline.tableWith, Outline.tableWith, name]
      by_cases table : Element.ofName tag.name = .table
      · simp only [Outline.tableStarted, shut, shut', if_pos table]
        exact ⟨rfl, .inr ⟨notDue, rfl, by simpa using plain'⟩⟩
      · rw [other o shut table, other o' shut' table]
        trivial
    | _ =>
      simp only [Outline.tableWith, shut, shut']
      trivial
  | headerStart tag tag' name name' scope =>
    rw [Outline.tableWith, Outline.tableWith, other o shut (by rw [name]; decide),
      other o' shut' (by rw [name']; decide)]
    trivial
  | headerEnd tag tag' name name' isDue => cases isDue

theorem EchoTable.again (echo : EchoTable primary due o.table o'.table)
    (begins : o.table = none → due = false) (again : Again options primary due o token token') :
    EchoTable primary (Table.dueAfter primary due (o.share options token).entries)
      ((o.tableWith token).map (·.addEntries (o.share options token).entries))
      ((o'.tableWith token').map (·.addEntries (o'.share options token').entries)) := by
  rcases echo.cases with ⟨shut, shut'⟩ | ⟨t, t', open_, open_', echo⟩
  · obtain rfl := begins shut
    exact again.tableWith_of_none shut shut'
  · rw [Outline.tableWith_of_some open_, Outline.tableWith_of_some open_']
    exact echo.again open_ open_' again

theorem Echo.closing {t t' : Table} (echo : Echo primary due t t') (decided : primary = t.verdict) :
    ∀ e ∈ t'.entries.toList, Table.isPromoted t'.verdict e = false := by
  rcases echo.plain with complicated | ⟨-, same, plain⟩
  · have verdict : t'.verdict = none := by simp [Table.verdict, complicated]
    exact fun e _ => by rw [verdict, Table.isPromoted_none]
  · have verdict : t'.verdict = t.verdict := by
      rw [← Table.verdict_known, same, Table.verdict_known]
    rwa [verdict, ← decided]

/-- A table ends in the second run where one ends in the first. -/
theorem EchoTable.closes_eq (echo : EchoTable primary due o.table o'.table)
    (again : Again options primary due o token token') : o'.closes token' = o.closes token := by
  unfold Outline.closes
  rcases echo.cases with ⟨shut, shut'⟩ | ⟨t, t', open_, open_', echo⟩
  · rw [shut, shut']
    rfl
  · rw [open_, open_']
    exact again.closedBy_eq echo.depth

/-- The own text of a token is its raw text. -/
def Verbatim (options : Options) (token : Token) : Prop :=
  ∀ (o : Outline) (e : Entry), o.ownEntry options token = some e → e.fragment.text = token.raw

/-- The text of the share of a token to which nothing is added. -/
theorem Verbatim.text_entries (verbatim : Verbatim options token) (report : token.isReport = false)
    (added : o.mainState.added o.table.isSome token = none) :
    textOf ((o.share options token).entries.map Entry.fragment) = token.raw := by
  obtain ⟨e, own⟩ : ∃ e, o.ownEntry options token = some e := by
    cases own : o.ownEntry options token with
    | none => exact nomatch report.symm.trans (ownEntry_eq_none own)
    | some e => exact ⟨e, rfl⟩
  have text := verbatim o e own
  rw [Share.entries, Outline.share, added, own]
  by_cases empty : e.fragment.text = ""
  · simp [addedEntries, Option.filter, empty, ← text]
  · simp [addedEntries, Option.filter, empty, ← text, textOf_cons]

theorem Again.not_report (again : Again options primary due o token token') :
    token'.isReport = false := by
  cases again with
  | alike alike plain => cases alike <;> rfl
  | headerStart => rfl
  | headerEnd => rfl

/-- **One step of the second run** writes or holds the text of its token, and then the second run is
where the first is again. -/
theorem Echoes.again {f : MainState} (echoes : Echoes primary due f o.table o')
    (main : f = o.mainState.afterAdded (o.mainState.added o.table.isSome token))
    (begins : o.table = none → due = false) (decides : Decides primary o token)
    (again : Again settings.options primary due o token token')
    (verbatim : Verbatim settings.options token') :
    Echoes primary (Table.dueAfter primary due (o.share settings.options token).entries)
        (o.edit settings token).outline.mainState (o.edit settings token).outline.table
        (o'.edit settings token').outline ∧
      textOf (o'.edit settings token').written ++ heldText (o'.edit settings token').outline =
        heldText o' ++ token'.raw := by
  have added : o'.mainState.added o'.table.isSome token' = none := by
    rw [echoes.mainState, echoes.table.isSome_eq, main]
    exact again.added_eq_none _ _
  have closes := echoes.table.closes_eq again
  have tables := echoes.table.again begins again
  refine ⟨⟨?_, ?_⟩, ?_⟩
  · rw [o'.mainState_edit, MainState.after, added, MainState.afterAdded_none,
      echoes.mainState, again.afterToken_eq, o.mainState_edit, MainState.after, main]
  · rw [Outline.table_edit, Outline.table_edit, closes]
    split
    · trivial
    · exact tables
  · rw [verbatim_edit, verbatim.text_entries again.not_report added]
    intro t' table' closed'
    cases table : o.tableWith token with
    | none => simp [table, table', EchoTable] at tables
    | some t =>
      rw [table, table'] at tables
      have closing := Echo.closing tables (decides.closing t table (closes ▸ closed'))
      rw [Table.toList_addEntries, Outline.entries_tableWith table'] at closing
      exact closing

/-! ### The added tags in the second run -/

/-- The tags that a first run has added are tags of a `main` element for the second. -/
inductive MainTag : Fragment → Token → Prop
  | start (tag : StartTag) (name : tag.name = "main") : MainTag .mainStart (.startTag tag)
  | stop (tag : EndTag) (name : tag.name = "main") : MainTag .mainEnd (.endTag tag)

namespace MainTag

variable {fragment : Fragment}

theorem role {name : String} (h : name = "main") : Element.ofName name = .main :=
  Element.ofName_eq_main_iff.mpr h

theorem added_eq_none (main : MainTag fragment token) (f : MainState) (inTable : Bool) :
    f.shut.added inTable token = none := by
  cases main with
  | start tag name => rw [MainState.added, role name, MainState.beforeStart]
  | stop tag name => rw [MainState.added, role name, if_neg (by decide)]

theorem afterToken_eq (main : MainTag fragment token) (f : MainState) :
    f.shut.afterToken token = (f.afterAdded (some fragment)).shut := by
  cases main with
  | start tag name => rw [MainState.afterToken, role name]; rfl
  | stop tag name => rw [MainState.afterToken, role name]; rfl

theorem read_eq (main : MainTag fragment token) (t : Table) : t.read token = t := by
  cases main with
  | start tag name => rw [Table.read, role name]; rfl
  | stop tag name => rw [Table.read, role name]; rfl

theorem tableWith_eq (main : MainTag fragment token) (o : Outline) :
    o.tableWith token = o.table := by
  cases table : o.table with
  | some t => rw [Outline.tableWith_of_some table, main.read_eq]
  | none =>
    cases main with
    | start tag name => simp [Outline.tableWith, Outline.tableStarted, table, role name]
    | stop tag name => simp [Outline.tableWith, table]

theorem closes_eq (main : MainTag fragment token) (o : Outline) : o.closes token = false := by
  cases table : o.table with
  | none => simp [Outline.closes, table]
  | some t =>
    cases main with
    | start tag name => simp [Outline.closes, table, Table.closedBy]
    | stop tag name => simp [Outline.closes, table, Table.closedBy, role name]

theorem verbatim (main : MainTag fragment token) : Verbatim options token := by
  intro o e own
  cases main with
  | start tag name =>
    obtain rfl := Option.some.inj own
    rw [role name]
    rfl
  | stop tag name =>
    obtain rfl := Option.some.inj own
    rfl

theorem plain (main : MainTag fragment token) (o : Outline) :
    ∀ e, o.ownEntry options token = some e → Table.isPromoted primary e = false := by
  intro e own
  cases main with
  | start tag name =>
    obtain rfl := Option.some.inj own
    rw [role name]
    rfl
  | stop tag name =>
    obtain rfl := Option.some.inj own
    rfl

theorem not_report (main : MainTag fragment token) : token.isReport = false := by
  cases main <;> rfl

end MainTag

/-- **The second run copies a tag that the first has added**, and is where the first is after it. -/
theorem Echoes.added (settings : Settings) {f : MainState} {table : Option Table}
    {fragment : Fragment} (echoes : Echoes primary due f table o') (main : MainTag fragment token) :
    Echoes primary due (f.afterAdded (some fragment)) table (o'.edit settings token).outline ∧
      textOf (o'.edit settings token).written ++ heldText (o'.edit settings token).outline =
        heldText o' ++ token.raw := by
  have added : o'.mainState.added o'.table.isSome token = none := by
    rw [echoes.mainState, main.added_eq_none]
  refine ⟨⟨?_, ?_⟩, ?_⟩
  · rw [o'.mainState_edit, MainState.after, added, MainState.afterAdded_none,
      echoes.mainState, main.afterToken_eq]
  · rw [Outline.table_edit, main.closes_eq, main.tableWith_eq]
    rcases echoes.table.cases with ⟨rfl, shut⟩ | ⟨t, t', rfl, open_, echo⟩
    · rw [shut]
      trivial
    · rw [open_]
      refine ⟨echo.depth, echo.plain.imp_right ?_⟩
      rintro ⟨notDue, same, old⟩
      refine ⟨notDue, same, fun e mem => ?_⟩
      rw [Table.toList_addEntries] at mem
      rcases List.mem_append.mp mem with mem | mem
      · exact old e mem
      · exact plain_entries (main.plain o') e mem
  · rw [verbatim_edit, main.verbatim.text_entries main.not_report added]
    intro t _ closes
    rw [main.closes_eq] at closes
    cases closes

end HtmlMend.Page
