import HtmlMend.Proofs.Page.Depth

/-! # Pages: warnings

Of all that is recorded of a page one thing is a warning: that a table is open where the page ends.
Every token but the end of the input is edited without a warning (`quiet_edit`), so the warnings of
a run are those of the table that its tokens leave open (`warnings_eventsFrom`). -/

namespace HtmlMend.Page

open Markup Output

/-- The warnings among events. -/
def warnings (events : List Event) : List Event := events.filter fun e => e.level = .warning

/-- The warning of a table that is open where the page ends. -/
def Outline.endWarnings (o : Outline) (file : Option String) : List Event :=
  match o.table with
  | none => []
  | some t => [.tableUnterminated file t.line]

/-- What is recorded of tokens that come in an outline. -/
def eventsFrom (settings : Settings) (o : Outline) : List Token → List Event
  | [] => []
  | token :: rest =>
    (o.edit settings token).events ++ eventsFrom settings (o.edit settings token).outline rest

@[simp] theorem warnings_nil : warnings [] = [] := rfl

@[simp] theorem warnings_append (xs ys : List Event) :
    warnings (xs ++ ys) = warnings xs ++ warnings ys := List.filter_append xs ys

theorem warnings_complicationEvents (t : Table) (why : Complication) :
    warnings (t.complicationEvents why) = [] := by
  unfold Table.complicationEvents
  split <;> rfl

theorem warnings_renderEvents (t : Table) : warnings t.renderEvents = [] := by
  unfold Table.renderEvents
  split <;> rfl

/-! ### Steps of an edit -/

namespace Edit

variable (e : Edit)

@[simp] theorem events_modify (change : Outline → Outline) : (e.modify change).events = e.events :=
  rfl

@[simp] theorem events_record (events : List Event) :
    (e.record events).events = e.events ++ events := rfl

@[simp] theorem events_release (t : Table) :
    (e.release t).events = e.events ++ t.renderEvents := rfl

@[simp] theorem events_put (entry : Entry) : (e.put entry).events = e.events := by
  unfold put
  split
  · rfl
  split <;> rfl

@[simp] theorem events_endMain : e.endMain.events = e.events := by
  unfold endMain
  split
  · rw [events_modify, events_put]
  · rfl

@[simp] theorem warnings_startMain : warnings e.startMain.events = warnings e.events := by
  unfold startMain
  split
  · rw [events_modify, events_put, events_record, warnings_append]
    exact List.append_nil _
  · rfl

end Edit

/-! ### Tokens -/

namespace Outline

variable (o : Outline)

theorem warnings_enterEvents (role : Element) (tag : StartTag) :
    warnings (o.enterEvents role tag) = [] := by
  unfold enterEvents
  split
  · exact warnings_complicationEvents ..
  · unfold Table.startCellEvents
    split
    · exact warnings_complicationEvents ..
    · rfl
  · rfl

theorem events_enter (role : Element) (tag : StartTag) :
    (o.enter role tag).events = o.enterEvents role tag := by
  cases role <;> simp [enter]

theorem warnings_startTag (options : Options) (tag : StartTag) :
    warnings (o.startTag options tag).events = [] := by
  unfold startTag
  rw [Edit.events_put]
  split
  · rw [events_enter, warnings_enterEvents]
  · rw [Edit.warnings_startMain, events_enter, warnings_enterEvents]

theorem warnings_endTag (tag : EndTag) : warnings (o.endTag tag).events = [] := by
  unfold endTag
  cases Element.ofName tag.name with
  | table =>
    dsimp only
    unfold closeTable
    split
    · simp
    dsimp only
    split
    · rw [Edit.events_release]
      exact warnings_renderEvents _
    · simp
  | _ => simp

theorem warnings_text (data raw : String) : warnings (o.text data raw).events = [] := by
  unfold text
  rw [Edit.events_put]
  split
  · rfl
  split
  · rfl
  · rw [Edit.warnings_startMain]
    rfl

/-- **Every token but the end of the input is edited without a warning.** -/
theorem quiet_edit (settings : Settings) : ∀ {token : Token}, token.isEnd = false →
    warnings (o.edit settings token).events = []
  | .startTag tag, _ => o.warnings_startTag settings.options tag
  | .endTag tag, _ => o.warnings_endTag tag
  | .text data _ raw, _ => o.warnings_text data raw
  | .comment _ _ raw, _ | .doctype _ _ raw, _ => by
    rw [edit, Edit.events_put]
    rfl
  | .malformed _, _ => rfl

theorem warnings_finish (file : Option String) (raw : String) :
    warnings (o.finish file raw).events = o.endWarnings file := by
  unfold finish endWarnings
  rw [Edit.events_put]
  cases o.table with
  | none => rfl
  | some t =>
    have unnoticed : warnings (t.complicationEvents .unterminated) = [] :=
      warnings_complicationEvents ..
    have rendered : warnings t.complicate.renderEvents = [] := warnings_renderEvents _
    change warnings ([.tableUnterminated file t.line] ++ t.complicationEvents .unterminated ++
      t.complicate.renderEvents) = _
    rw [warnings_append, warnings_append, unnoticed, rendered]
    rfl

end Outline

/-! ### Runs -/

variable {settings : Settings}

/-- **A run warns of the table that its tokens leave open**, and of nothing else. -/
theorem warnings_eventsFrom (line : Option Int) (raw : String) : ∀ {body : List Token} (o : Outline),
    (∀ token ∈ body, token.isEnd = false) →
    warnings (eventsFrom settings o (body ++ [.endOfInput line raw])) =
      (outlineFrom settings o body).endWarnings settings.file
  | [], o, _ => by
    have last : eventsFrom settings o [.endOfInput line raw] = (o.finish settings.file raw).events :=
      List.append_nil _
    rw [List.nil_append, last, o.warnings_finish, outlineFrom_nil]
  | token :: body, o, inner => by
    obtain ⟨here, inner⟩ := List.forall_mem_cons.mp inner
    rw [List.cons_append, eventsFrom, warnings_append, o.quiet_edit settings here, List.nil_append,
      warnings_eventsFrom line raw _ inner, outlineFrom_cons]

/-- What lenient work on tokens records. -/
theorem Report.toList_events_addAll (lenient : settings.strict = false) : ∀ (tokens : List Token)
    (r : Report), (r.addAll settings tokens).events.toList =
      r.events.toList ++ eventsFrom settings r.outline tokens
  | [], r => by simp [addAll, eventsFrom]
  | token :: rest, r => by
    rw [addAll_cons lenient, toList_events_addAll lenient rest, eventsFrom, ← List.append_assoc,
      outline_add]
    simp [add]

end HtmlMend.Page
