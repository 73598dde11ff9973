import HtmlMend.Proofs.Page.Strict
import HtmlMend.Proofs.Table.Parts

/-! # Pages: the editor does not fail

The editor whose open cell is kept in parts can fail: a part may be missing, and the end of a cell
looks its column up (`LooseOutline.process`). Nothing else of a step can: a place beyond a text cuts
it at its end, and an attribute that is not there is none. From the beginning of a page on, its open
table is sound, and a sound table reads every token, so that nothing but the refusal of malformed
markup by strict work ends a step early (`LooseOutline.Sound.process`). What it remembers is what
the editor remembers, with the open cell apart (`LooseOutline.process_apart`). Both go from one
token to all tokens (`LooseOutline.processAll_spec`). -/

namespace HtmlMend.Page

open Markup Output

/-- An outline whose table has its open cell in parts. -/
structure LooseOutline where
  main : MainState := {}
  table : Option LooseTable := none
deriving DecidableEq

/-- The outline with the open cell of its table in parts. -/
def Outline.apart (o : Outline) : LooseOutline := ⟨o.mainState, o.table.map Table.apart⟩

namespace LooseOutline

/-- The outline without the open cell of its table. -/
def outline (s : LooseOutline) : Outline :=
  { allowMain := s.main.allowMain, needMain := s.main.needMain, mainOpen := s.main.mainOpen
    sectionDepth := s.main.sectionDepth, table := s.table.map LooseTable.table }

/-- The table that holds a token: the open one after it has read it, or one that it opens. -/
def tableWith (s : LooseOutline) (token : Token) : Except StepFailure (Option LooseTable) :=
  match s.table with
  | some l =>
    match l.read token with
    | .error failure => .error failure
    | .ok l => .ok (some l)
  | none => .ok ((s.outline.tableWith token).map Table.apart)

/-- The outline after a token, or why there is none. -/
def process (settings : Settings) (s : LooseOutline) (token : Token) :
    Except StepFailure LooseOutline :=
  match settings.strict, settings.problem? token with
  | true, some problem => .error (.refused problem)
  | _, _ =>
    match s.tableWith token with
    | .error failure => .error failure
    | .ok table =>
      .ok
        { main := s.main.after s.table.isSome token
          table := if s.outline.closes token then none
            else table.map (·.addEntries (s.outline.share settings.options token).entries) }

/-- The outline after tokens, and the failures on the way. After a failure the work goes on with the
next token. -/
def processAll (settings : Settings) (s : LooseOutline) :
    List Token → LooseOutline × List StepFailure
  | [] => (s, [])
  | token :: rest =>
    match s.process settings token with
    | .ok next => next.processAll settings rest
    | .error failure =>
      let (last, failures) := s.processAll settings rest
      (last, failure :: failures)

/-- The open table, if there is one, is sound. -/
def Sound (s : LooseOutline) : Prop := ∀ l, s.table = some l → l.Sound

/-! ### The same outline -/

section Apart
variable {o : Outline} {settings : Settings} {token : Token}

theorem share_apart (o : Outline) (options : Options) (token : Token) :
    o.apart.outline.share options token = o.share options token := by
  have main : o.apart.outline.mainState = o.mainState := rfl
  have own : o.apart.outline.ownEntry options token = o.ownEntry options token := by
    cases token with
    | startTag tag =>
      simp only [Outline.ownEntry, Outline.startEntry]
      cases Element.ofName tag.name <;> cases table : o.table <;>
        simp [Outline.apart, outline, table, Table.apart]
    | _ => rfl
  have held : o.apart.outline.table.isSome = o.table.isSome := by
    simp [Outline.apart, outline]
  rw [Outline.share, Outline.share, main, own, held]

theorem closes_apart (o : Outline) (token : Token) :
    o.apart.outline.closes token = o.closes token := by
  cases table : o.table with
  | none => simp [Outline.closes, Outline.apart, outline, table]
  | some t =>
    have same : t.apart.table.closedBy token = t.closedBy token := by cases token <;> rfl
    simp [Outline.closes, Outline.apart, outline, table, same]

theorem tableWith_apart {table : Option LooseTable} (ok : o.apart.tableWith token = .ok table) :
    table = (o.tableWith token).map Table.apart := by
  cases held : o.table with
  | none =>
    have same : o.apart.outline = o := by
      cases o
      simp_all [Outline.apart, outline, Outline.mainState]
    have apart : o.apart.table = none := by simp [Outline.apart, held]
    rw [tableWith, apart, same] at ok
    exact (Except.ok.inj ok).symm
  | some t =>
    have apart : o.apart.table = some t.apart := by simp [Outline.apart, held]
    rw [tableWith, apart] at ok
    rw [Outline.tableWith_of_some held, Option.map_some]
    simp only at ok
    split at ok
    · cases ok
    · next read => rw [← Except.ok.inj ok, LooseTable.read_apart read]

theorem apart_edit (o : Outline) (settings : Settings) (token : Token) :
    (o.edit settings token).outline.apart =
      { main := o.mainState.after o.table.isSome token
        table := if o.closes token then none
          else ((o.tableWith token).map Table.apart).map
            (·.addEntries (o.share settings.options token).entries) } := by
  rw [Outline.apart, Outline.mainState_edit, Outline.table_edit]
  split
  · rfl
  · cases o.tableWith token <;> rfl

/-- **The steps of the two editors** lead to the same outline. -/
theorem process_apart {next : LooseOutline} (ok : o.apart.process settings token = .ok next) :
    next = (o.edit settings token).outline.apart := by
  unfold process at ok
  split at ok
  · cases ok
  split at ok
  · cases ok
  · next table held =>
    have isSome : o.apart.table.isSome = o.table.isSome := by simp [Outline.apart]
    rw [← Except.ok.inj ok, tableWith_apart held, share_apart, closes_apart, isSome, apart_edit]
    rfl

end Apart

/-! ### No failures -/

variable {s : LooseOutline}

/-- A sound outline finds the table that holds a token, and it is sound unless the token closes
it. -/
theorem Sound.tableWith (h : s.Sound) (token : Token) : ∃ table, s.tableWith token = .ok table ∧
    (s.outline.closes token = false → ∀ l, table = some l → l.Sound) := by
  cases table : s.table with
  | none =>
    refine ⟨(s.outline.tableWith token).map Table.apart, by rw [LooseOutline.tableWith, table],
      fun _ l some => ?_⟩
    obtain ⟨t, held, rfl⟩ := Option.map_eq_some_iff.mp some
    obtain ⟨tag, -, -, rfl⟩ := Outline.tableWith_of_none (by simp [outline, table]) held
    exact LooseTable.Sound.begun tag.line
  | some l =>
    have closes : s.outline.closes token = l.table.closedBy token := by
      simp [Outline.closes, outline, table]
    cases closed : l.table.closedBy token with
    | true =>
      obtain ⟨l', read⟩ := LooseTable.read_of_closedBy l closed
      exact ⟨some l', by simp [LooseOutline.tableWith, table, read], by simp [closes, closed]⟩
    | false =>
      obtain ⟨l', read, sound⟩ := (h l table).read closed
      refine ⟨some l', by simp [LooseOutline.tableWith, table, read], ?_⟩
      rintro - _ ⟨⟩
      exact sound

/-- **A sound outline fails at no token** but malformed markup that strict work refuses, and stays
sound. -/
theorem Sound.process (h : s.Sound) (settings : Settings) (token : Token) :
    (∃ problem, settings.strict = true ∧ settings.problem? token = some problem ∧
      s.process settings token = .error (.refused problem)) ∨
    (settings.strict = true → settings.problem? token = none) ∧
      ∃ next, s.process settings token = .ok next ∧ next.Sound := by
  unfold LooseOutline.process
  split
  · next problem strict refused => exact .inl ⟨problem, strict, refused, rfl⟩
  · next lenient =>
    obtain ⟨table, held, sound⟩ := h.tableWith token
    refine .inr ⟨fun strict => ?_, _, by rw [held], fun l some => ?_⟩
    · cases refused : settings.problem? token with
      | none => rfl
      | some problem => exact (lenient problem strict refused).elim
    · simp only at some
      split at some
      · cases some
      · next goesOn =>
        obtain ⟨l', held', rfl⟩ := Option.map_eq_some_iff.mp some
        exact (sound (by simpa using goesOn) l' held').addEntries _

/-- The failures of strict work on tokens: the reports among them. -/
def refusals (settings : Settings) (tokens : List Token) : List StepFailure :=
  if settings.strict then (tokens.filterMap settings.problem?).map .refused else []

/-- Tokens lead from an outline that is sound to the outline of the editor, with refusals only. -/
theorem processAll_apart (settings : Settings) : ∀ (tokens : List Token) {o : Outline},
    o.apart.Sound →
      o.apart.processAll settings tokens =
        ((outlineFrom settings o tokens).apart, refusals settings tokens) ∧
      (outlineFrom settings o tokens).apart.Sound
  | [], o, h => ⟨by simp [processAll, refusals], h⟩
  | token :: rest, o, h => by
    rcases h.process settings token with
      ⟨problem, strict, isReport, failed⟩ | ⟨clean, next, ok, sound⟩
    · have kept : (o.edit settings token).outline = o := by
        cases token with
        | malformed report => rfl
        | _ => cases isReport
      obtain ⟨run, sound⟩ := processAll_apart settings rest h
      rw [outlineFrom_cons, kept]
      refine ⟨?_, sound⟩
      rw [processAll, failed]
      simp only [run, refusals, strict, if_true, List.filterMap_cons, isReport, List.map_cons]
    · obtain rfl := process_apart ok
      obtain ⟨run, sound⟩ := processAll_apart settings rest sound
      refine ⟨?_, sound⟩
      rw [processAll, ok, outlineFrom_cons]
      simp only [run, refusals]
      split
      · next strict => rw [List.filterMap_cons, clean strict]
      · rfl

/-- **The editor does not fail.** Whatever tokens come, of any kind and with any fields, the
failures are the refusals of malformed markup by strict work. After them the outline is that of the
editor with the open cell apart, and an open table is sound: it is open, the parts of its cell are
all there or none is, the cell is the one before the next, and its column, the next column and the
column of names are within the columns. -/
theorem processAll_spec (settings : Settings) (tokens : List Token) :
    let run := ({} : LooseOutline).processAll settings tokens
    run = ((outlineFrom settings {} tokens).apart, refusals settings tokens) ∧ run.1.Sound := by
  have empty : ({} : Outline).apart.Sound := fun l none => nomatch none
  obtain ⟨run, sound⟩ := processAll_apart settings tokens empty
  intro run'
  have same : run' = ((outlineFrom settings {} tokens).apart, refusals settings tokens) := run
  exact ⟨same, by rw [same]; exact sound⟩

end LooseOutline

end HtmlMend.Page
