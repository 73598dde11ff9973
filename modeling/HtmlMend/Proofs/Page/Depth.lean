import HtmlMend.Proofs.Markup.Cover
import HtmlMend.Proofs.Page.Run

/-! # Pages: depths

The number of open sectioning elements and that of open tables are counted over the tokens
(`depthOf`, `openTables`). The outline has the open table with this count as its depth
(`HasTables.run`), and it has both counts as long as the input goes on (`Tracks`). -/

namespace HtmlMend.Page

open Markup Output

/-! ### Depths -/

/-- The number of open elements of some roles after a token. -/
def depthStep (counts : Element → Bool) (depth : Nat) : Token → Nat
  | .startTag tag => if counts (Element.ofName tag.name) then depth + 1 else depth
  | .endTag tag => if counts (Element.ofName tag.name) then depth - 1 else depth
  | _ => depth

/-- The number of open elements of some roles after tokens. End tags without an open element do not
count. -/
def depthOf (counts : Element → Bool) (tokens : List Token) : Nat :=
  tokens.foldl (depthStep counts) 0

/-- The number of open sectioning elements after tokens. -/
def sectionDepth (tokens : List Token) : Nat := depthOf Element.isSectioning tokens

/-- The number of open tables after tokens. -/
def tableDepth (tokens : List Token) : Nat := depthOf (· = .table) tokens

/-! ### The state of the editor and the depths -/

theorem depthOf_snoc (counts : Element → Bool) (tokens : List Token) (token : Token) :
    depthOf counts (tokens ++ [token]) = depthStep counts (depthOf counts tokens) token := by
  simp [depthOf]

theorem MainState.sectionDepth_after (f : MainState) (inTable : Bool) (token : Token) :
    (f.after inTable token).sectionDepth = depthStep Element.isSectioning f.sectionDepth token := by
  have added (a : Option Fragment) : (f.afterAdded a).sectionDepth = f.sectionDepth := by
    unfold MainState.afterAdded
    split <;> rfl
  cases token with
  | startTag tag =>
    simp only [MainState.after, MainState.afterToken, MainState.afterStart, depthStep]
    cases Element.ofName tag.name <;> simp [added, Element.isSectioning]
  | endTag tag =>
    simp only [MainState.after, MainState.afterToken, MainState.afterEnd, depthStep]
    cases Element.ofName tag.name <;> simp [added, Element.isSectioning]
  | _ => exact added _

theorem depth_read (t : Table) (token : Token) :
    (t.read token).depth = depthStep (· = .table) t.depth token := by
  have endCell (t : Table) : t.endCell.depth = t.depth := by
    unfold Table.endCell
    split <;> rfl
  cases token with
  | startTag tag =>
    simp only [Table.read, Table.readStart, depthStep]
    cases Element.ofName tag.name <;>
      simp [Table.startRow, Table.startCell, endCell]
  | endTag tag =>
    simp only [Table.read, Table.readEnd, depthStep]
    cases Element.ofName tag.name <;> simp [endCell]
  | _ => rfl

/-! ### Open tables -/

/-- The number of open tables after a token. None is open after the end of the input. -/
def openTablesStep (depth : Nat) : Token → Nat
  | .endOfInput .. => 0
  | token => depthStep (· = .table) depth token

theorem openTablesStep_of_inner {depth : Nat} : ∀ {token : Token}, token.isEnd = false →
    openTablesStep depth token = depthStep (· = .table) depth token
  | .startTag _, _ | .endTag _, _ | .text .., _ | .comment .., _ | .doctype .., _
  | .malformed _, _ => rfl

/-- The number of open tables after tokens: the start tags of tables that no end tag of a table has
matched. End tags without an open table do not count. -/
def openTables (tokens : List Token) : Nat := tokens.foldl openTablesStep 0

/-- A token closes the open table if no table is open after it. -/
theorem closedBy_iff {t : Table} {token : Token} (pos : 0 < t.depth) :
    t.closedBy token = true ↔ openTablesStep t.depth token = 0 := by
  cases token with
  | startTag tag =>
    have goesOn : openTablesStep t.depth (.startTag tag) ≠ 0 := by
      simp only [openTablesStep, depthStep]
      split <;> omega
    simpa [Table.closedBy] using goesOn
  | endTag tag =>
    simp only [Table.closedBy, openTablesStep, depthStep, Bool.and_eq_true, decide_eq_true_eq]
    split
    · next role => simp only [role, true_and]; omega
    · next role => simp only [role, false_and, false_iff]; omega
  | endOfInput => exact ⟨fun _ => rfl, fun _ => rfl⟩
  | _ => simpa [Table.closedBy, openTablesStep, depthStep] using Nat.ne_of_gt pos

theorem depth_read_of_goesOn {t : Table} {token : Token} (goesOn : openTablesStep t.depth token ≠ 0) :
    (t.read token).depth = openTablesStep t.depth token := by
  rw [depth_read]
  cases token with
  | endOfInput => exact absurd rfl goesOn
  | _ => rfl

/-- An outline has the open table, if tables are open, and the depth of it is their number. -/
structure HasTables (o : Outline) (n : Nat) : Prop where
  isSome_iff : o.table.isSome = true ↔ 0 < n
  depth : ∀ t, o.table = some t → t.depth = n

theorem HasTables.nil : HasTables {} 0 := ⟨by decide, fun _ h => nomatch h⟩

/-- **Each token keeps the number of open tables.** -/
theorem HasTables.edit {o : Outline} {n : Nat} (h : HasTables o n) (settings : Settings)
    (token : Token) : HasTables (o.edit settings token).outline (openTablesStep n token) := by
  have after := o.table_edit settings token
  cases table : o.table with
  | none =>
    obtain rfl : n = 0 := by simpa [table] using h.isSome_iff
    rw [Outline.closes, table, Option.any_none, if_neg Bool.false_ne_true] at after
    cases with_ : o.tableWith token with
    | none =>
      have zero : openTablesStep 0 token = 0 := by
        cases token with
        | startTag tag =>
          have role : Element.ofName tag.name ≠ .table := by
            simpa [Outline.tableWith, Outline.tableStarted, table] using with_
          simp [openTablesStep, depthStep, role]
        | _ => simp [openTablesStep, depthStep]
      rw [with_] at after
      rw [zero]
      exact ⟨by simp [after], fun t some => (by cases after.symm.trans some)⟩
    | some t =>
      obtain ⟨tag, rfl, role, rfl⟩ := Outline.tableWith_of_none table with_
      have one : openTablesStep 0 (.startTag tag) = 1 := by simp [openTablesStep, depthStep, role]
      rw [with_] at after
      rw [one]
      refine ⟨by simp [after], fun t some => ?_⟩
      obtain rfl := Option.some.inj (after.symm.trans some)
      rfl
  | some t =>
    obtain rfl := h.depth t table
    have pos : 0 < t.depth := by simpa [table] using h.isSome_iff
    rw [Outline.closes, table, Option.any_some, Outline.tableWith_of_some table] at after
    split at after
    · next closed =>
      rw [(closedBy_iff pos).mp closed]
      exact ⟨by simp [after], fun t some => (by cases after.symm.trans some)⟩
    · next goesOn =>
      rw [closedBy_iff pos] at goesOn
      refine ⟨by simpa [after] using Nat.pos_of_ne_zero goesOn, fun u some => ?_⟩
      obtain rfl := Option.some.inj (after.symm.trans some)
      exact depth_read_of_goesOn goesOn

/-- **Tokens keep the number of open tables.** -/
theorem HasTables.run (settings : Settings) : ∀ (tokens : List Token) {o : Outline} {n : Nat},
    HasTables o n → HasTables (outlineFrom settings o tokens) (tokens.foldl openTablesStep n)
  | [], _, _, h => h
  | token :: rest, _, _, h => HasTables.run settings rest (h.edit settings token)

theorem hasTables_outlineFrom (settings : Settings) (tokens : List Token) :
    HasTables (outlineFrom settings {} tokens) (openTables tokens) :=
  HasTables.nil.run settings tokens

theorem HasTables.table_eq_none {o : Outline} {n : Nat} (h : HasTables o n) (zero : n = 0) :
    o.table = none := by
  simpa [zero] using h.isSome_iff

/-! ### Depths that are tracked -/

/-- The outline is one after tokens: it has the depths counted over them. -/
structure Tracks (o : Outline) (tokens : List Token) : Prop where
  sections : o.mainState.sectionDepth = sectionDepth tokens
  closed : o.table = none → tableDepth tokens = 0
  tables : ∀ t, o.table = some t → t.depth = tableDepth tokens ∧ 0 < t.depth

theorem tracks_nil : Tracks {} [] := ⟨rfl, fun _ => rfl, fun _ h => nomatch h⟩

theorem Tracks.isSome_iff {o : Outline} {tokens : List Token} (h : Tracks o tokens) :
    o.table.isSome = true ↔ tableDepth tokens ≠ 0 := by
  cases table : o.table with
  | none => simp [h.closed table]
  | some t =>
    have := h.tables t table
    simp
    omega

theorem Tracks.hasTables {o : Outline} {tokens : List Token} (h : Tracks o tokens) :
    HasTables o (tableDepth tokens) where
  isSome_iff := h.isSome_iff.trans Nat.pos_iff_ne_zero.symm
  depth t some := (h.tables t some).1

/-- **Each token but the end of the input keeps the depths.** -/
theorem Tracks.edit {o : Outline} {tokens : List Token} (h : Tracks o tokens) (settings : Settings)
    {token : Token} (inner : token.isEnd = false) :
    Tracks (o.edit settings token).outline (tokens ++ [token]) := by
  have tables : HasTables (o.edit settings token).outline (tableDepth (tokens ++ [token])) := by
    rw [tableDepth, depthOf_snoc, ← openTablesStep_of_inner inner]
    exact h.hasTables.edit settings token
  refine ⟨?_, fun none => ?_, fun t some => ⟨tables.depth t some, ?_⟩⟩
  · rw [Outline.mainState_edit, MainState.sectionDepth_after, h.sections, sectionDepth, sectionDepth,
      depthOf_snoc]
  · simpa [none] using tables.isSome_iff
  · rw [tables.depth t some]
    exact tables.isSome_iff.mp (by rw [some]; rfl)

theorem Tracks.run (settings : Settings) : ∀ {tokens : List Token} {o : Outline}
    {before : List Token}, Tracks o before → (∀ token ∈ tokens, token.isEnd = false) →
    Tracks (outlineFrom settings o tokens) (before ++ tokens)
  | [], _, _, h, _ => by simpa using h
  | token :: rest, o, before, h, inner => by
    have next := (h.edit settings (inner token (by simp))).run settings fun x hx =>
      inner x (List.mem_cons_of_mem token hx)
    simpa using next

end HtmlMend.Page
