import HtmlMend.Proofs.Page.Piece

/-! # Pages: the ledger of a run

At every point of a run the tokens read so far fall into those that are settled, whose pieces are
written, and those that are held back in the open table (`Ledger`). Each token keeps it so
(`Ledger.add`): it is settled at once without a table, it is held back by a table that goes on, and
with the end of a table all is settled. Nothing that is settled changes later. -/

namespace HtmlMend.Page

open Markup Output

/-- The table that is open after tokens. -/
def tableAfter (settings : Settings) (tokens : List Token) : Option Table :=
  (editAll settings tokens).outline.table

/-- A token is in a table that is closed by an end tag and is simple then. -/
def InSimpleTable (settings : Settings) (tokens : List Token) (i : Nat) : Prop :=
  ∃ k closer t, i < k ∧ tokens[k]? = some (.endTag closer) ∧
    (∀ n, i < n → n ≤ k → (tableAfter settings (tokens.take n)).isSome = true) ∧
    tableAfter settings (tokens.take k) = some t ∧ t.simple = true ∧
    tableAfter settings (tokens.take (k + 1)) = none

/-- What becomes of a share: its piece, or a promoted one if the token is in a simple table. -/
def Settles (settings : Settings) (tokens : List Token) (i : Nat) (share : Share) (p : Piece) :
    Prop :=
  p.added = share.added ∧ (p = share.piece ∨ ∃ token, tokens[i]? = some token ∧
    IsPromotedPiece token p ∧ InSimpleTable settings tokens i)

/-- The pieces of the tokens that are settled after tokens, in order. -/
structure Ledger (settings : Settings) (tokens : List Token) (settled : List Piece) : Prop where
  le : settled.length ≤ tokens.length
  pieces : ∀ i p, settled[i]? = some p →
    ∃ share, (sharesFrom settings {} tokens)[i]? = some share ∧ Settles settings tokens i share p
  written : (editAll settings tokens).text = textOf (settled.flatMap Piece.fragments)
  all_settled : tableAfter settings tokens = none → settled.length = tokens.length
  held : ∀ t, tableAfter settings tokens = some t →
    t.entries.toList = ((sharesFrom settings {} tokens).drop settled.length).flatMap Share.entries
  open_since : ∀ n, settled.length < n → n ≤ tokens.length →
    (tableAfter settings (tokens.take n)).isSome = true

variable {settings : Settings} {tokens : List Token} {settled : List Piece}

theorem ledger_nil : Ledger settings [] [] where
  le := Nat.le_refl 0
  pieces _ _ h := by simp at h
  written := by simp [editAll, Report.addAll, Report.text]
  all_settled _ := rfl
  held _ h := nomatch h
  open_since _ lt le := absurd lt (by simpa using le)

theorem InSimpleTable.append {i : Nat} (h : InSimpleTable settings tokens i) (more : List Token) :
    InSimpleTable settings (tokens ++ more) i := by
  obtain ⟨k, closer, t, lt, closed, since, table, simple, after⟩ := h
  have inside : k < tokens.length := (List.getElem?_eq_some_iff.mp closed).1
  have take (n : Nat) (le : n ≤ k + 1) : (tokens ++ more).take n = tokens.take n :=
    List.take_append_of_le_length (by omega)
  refine ⟨k, closer, t, lt, ?_, fun n gt le => ?_, ?_, simple, ?_⟩
  · rw [List.getElem?_append_left inside]
    exact closed
  · rw [take n (by omega)]
    exact since n gt le
  · rw [take k (by omega)]
    exact table
  · rw [take (k + 1) (by omega)]
    exact after

theorem Settles.append {i : Nat} {share : Share} {p : Piece}
    (h : Settles settings tokens i share p) (more : List Token) :
    Settles settings (tokens ++ more) i share p := by
  obtain ⟨added, plain | ⟨token, at_i, promoted, inSimple⟩⟩ := h
  · exact ⟨added, .inl plain⟩
  · refine ⟨added, .inr ⟨token, ?_, promoted, inSimple.append more⟩⟩
    rw [List.getElem?_append_left (List.getElem?_eq_some_iff.mp at_i).1]
    exact at_i

theorem Ledger.entries_eq (h : Ledger settings tokens settled) {token : Token} {t : Table}
    (holds : (editAll settings tokens).outline.tableWith token = some t) :
    t.entries.toList =
      ((sharesFrom settings {} tokens).drop settled.length).flatMap Share.entries := by
  rw [Outline.entries_tableWith holds, Outline.held]
  cases table : (editAll settings tokens).outline.table with
  | none =>
    have all := h.all_settled table
    simp [all, List.drop_eq_nil_of_le]
  | some t => exact h.held t table

/-! ### One more token -/

section Add
variable (strict : settings.strict = false) (token : Token)
include strict

theorem tableAfter_snoc (tokens : List Token) : tableAfter settings (tokens ++ [token]) =
    ((editAll settings tokens).outline.edit settings token).outline.table := by
  rw [tableAfter, editAll_snoc strict, Report.outline_add]

theorem text_editAll_snoc (tokens : List Token) : (editAll settings (tokens ++ [token])).text =
    (editAll settings tokens).text ++
      textOf ((editAll settings tokens).outline.edit settings token).written := by
  rw [Report.text, editAll_snoc strict, Report.toList_written_add, textOf_append, Report.text]

/-- The pieces that are settled stay as they are with one more token. -/
theorem Ledger.pieces_snoc (h : Ledger settings tokens settled) {i : Nat} {p : Piece}
    (at_i : settled[i]? = some p) :
    ∃ share, (sharesFrom settings {} (tokens ++ [token]))[i]? = some share ∧
      Settles settings (tokens ++ [token]) i share p := by
  obtain ⟨share, share_i, settles⟩ := h.pieces i p at_i
  refine ⟨share, ?_, settles.append [token]⟩
  rw [sharesFrom_snoc strict, List.getElem?_append_left (List.getElem?_eq_some_iff.mp share_i).1]
  exact share_i

/-- **All that is held back is settled** if no table is open after the token. -/
theorem Ledger.settle (h : Ledger settings tokens settled)
    (none : tableAfter settings (tokens ++ [token]) = none) {new : List Piece}
    (length : settled.length + new.length = tokens.length + 1)
    (written : textOf ((editAll settings tokens).outline.edit settings token).written =
      textOf (new.flatMap Piece.fragments))
    (pieces : ∀ i p, new[i]? = some p →
      ∃ share, (sharesFrom settings {} (tokens ++ [token]))[settled.length + i]? = some share ∧
        Settles settings (tokens ++ [token]) (settled.length + i) share p) :
    Ledger settings (tokens ++ [token]) (settled ++ new) where
  le := by
    simp only [List.length_append, List.length_singleton]
    omega
  pieces i p at_i := by
    rcases Nat.lt_or_ge i settled.length with lt | ge
    · rw [List.getElem?_append_left lt] at at_i
      exact h.pieces_snoc strict token at_i
    · rw [List.getElem?_append_right ge] at at_i
      have := pieces _ p at_i
      rwa [Nat.add_sub_cancel' ge] at this
  written := by
    rw [text_editAll_snoc strict, written, h.written, List.flatMap_append, textOf_append]
  all_settled _ := by
    simp only [List.length_append, List.length_singleton]
    exact length
  held t table := by
    rw [none] at table
    cases table
  open_since n gt le := by
    simp only [List.length_append, List.length_singleton] at gt le
    omega

/-- **A token that a table holds back** leaves all as it is. -/
theorem Ledger.hold (h : Ledger settings tokens settled) {t : Table}
    (holds : (editAll settings tokens).outline.tableWith token = some t)
    (after : ((editAll settings tokens).outline.edit settings token).outline.table =
      some (t.addEntries ((editAll settings tokens).outline.share settings.options token).entries))
    (written : ((editAll settings tokens).outline.edit settings token).written = []) :
    Ledger settings (tokens ++ [token]) settled where
  le := by
    rw [List.length_append]
    exact Nat.le_add_right_of_le h.le
  pieces i p at_i := h.pieces_snoc strict token at_i
  written := by rw [text_editAll_snoc strict, written, h.written, textOf_nil, String.append_empty]
  all_settled none := by
    rw [tableAfter_snoc strict, after] at none
    cases none
  held t' table := by
    rw [tableAfter_snoc strict, after] at table
    obtain rfl := Option.some.inj table
    rw [Table.toList_addEntries, h.entries_eq holds, sharesFrom_snoc strict,
      List.drop_append_of_le_length (by simpa using h.le), List.flatMap_append]
    simp
  open_since n gt le := by
    rcases Nat.lt_or_ge tokens.length n with lt | ge
    · have all : n = (tokens ++ [token]).length := by
        simp only [List.length_append, List.length_singleton] at le ⊢
        omega
      rw [all, List.take_length, tableAfter_snoc strict, after]
      rfl
    · rw [List.take_append_of_le_length ge]
      exact h.open_since n gt ge

end Add

/-! ### Tables that are closed -/

theorem getElem?_promoteAll (primary : Option Nat) : ∀ (shares : List Share) {due : Bool} {i : Nat}
    {p : Piece}, (promoteAll primary due shares)[i]? = some p →
    ∃ share due', shares[i]? = some share ∧ p = share.promoted primary due'
  | [], _, _, _, h => by simp [promoteAll] at h
  | s :: _, due, 0, p, h => ⟨s, due, rfl, by simpa [promoteAll] using h.symm⟩
  | _ :: rest, _, _ + 1, _, h => getElem?_promoteAll primary rest (by simpa [promoteAll] using h)

@[simp] theorem length_promoteAll (primary : Option Nat) : ∀ (shares : List Share) (due : Bool),
    (promoteAll primary due shares).length = shares.length
  | [], _ => rfl
  | s :: rest, due => by simp [promoteAll, length_promoteAll primary rest]

theorem getElem?_sharesFrom : ∀ (tokens : List Token) {o : Outline} {i : Nat} {s : Share},
    (sharesFrom settings o tokens)[i]? = some s →
    ∃ (o' : Outline) (token : Token), tokens[i]? = some token ∧ s = o'.share settings.options token
  | [], _, _, _, h => by simp [sharesFrom] at h
  | token :: _, o, 0, s, h => ⟨o, token, rfl, by simpa [sharesFrom] using h.symm⟩
  | _ :: rest, _, _ + 1, _, h => getElem?_sharesFrom rest (by simpa [sharesFrom] using h)

/-- A table that is simple where it is closed is closed by its end tag. -/
theorem closed_of_simple {o : Outline} {token : Token} {t : Table}
    (holds : o.tableWith token = some t) (closes : o.closes token = true)
    (simple : t.simple = true) :
    ∃ closer t', token = .endTag closer ∧ Element.ofName closer.name = .table ∧
      o.table = some t' ∧ t'.simple = true := by
  cases table : o.table with
  | none => simp [Outline.closes, table] at closes
  | some t' =>
    simp only [Outline.closes, table, Option.any_some] at closes
    cases token with
    | endTag closer =>
      simp only [Table.closedBy, Bool.and_eq_true, decide_eq_true_eq] at closes
      refine ⟨closer, t', rfl, closes.1, rfl, ?_⟩
      simp only [Outline.tableWith, table, Option.map_some, Table.read, Table.readEnd,
        closes.1] at holds
      obtain rfl := Option.some.inj holds
      exact simple
    | endOfInput line raw =>
      simp only [Outline.tableWith, table, Option.map_some, Table.read] at holds
      obtain rfl := Option.some.inj holds
      cases simple
    | _ => cases closes

section Release
variable {token : Token} {t : Table}

theorem Ledger.entries_addEntries (strict : settings.strict = false)
    (h : Ledger settings tokens settled)
    (holds : (editAll settings tokens).outline.tableWith token = some t) :
    (t.addEntries
        ((editAll settings tokens).outline.share settings.options token).entries).entries.toList =
      ((sharesFrom settings {} (tokens ++ [token])).drop settled.length).flatMap Share.entries := by
  rw [Table.toList_addEntries, h.entries_eq holds, sharesFrom_snoc strict,
    List.drop_append_of_le_length (by simpa using h.le), List.flatMap_append]
  simp

/-- The tokens that a simple table has held back are in it. -/
theorem Ledger.inSimpleTable (h : Ledger settings tokens settled)
    (holds : (editAll settings tokens).outline.tableWith token = some t)
    (closes : (editAll settings tokens).outline.closes token = true) (simple : t.simple = true)
    (after : tableAfter settings (tokens ++ [token]) = none) {i : Nat} {p : Piece}
    {token' : Token} (at_i : (tokens ++ [token])[i]? = some token')
    (promoted : IsPromotedPiece token' p) (ge : settled.length ≤ i) :
    InSimpleTable settings (tokens ++ [token]) i := by
  obtain ⟨closer, t', rfl, role, table, simple'⟩ := closed_of_simple holds closes simple
  have le : i < tokens.length + 1 := by
    have := (List.getElem?_eq_some_iff.mp at_i).1
    simpa using this
  have ne : i ≠ tokens.length := by
    rintro rfl
    -- The end tag of the table itself is not that of a cell.
    obtain rfl : Token.endTag closer = token' := by simpa using at_i
    obtain ⟨f, -, promotion⟩ := promoted.own
    cases promotion with
    | stop _ name =>
      rw [name] at role
      exact absurd role (by decide)
  have take (n : Nat) (le : n ≤ tokens.length) :
      (tokens ++ [Token.endTag closer]).take n = tokens.take n :=
    List.take_append_of_le_length le
  refine ⟨tokens.length, closer, t', by omega, by simp, fun n gt le => ?_, ?_, simple', ?_⟩
  · rw [take n le]
    exact h.open_since n (by omega) le
  · rw [take _ (Nat.le_refl _), List.take_length]
    exact table
  · rw [List.take_of_length_le (by simp)]
    exact after

/-- **A token that closes the table** settles all that is held back. -/
theorem Ledger.release (strict : settings.strict = false) (h : Ledger settings tokens settled)
    (holds : (editAll settings tokens).outline.tableWith token = some t)
    (closes : (editAll settings tokens).outline.closes token = true)
    (after : ((editAll settings tokens).outline.edit settings token).outline.table = none)
    (written : ((editAll settings tokens).outline.edit settings token).written =
      (t.addEntries ((editAll settings tokens).outline.share settings.options
        token).entries).render.filter (·.text ≠ "")) :
    ∃ new, Ledger settings (tokens ++ [token]) (settled ++ new) := by
  have entries := h.entries_addEntries strict holds
  have none : tableAfter settings (tokens ++ [token]) = none := by rw [tableAfter_snoc strict, after]
  have length : settled.length +
      ((sharesFrom settings {} (tokens ++ [token])).drop settled.length).length =
      tokens.length + 1 := by
    have := h.le
    simp only [List.length_drop, length_sharesFrom, List.length_append, List.length_singleton]
    omega
  have rendered : textOf ((editAll settings tokens).outline.edit settings token).written =
      textOf (t.addEntries ((editAll settings tokens).outline.share settings.options
        token).entries).render := by rw [written, textOf_filter]
  rw [Table.render, entries] at rendered
  cases simple : t.simple with
  | false =>
    refine ⟨((sharesFrom settings {} (tokens ++ [token])).drop settled.length).map Share.piece,
      h.settle strict token none (by simpa using length) ?_ fun i p at_i => ?_⟩
    · rw [rendered, if_neg (by simp [Table.addEntries, simple]), fragments_shares]
    · rw [List.getElem?_map, Option.map_eq_some_iff] at at_i
      obtain ⟨share, share_i, rfl⟩ := at_i
      exact ⟨share, by rwa [List.getElem?_drop] at share_i, rfl, .inl rfl⟩
  | true =>
    refine ⟨promoteAll t.primaryColumn false
        ((sharesFrom settings {} (tokens ++ [token])).drop settled.length),
      h.settle strict token none (by simpa using length) ?_ fun i p at_i => ?_⟩
    · rw [rendered, if_pos (by simp [Table.addEntries, simple])]
      exact congrArg textOf (renderSimple_shares t.primaryColumn _ false)
    · obtain ⟨share, due, share_i, rfl⟩ := getElem?_promoteAll _ _ at_i
      rw [List.getElem?_drop] at share_i
      refine ⟨share, share_i, rfl, ?_⟩
      obtain ⟨o, token', token_i, rfl⟩ := getElem?_sharesFrom _ share_i
      rcases promoted_share t.primaryColumn due with plain | promoted
      · exact .inl plain
      · exact .inr ⟨token', token_i, promoted,
          h.inSimpleTable holds closes simple none token_i promoted (Nat.le_add_right ..)⟩

end Release

/-! ### Runs -/

/-- **One more token keeps the ledger**, and what is settled stays settled. While a table is open
nothing is written. -/
theorem Ledger.add (strict : settings.strict = false) (h : Ledger settings tokens settled)
    (token : Token) :
    ∃ new, Ledger settings (tokens ++ [token]) (settled ++ new) ∧
      ((tableAfter settings (tokens ++ [token])).isSome = true →
        (editAll settings (tokens ++ [token])).written = (editAll settings tokens).written) := by
  have unchanged (written : ((editAll settings tokens).outline.edit settings token).written = []) :
      (editAll settings (tokens ++ [token])).written = (editAll settings tokens).written := by
    apply Array.ext'
    rw [editAll_snoc strict, Report.toList_written_add, written, List.append_nil]
  obtain ⟨-, delivers⟩ := (editAll settings tokens).outline.edit_spec settings token
  cases delivers with
  | written table after written =>
    have none : tableAfter settings (tokens ++ [token]) = none := by
      rw [tableAfter_snoc strict, after]
    have closed : tableAfter settings tokens = Option.none := by
      unfold tableAfter
      cases open_ : (editAll settings tokens).outline.table with
      | none => rfl
      | some t =>
        rw [Outline.tableWith_of_some open_] at table
        cases table
    have all := h.all_settled closed
    refine ⟨[((editAll settings tokens).outline.share settings.options token).piece],
      h.settle strict token none (by simp [all]) ?_ fun i p at_i => ?_, fun open_ => ?_⟩
    · rw [written]
      simpa using congrArg textOf
        (fragments_shares [(editAll settings tokens).outline.share settings.options token])
    · obtain ⟨rfl, rfl⟩ : i = 0 ∧
          p = ((editAll settings tokens).outline.share settings.options token).piece := by
        rcases i with _ | i
        · simpa [eq_comm] using at_i
        · simp at at_i
      refine ⟨_, ?_, rfl, .inl rfl⟩
      rw [sharesFrom_snoc strict, all, Nat.add_zero]
      simp
    · rw [none] at open_
      cases open_
  | held t table _ after written =>
    exact ⟨[], by simpa using h.hold strict token table after written, fun _ => unchanged written⟩
  | released t table closes after written =>
    obtain ⟨new, ledger⟩ := h.release strict table closes after written
    refine ⟨new, ledger, fun open_ => ?_⟩
    rw [tableAfter_snoc strict, after] at open_
    cases open_

/-- The ledgers of all beginnings of a run: what is settled at one is settled later. -/
def Chronicle (settings : Settings) (tokens : List Token) (settled : List Piece) : Prop :=
  ∀ n, n ≤ tokens.length → ∃ m, Ledger settings (tokens.take n) (settled.take m) ∧
    m ≤ settled.length ∧ (n = tokens.length → m = settled.length)

/-- **A run goes on with its ledgers.** -/
theorem Chronicle.append (strict : settings.strict = false) : ∀ (more : List Token)
    {tokens : List Token} {settled : List Piece}, Chronicle settings tokens settled →
    ∃ new, Chronicle settings (tokens ++ more) (settled ++ new)
  | [], _, _, h => ⟨[], by simpa using h⟩
  | token :: rest, tokens, settled, h => by
    obtain ⟨m, ledger, -, all⟩ := h tokens.length (Nat.le_refl _)
    rw [List.take_length, all rfl, List.take_length] at ledger
    obtain ⟨new, ledger', -⟩ := ledger.add strict token
    have next : Chronicle settings (tokens ++ [token]) (settled ++ new) := by
      intro n le
      rcases Nat.lt_or_ge tokens.length n with lt | ge
      · have all : n = (tokens ++ [token]).length := by
          simp only [List.length_append, List.length_singleton] at le ⊢
          omega
        refine ⟨(settled ++ new).length, ?_, Nat.le_refl _, fun _ => rfl⟩
        rw [all, List.take_length, List.take_length]
        exact ledger'
      · obtain ⟨m, ledger, le', -⟩ := h n ge
        refine ⟨m, ?_, ?_, fun e => ?_⟩
        · rw [List.take_append_of_le_length ge, List.take_append_of_le_length le']
          exact ledger
        · rw [List.length_append]
          omega
        · rw [List.length_append, List.length_singleton] at e
          omega
    obtain ⟨new', chronicle⟩ := Chronicle.append strict rest next
    exact ⟨new ++ new', by simpa using chronicle⟩

end HtmlMend.Page
