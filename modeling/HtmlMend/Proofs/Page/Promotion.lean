import HtmlMend.Table

/-! # Pages: promotion entry by entry

A simple table is rendered entry by entry; all that is carried from one entry to the next is whether
the end tag of a row header is due (`Table.dueAfter`). So the rendering of two stretches of entries
is that of the one and then that of the other (`renderSimple_append`). -/

namespace HtmlMend.Table

open Output

/-- The fragment for an entry of a simple table, where the end tag of a row header may be due. -/
def promote (primary : Option Nat) (due : Bool) (e : Entry) : Fragment :=
  if isPromoted primary e then .headerStart (headerAttrs (e.attrs.getD .empty))
  else if due && e.closes = some .data then .headerEnd
  else e.fragment

/-- Whether the end tag of a row header is due after an entry. -/
def dueNext (primary : Option Nat) (due : Bool) (e : Entry) : Bool :=
  if isPromoted primary e then true
  else if due && e.closes = some .data then false
  else due && e.attrs.isNone

/-- Whether the end tag of a row header is due after entries. -/
def dueAfter (primary : Option Nat) (due : Bool) (entries : List Entry) : Bool :=
  entries.foldl (dueNext primary) due

variable (primary : Option Nat)

theorem renderSimple_cons (due : Bool) (e : Entry) (rest : List Entry) :
    renderSimple primary due (e :: rest) =
      promote primary due e :: renderSimple primary (dueNext primary due e) rest := by
  rw [renderSimple, promote, dueNext]
  split
  · rfl
  · split <;> rfl

theorem renderSimple_append (ys : List Entry) : ∀ (xs : List Entry) (due : Bool),
    renderSimple primary due (xs ++ ys) =
      renderSimple primary due xs ++ renderSimple primary (dueAfter primary due xs) ys
  | [], due => rfl
  | x :: xs, due => by
    rw [List.cons_append, renderSimple_cons, renderSimple_cons, renderSimple_append ys xs]
    rfl

theorem promote_of_plain (due : Bool) {e : Entry} (column : e.column = none)
    (closes : e.closes = none) : promote primary due e = e.fragment := by
  have notStart : isPromoted primary e = false := by simp [isPromoted, column]
  simp [promote, notStart, closes]

theorem dueNext_of_plain (due : Bool) {e : Entry} (column : e.column = none)
    (closes : e.closes = none) (attrs : e.attrs = none) : dueNext primary due e = due := by
  have notStart : isPromoted primary e = false := by simp [isPromoted, column]
  simp [dueNext, notStart, closes, attrs]

theorem renderSimple_of_forall : ∀ {entries : List Entry},
    (∀ e ∈ entries, isPromoted primary e = false) →
    renderSimple primary false entries = entries.map Entry.fragment
  | [], _ => rfl
  | e :: rest, h => by
    have here := h e (by simp)
    have fragment : promote primary false e = e.fragment := by simp [promote, here]
    have due : dueNext primary false e = false := by simp [dueNext, here]
    rw [renderSimple_cons, fragment, due, List.map_cons,
      renderSimple_of_forall fun x mem => h x (List.mem_cons_of_mem e mem)]

theorem dueAfter_of_forall : ∀ {entries : List Entry},
    (∀ e ∈ entries, isPromoted primary e = false) → dueAfter primary false entries = false
  | [], _ => rfl
  | e :: rest, h => by
    have due : dueNext primary false e = false := by simp [dueNext, h e (by simp)]
    rw [dueAfter, List.foldl_cons, due]
    exact dueAfter_of_forall fun x mem => h x (List.mem_cons_of_mem e mem)

theorem isPromoted_none (e : Entry) : isPromoted none e = false := by
  unfold isPromoted
  split
  · next h => cases h
  · rfl

/-- The column whose cells are promoted when the table is rendered, if there is one. -/
def verdict (t : Table) : Option Nat := if t.simple then t.primaryColumn else none

/-- What is known of a table from its cells. -/
def known (t : Table) : Table := { t with line := none, depth := 0, entries := #[] }

theorem verdict_known (t : Table) : t.known.verdict = t.verdict := rfl

theorem render_eq_renderSimple (t : Table) :
    t.render = renderSimple t.verdict false t.entries.toList := by
  unfold render verdict
  split
  · rfl
  · rw [renderSimple_of_forall none fun e _ => isPromoted_none e]

/-- The table with more entries. -/
def addEntries (t : Table) (entries : List Entry) : Table :=
  { t with entries := t.entries ++ entries }

@[simp] theorem toList_addEntries (t : Table) (entries : List Entry) :
    (t.addEntries entries).entries.toList = t.entries.toList ++ entries := by
  simp [addEntries]

@[simp] theorem addEntries_nil (t : Table) : t.addEntries [] = t := by
  simp [addEntries]

theorem addEntries_append (t : Table) (xs ys : List Entry) :
    t.addEntries (xs ++ ys) = (t.addEntries xs).addEntries ys := by
  simp only [addEntries, Table.mk.injEq, and_true, true_and]
  apply Array.ext'
  simp

theorem addEntry_eq (t : Table) (entry : Entry) : t.addEntry entry = t.addEntries [entry] := by
  simp only [addEntry, addEntries, Table.mk.injEq, and_true, true_and]
  apply Array.ext'
  simp

theorem render_addEntries (t : Table) {e : Entry} (column : e.column = none)
    (closes : e.closes = none) : (t.addEntries [e]).render = t.render ++ [e.fragment] := by
  unfold render
  have same : (t.addEntries [e]).primaryColumn = t.primaryColumn := rfl
  rw [same, toList_addEntries, renderSimple_append, renderSimple_cons,
    promote_of_plain _ _ column closes, List.map_append]
  cases simple : t.simple <;> simp [addEntries, simple, renderSimple]

end HtmlMend.Table
