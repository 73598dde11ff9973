import HtmlMend.Proofs.Page.Step

/-! # Pages: runs of the editor

A run that is not strict edits token after token, each in the outline that the ones before it have
left (`editAll_snoc`). The shares of its tokens (`sharesFrom`) are the entries that go to the output
or through a table. -/

namespace HtmlMend.Page

open Markup Output

/-! ### Texts of fragments -/

@[simp] theorem textOf_nil : textOf [] = "" := by simp [textOf]

theorem textOf_cons (f : Fragment) (fs : List Fragment) : textOf (f :: fs) = f.text ++ textOf fs := by
  simp [textOf]

@[simp] theorem textOf_append (xs ys : List Fragment) :
    textOf (xs ++ ys) = textOf xs ++ textOf ys := by
  simp [textOf]

theorem textOf_filter : ∀ fs : List Fragment, textOf (fs.filter (·.text ≠ "")) = textOf fs
  | [] => rfl
  | f :: fs => by
    by_cases empty : f.text = ""
    · rw [List.filter_cons_of_neg (by simp [empty]), textOf_filter fs, textOf_cons, empty,
        String.empty_append]
    · rw [List.filter_cons_of_pos (by simp [empty]), textOf_cons, textOf_cons, textOf_filter fs]

/-! ### Runs -/

/-- A place in a list with one more element: the last one, or a place in the list. -/
theorem snoc_eq_append_cons {α : Type} {xs front back : List α} {x y : α} :
    xs ++ [x] = front ++ y :: back ↔ front = xs ∧ y = x ∧ back = [] ∨
      ∃ back', back = back' ++ [x] ∧ xs = front ++ y :: back' := by
  constructor
  · intro split
    rcases List.eq_nil_or_concat back with rfl | ⟨back, last, rfl⟩
    · obtain ⟨rfl, same⟩ := List.append_inj' split rfl
      cases same
      exact .inl ⟨rfl, rfl, rfl⟩
    · rw [List.concat_eq_append] at split ⊢
      rw [← List.cons_append, ← List.append_assoc] at split
      obtain ⟨rfl, same⟩ := List.append_inj' split rfl
      cases same
      exact .inr ⟨back, rfl, rfl⟩
  · rintro (⟨rfl, rfl, rfl⟩ | ⟨back', rfl, rfl⟩) <;> simp

/-- The report on tokens. -/
def editAll (settings : Settings) (tokens : List Token) : Report :=
  ({} : Report).addAll settings tokens

/-- The outline after tokens that come in an outline. -/
def outlineFrom (settings : Settings) (o : Outline) (tokens : List Token) : Outline :=
  tokens.foldl (fun o token => (o.edit settings token).outline) o

/-- The shares of tokens that come in an outline. -/
def sharesFrom (settings : Settings) (o : Outline) : List Token → List Share
  | [] => []
  | token :: rest =>
    o.share settings.options token :: sharesFrom settings (o.edit settings token).outline rest

/-- What is written for tokens that come in an outline. -/
def writtenFrom (settings : Settings) (o : Outline) : List Token → List Fragment
  | [] => []
  | token :: rest =>
    (o.edit settings token).written ++ writtenFrom settings (o.edit settings token).outline rest

namespace Report

variable {settings : Settings}

@[simp] theorem outline_add (r : Report) (token : Token) :
    (r.add settings token).outline = (r.outline.edit settings token).outline := rfl

@[simp] theorem toList_written_add (r : Report) (token : Token) :
    (r.add settings token).written.toList =
      r.written.toList ++ (r.outline.edit settings token).written := by
  simp [add]

theorem addAll_cons (strict : settings.strict = false) (r : Report) (token : Token)
    (rest : List Token) :
    r.addAll settings (token :: rest) = (r.add settings token).addAll settings rest := by
  rw [addAll, strict]

theorem addAll_append (strict : settings.strict = false) (ys : List Token) :
    ∀ (xs : List Token) (r : Report),
      r.addAll settings (xs ++ ys) = (r.addAll settings xs).addAll settings ys
  | [], _ => rfl
  | x :: xs, r => by
    rw [List.cons_append, addAll_cons strict, addAll_cons strict, addAll_append strict ys xs]

theorem outline_addAll (strict : settings.strict = false) : ∀ (tokens : List Token) (r : Report),
    (r.addAll settings tokens).outline = outlineFrom settings r.outline tokens
  | [], _ => rfl
  | token :: rest, r => by rw [addAll_cons strict, outline_addAll strict rest]; rfl

theorem toList_written_addAll (strict : settings.strict = false) : ∀ (tokens : List Token)
    (r : Report), (r.addAll settings tokens).written.toList =
      r.written.toList ++ writtenFrom settings r.outline tokens
  | [], r => by simp [addAll, writtenFrom]
  | token :: rest, r => by
    rw [addAll_cons strict, toList_written_addAll strict rest, toList_written_add, writtenFrom,
      List.append_assoc, outline_add]

/-- **Work on tokens** is work on the first of them and then on the others, unless it is refused
among the first. -/
theorem addAll_append_cases (ys : List Token) : ∀ (xs : List Token) {r : Report},
    r.ending = .complete →
    (r.addAll settings xs).ending = .complete ∧
        r.addAll settings (xs ++ ys) = (r.addAll settings xs).addAll settings ys ∨
      ∃ problem, (r.addAll settings xs).ending = .refused problem ∧
        r.addAll settings (xs ++ ys) = r.addAll settings xs
  | [], r, complete => .inl ⟨complete, rfl⟩
  | token :: rest, r, complete => by
    rw [List.cons_append, addAll, addAll]
    split
    · next problem _ _ => exact .inr ⟨problem, rfl, rfl⟩
    · exact addAll_append_cases ys rest (r := r.add settings token) complete

/-- **A report is on the first of the tokens**, and on all of them if it is complete or the work is
not strict. -/
theorem exists_take_addAll : ∀ (tokens : List Token) (r : Report), ∃ m ≤ tokens.length,
    (r.addAll settings tokens).outline = outlineFrom settings r.outline (tokens.take m) ∧
      (r.addAll settings tokens).written.toList =
        r.written.toList ++ writtenFrom settings r.outline (tokens.take m) ∧
      ((r.addAll settings tokens).ending = .complete ∨ settings.strict = false →
        m = tokens.length)
  | [], r => ⟨0, Nat.le_refl 0, rfl, by simp [addAll, writtenFrom], fun _ => rfl⟩
  | token :: rest, r => by
    rw [addAll]
    split
    · next problem strict _ =>
      refine ⟨1, by simp, rfl, by simp [writtenFrom], ?_⟩
      rintro (complete | lenient)
      · cases complete
      · cases strict.symm.trans lenient
    · obtain ⟨m, le, outline, written, all⟩ := exists_take_addAll rest (r.add settings token)
      refine ⟨m + 1, by simpa using le, outline, ?_, fun h => by simpa using all h⟩
      rw [written, toList_written_add, List.take_succ_cons, writtenFrom, List.append_assoc,
        outline_add]

end Report

variable {settings : Settings}

@[simp] theorem outlineFrom_nil (o : Outline) : outlineFrom settings o [] = o := rfl

@[simp] theorem outlineFrom_cons (o : Outline) (token : Token) (rest : List Token) :
    outlineFrom settings o (token :: rest) =
      outlineFrom settings (o.edit settings token).outline rest := rfl

theorem outlineFrom_append (xs ys : List Token) (o : Outline) :
    outlineFrom settings o (xs ++ ys) = outlineFrom settings (outlineFrom settings o xs) ys :=
  List.foldl_append

theorem writtenFrom_append (ys : List Token) : ∀ (xs : List Token) (o : Outline),
    writtenFrom settings o (xs ++ ys) =
      writtenFrom settings o xs ++ writtenFrom settings (outlineFrom settings o xs) ys
  | [], _ => rfl
  | x :: xs, o => by
    rw [List.cons_append, writtenFrom, writtenFrom, writtenFrom_append ys xs, List.append_assoc,
      outlineFrom_cons]

theorem sharesFrom_append (ys : List Token) : ∀ (xs : List Token) (o : Outline),
    sharesFrom settings o (xs ++ ys) =
      sharesFrom settings o xs ++ sharesFrom settings (outlineFrom settings o xs) ys
  | [], _ => rfl
  | x :: xs, o => by
    rw [List.cons_append, sharesFrom, sharesFrom, List.cons_append, sharesFrom_append ys xs]
    rfl

theorem sharesFrom_take : ∀ (tokens : List Token) (o : Outline) (n : Nat),
    sharesFrom settings o (tokens.take n) = (sharesFrom settings o tokens).take n
  | [], _, _ => by simp [sharesFrom]
  | _ :: _, _, 0 => rfl
  | token :: rest, o, n + 1 => by
    rw [List.take_succ_cons, sharesFrom, sharesFrom, List.take_succ_cons, sharesFrom_take rest]

@[simp] theorem length_sharesFrom : ∀ (tokens : List Token) (o : Outline),
    (sharesFrom settings o tokens).length = tokens.length
  | [], _ => rfl
  | token :: rest, o => by simp [sharesFrom, length_sharesFrom rest]

section Run
variable (strict : settings.strict = false)
include strict

theorem editAll_snoc (tokens : List Token) (token : Token) :
    editAll settings (tokens ++ [token]) = (editAll settings tokens).add settings token := by
  rw [editAll, Report.addAll_append strict, Report.addAll_cons strict]
  rfl

theorem text_editAll (tokens : List Token) :
    (editAll settings tokens).text = textOf (writtenFrom settings {} tokens) := by
  rw [Report.text, editAll, Report.toList_written_addAll strict]
  rfl

theorem sharesFrom_snoc (tokens : List Token) (token : Token) :
    sharesFrom settings {} (tokens ++ [token]) = sharesFrom settings {} tokens ++
      [(editAll settings tokens).outline.share settings.options token] := by
  rw [sharesFrom_append, editAll, Report.outline_addAll strict]
  rfl

end Run

end HtmlMend.Page
