import HtmlMend.Proofs.Markup.Form

/-! # Markup: what is of the grammar is read

`Form` is the grammar of constructs. A text of it is read as the construct that it is the form of
(`Form.completes`), so that a scanner accepts just the texts of the grammar (`completes_iff_form`).
A tag is read as it is spelled; any other construct is read up to the mark that ends it. -/

namespace HtmlMend.Markup

open Unfinished

variable {xml inScript : Bool}

/-! ### Texts up to a mark -/

theorem not_closes_of_split {d c : Char} {body xs ys : List Char}
    (first : ¬endMark d <:+: body ++ [d, d]) (split : body ++ [d, d] = xs ++ c :: ys) :
    ¬(c = '>' ∧ 2 ≤ trailing d xs) := by
  rintro ⟨rfl, two⟩
  obtain ⟨front, rfl⟩ := two_le_trailing.mp two
  exact first ⟨front, ys, by simp [endMark, split]⟩

theorem two_le_trailing_append (d : Char) (body : List Char) : 2 ≤ trailing d (body ++ [d, d]) :=
  two_le_trailing.mpr (List.suffix_append _ _)

theorem feed_comment {cs : List Char} (read : List Char)
    (goesOn : ∀ xs c ys, cs = xs ++ c :: ys → ¬(c = '>' ∧ 2 ≤ trailing '-' xs)) :
    (Unfinished.comment "" 0).feed xml inScript read cs =
      some (.comment (String.ofList cs) (trailing '-' cs)) := by
  let g (cs : List Char) : Unfinished := .comment (String.ofList cs) (trailing '-' cs)
  change (g []).feed xml inScript read cs = some (g ([] ++ cs))
  refine feed_of_goesOn read fun xs c ys split read => ?_
  have pushed : (String.ofList xs).push c = String.ofList (xs ++ [c]) := by simp
  simp only [g, List.nil_append, Unfinished.next, nextInComment, pushed]
  by_cases dash : c = '-'
  · rw [if_pos dash, dash, trailing_snoc_self]
  · rw [if_neg dash, if_neg (goesOn xs c ys split), trailing_snoc_of_ne dash]

theorem feed_cdata {cs : List Char} (read : List Char)
    (goesOn : ∀ xs c ys, cs = xs ++ c :: ys → ¬(c = '>' ∧ 2 ≤ trailing ']' xs)) :
    (Unfinished.cdata 0).feed xml inScript read cs = some (.cdata (trailing ']' cs)) := by
  let g (cs : List Char) : Unfinished := .cdata (trailing ']' cs)
  change (g []).feed xml inScript read cs = some (g ([] ++ cs))
  refine feed_of_goesOn read fun xs c ys split read => ?_
  simp only [g, List.nil_append, Unfinished.next, nextInCdata]
  by_cases bracket : c = ']'
  · rw [if_pos bracket, bracket, trailing_snoc_self]
  · rw [if_neg bracket, if_neg (goesOn xs c ys split), trailing_snoc_of_ne bracket]

/-- **A comment is read** up to the first mark that ends it. -/
theorem completes_comment {body : List Char} (first : ¬endMark '-' <:+: body ++ ['-', '-']) :
    Completes xml false (['<', '!', '-', '-'] ++ body ++ endMark '-')
      (.comment (String.ofList body)) := by
  have opened : Unfinished.begun.feed xml false ['<'] ['!', '-', '-'] = some (.comment "" 0) := by
    rfl
  have fed : (Unfinished.comment "" 0).feed xml false (['<'] ++ ['!', '-', '-'])
      (body ++ ['-', '-']) = _ := feed_comment _ fun _ _ _ => not_closes_of_split first
  refine ⟨['!', '-', '-'] ++ (body ++ ['-', '-']), '>', _, by simp [endMark],
    feed_trans opened fed, ?_⟩
  have data : ((body ++ ['-', '-']).take ((String.ofList (body ++ ['-', '-'])).length - 2)) =
      body := by
    rw [String.length_ofList, List.length_append]
    exact List.take_left
  rw [Unfinished.next, nextInComment, if_neg (by decide),
    if_pos ⟨rfl, two_le_trailing_append '-' body⟩, String.toList_ofList, data]

/-- **A CDATA section is read** up to the first mark that ends it. -/
theorem completes_cdata {raw : List Char} (form : IsCdataSection raw) :
    Completes xml false raw .cdata := by
  obtain ⟨body, rfl, first⟩ := form
  have opened : Unfinished.begun.feed xml false ['<'] ('!' :: '[' :: cdataWord) =
      some (.cdataBegun []) := by rfl
  have fed : (Unfinished.cdata 0).feed xml false cdataOpening (body ++ [']', ']']) = _ :=
    feed_cdata _ fun _ _ _ => not_closes_of_split first
  -- The word is behind, and the section goes on as one without brackets at its end.
  obtain ⟨c, cs, split⟩ := List.exists_cons_of_ne_nil
    (show body ++ [']', ']'] ≠ [] by simp)
  have begun : (Unfinished.cdataBegun []).feed xml false cdataOpening (body ++ [']', ']']) =
      some (.cdata (trailing ']' (body ++ [']', ']']))) := by
    rw [split] at fed ⊢
    exact fed
  refine ⟨('!' :: '[' :: cdataWord) ++ (body ++ [']', ']']), '>', _,
    by simp [endMark, cdataOpening], feed_trans opened begun, ?_⟩
  rw [Unfinished.next, nextInCdata, if_neg (by decide),
    if_pos ⟨rfl, two_le_trailing_append ']' body⟩]

theorem exists_cons_of_isDoctype {text : List Char} (h : isDoctype (String.ofList text) = true) :
    ∃ c cs, text = c :: cs ∧ c.toLower = 'd' := by
  rw [isDoctype, String.toList_ofList] at h
  cases text with
  | nil => simp [dropWord] at h
  | cons c cs =>
    by_cases letter : c.toLower = 'd'
    · exact ⟨c, cs, rfl, letter⟩
    · simp [dropWord, letter] at h

/-- **A document type is read** up to the first `>`. -/
theorem completes_doctype {text : List Char} (accepted : isDoctype (String.ofList text) = true)
    (first : '>' ∉ text) :
    Completes xml false ('<' :: '!' :: (text ++ ['>'])) (.doctype (String.ofList text)) := by
  obtain ⟨c, cs, rfl, letter⟩ := exists_cons_of_isDoctype accepted
  have dash : c ≠ '-' := by
    rintro rfl
    exact absurd letter (by decide)
  have bracket : c ≠ '[' := by
    rintro rfl
    exact absurd letter (by decide)
  have closes : c ≠ '>' := fun e => first (by simp [e])
  have mark : Unfinished.begun.next xml false (String.ofList ['<']) '!' = .more .declarationBegun := by
    rfl
  have begun : Unfinished.declarationBegun.next xml false (String.ofList ['<', '!']) c =
      .more (.doctype (String.ofList [c])) := by
    simp [Unfinished.next, nextInDoctype, dash, bracket, closes]
  have fed : (Unfinished.doctype (String.ofList [c])).feed xml false ['<', '!', c] cs =
      some (.doctype (String.ofList (c :: cs))) := by
    refine feed_of_grows _ fun xs d ys split read => ?_
    have goesOn : d ≠ '>' := fun e => first (by simp [split, e])
    rw [Unfinished.next, nextInDoctype, if_neg goesOn]
  refine ⟨'!' :: c :: cs, '>', .doctype (String.ofList (c :: cs)), by simp, ?_, ?_⟩
  · rw [feed_cons mark, List.singleton_append, feed_cons begun]
    exact fed
  · rw [Unfinished.next, nextInDoctype, if_pos rfl, if_pos accepted]

/-! ### Declarations -/

/-- **An XML declaration is read.** -/
theorem completes_xmlDeclaration {raw : List Char} (form : IsXmlDeclaration xml raw) :
    Completes xml false raw .xmlDeclaration := by
  obtain ⟨as, sp, rfl, spaces, linked⟩ := form
  have opened : Unfinished.begun.feed xml false ['<'] ['?', 'x', 'm', 'l'] =
      some (.xmlBegun []) := by rfl
  have stands : StandsFor xml false (fun _ => True) (.xmlBegun []) xmlOpening
      ⟨.xmlDeclaration, .empty, .empty⟩ := standsFor_of_next fun c _ => rfl
  have follows : Follows xml (fun _ => True) as sp '?' := ⟨trivial, linked⟩
  obtain ⟨u, fed, next⟩ := stands.feed_attributes spaces (by decide) (by decide) follows
  have owned : (OpenTag.addAll ⟨.xmlDeclaration, .empty, .empty⟩ xmlOpening.length as).owner =
      .xmlDeclaration := by simp
  have mark : isSpace '?' = false ∧ isNameStart '?' = false := by decide
  have more : u.next xml false (String.ofList (xmlOpening ++ (attributesRaw as ++ sp))) '?' =
      .more .xmlEnd := by
    rw [next, OpenTag.next, owned]
    simp [mark]
  refine ⟨_, '>', .xmlEnd, ?_, feed_trans (feed_trans opened fed) (feed_cons more []), rfl⟩
  simp [xmlOpening]

/-! ### Constructs -/

/-- **What is of the grammar is read.** -/
theorem Form.completes {raw : List Char} {k : Construct} (form : Form xml inScript raw k) :
    Completes xml inScript raw k := by
  cases form with
  | startTag w valid script => subst script; exact w.completes valid
  | endTag name sp isName spaces script => exact completes_endTag isName spaces script
  | comment body first script => subst script; exact completes_comment first
  | doctype text accepted first script => subst script; exact completes_doctype accepted first
  | cdata raw form script => subst script; exact completes_cdata form
  | xmlDeclaration raw form script => subst script; exact completes_xmlDeclaration form

/-- **A scanner accepts just the texts of the grammar.** -/
theorem completes_iff_form {raw : List Char} {k : Construct} :
    Completes xml inScript raw k ↔ Form xml inScript raw k :=
  ⟨Completes.form, Form.completes⟩

theorem Form.outside {raw : List Char} {k : Construct} (form : Form xml inScript raw k) :
    Form xml false raw k := by
  cases form with
  | startTag w valid script => exact .startTag w valid rfl
  | endTag name sp isName spaces script => exact .endTag name sp isName spaces nofun
  | comment body first script => exact .comment body first rfl
  | doctype text accepted first script => exact .doctype text accepted first rfl
  | cdata raw form script => exact .cdata raw form rfl
  | xmlDeclaration raw form script => exact .xmlDeclaration raw form rfl

end HtmlMend.Markup
