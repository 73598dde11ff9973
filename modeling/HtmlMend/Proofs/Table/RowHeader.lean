import HtmlMend.Proofs.Markup.Writing
import HtmlMend.Table

/-! # Tables: a row header in writing

The attributes of a row header are those of the data cell whose place it takes, with a style merged
into them and a scope at the end (`toList_headerAttrs`). Its start tag is a written one, and the
scope makes the table complicated (`exists_headerTag`): row headers are written once. -/

namespace HtmlMend.Table

open Markup Output

/-- The names of the attributes of a row header are those of the data cell, and two more. -/
theorem mem_names_headerAttrs {attrs : Attributes} {name : String} :
    name ∈ (headerAttrs attrs).names ↔ name ∈ attrs.names ∨ name = "style" ∨ name = "scope" := by
  rw [headerAttrs, NameMap.mem_names_insert, ← or_assoc]
  refine or_congr_left ?_
  split
  · exact NameMap.mem_names_insert
  · rw [NameMap.mem_names_ofList, List.map_cons, List.mem_cons, or_comm]
    rfl

theorem isTagName_th : IsTagName "th".toList := by decide +kernel

theorem isAttributeName_style {xml : Bool} : IsAttributeName xml "style".toList :=
  IsTagName.isAttributeName (by decide +kernel)

theorem isAttributeName_scope {xml : Bool} : IsAttributeName xml "scope".toList :=
  IsTagName.isAttributeName (by decide +kernel)

/-- The attributes in order, with a style merged into them: in the place of the style that they
have, or before all others. -/
def styledPairs (attrs : Attributes) : List (String × Option String) :=
  let style := Style.merge (((attrs.get? "style").join).getD "") headerLeading headerDefaults
  if attrs.contains "style" then
    attrs.toList.map fun e => if e.1 = "style" then ("style", some style) else e
  else ("style", some style) :: attrs.toList

theorem eq_or_mem_of_mem_styledPairs {attrs : Attributes} {e : String × Option String}
    (mem : e ∈ styledPairs attrs) :
    e = ("style", some (Style.merge (((attrs.get? "style").join).getD "") headerLeading
      headerDefaults)) ∨ e ∈ attrs.toList := by
  unfold styledPairs at mem
  dsimp only at mem
  split at mem
  · obtain ⟨e', isPair, rfl⟩ := List.mem_map.mp mem
    split
    · exact .inl rfl
    · exact .inr isPair
  · exact List.mem_cons.mp mem

theorem mem_styledPairs_of_ne {attrs : Attributes} {e : String × Option String}
    (mem : e ∈ attrs.toList) (other : e.1 ≠ "style") : e ∈ styledPairs attrs := by
  unfold styledPairs
  dsimp only
  split
  · exact List.mem_map.mpr ⟨e, mem, if_neg other⟩
  · exact List.mem_cons_of_mem _ mem

/-- **The attributes of a row header in order**: those of the data cell with the style, and then the
scope. -/
theorem toList_headerAttrs {attrs : Attributes} (absent : "scope" ∉ attrs.names) :
    (headerAttrs attrs).toList = styledPairs attrs ++ [("scope", some "row")] := by
  unfold headerAttrs styledPairs
  generalize Style.merge (((attrs.get? "style").join).getD "") headerLeading headerDefaults = style
  dsimp only
  by_cases styled : "style" ∈ attrs.names
  · rw [if_pos ((NameMap.contains_iff ..).mpr styled), if_pos ((NameMap.contains_iff ..).mpr styled)]
    have fresh : "scope" ∉ (attrs.insert "style" (some style)).names := fun mem =>
      (NameMap.mem_names_insert.mp mem).elim absent (by decide)
    rw [NameMap.toList_insert_of_not_mem fresh]
    refine congrArg (· ++ _) ?_
    change NameMap.insertPairs attrs.toList "style" (some style) = _
    exact if_pos (by simpa [NameMap.names] using styled)
  · have unstyled : ¬attrs.contains "style" = true := by rwa [NameMap.contains_iff]
    rw [if_neg unstyled, if_neg unstyled]
    have fresh : "scope" ∉ (NameMap.ofList (("style", some style) :: attrs.toList)).names := by
      rw [NameMap.mem_names_ofList, List.map_cons, List.mem_cons, not_or]
      exact ⟨by simp, absent⟩
    rw [NameMap.toList_insert_of_not_mem fresh, NameMap.toList_ofList]
    exact List.nodup_cons.mpr ⟨styled, attrs.nodup⟩

section Written
variable {xml : Bool} {w : WrittenTag} (line : Option Int)

theorem valid_headerTag (valid : w.Valid xml) (plain : ∀ a ∈ w.attributes, 'İ' ∉ a.name) :
    (WrittenTag.ofStart true "th" (headerAttrs (w.startTag line).sourceAttrs)).Valid xml := by
  have names : (w.startTag line).sourceAttrs.names = w.openTag.attrs.names :=
    NameMap.names_mapWithName ..
  refine WrittenTag.valid_ofStart isTagName_th fun n mem => ?_
  rcases mem_names_headerAttrs.mp mem with mem | rfl | rfl
  · rw [names, WrittenTag.openTag, tagOf, OpenTag.mem_names_addAll, NameMap.names_empty] at mem
    obtain ⟨a, written, rfl⟩ := List.mem_map.mp (mem.resolve_left (by simp))
    exact (valid.follows.2.valid a written).name.lower (plain a written)
  · exact isAttributeName_style
  · exact isAttributeName_scope

theorem text_headerStart (attrs : Attributes) : (Fragment.headerStart attrs).text =
    String.ofList (WrittenTag.ofStart true "th" attrs).raw := by
  rw [WrittenTag.raw_ofStart, String.ofList_toList]
  rfl

theorem key_headerTag (attrs : Attributes) : (WrittenTag.ofStart true "th" attrs).key = "th" := by
  change Text.lower (String.ofList "th".toList) = "th"
  decide

/-- **The start tag of a row header** is a written one, with a scope. -/
theorem exists_headerTag (valid : w.Valid xml) (tidy : w.IsTidy) :
    ∃ w' : WrittenTag, w'.Valid xml ∧ w'.key = "th" ∧ "scope" ∈ w'.openTag.attrs.names ∧
      (Fragment.headerStart (headerAttrs (w.startTag line).sourceAttrs)).text =
        String.ofList w'.raw := by
  refine ⟨_, valid_headerTag line valid fun a mem => (tidy a mem).2, key_headerTag _, ?_,
    text_headerStart _⟩
  exact WrittenTag.mem_names_ofStart.mpr
    ⟨"scope", mem_names_headerAttrs.mpr (.inr (.inr rfl)), by decide⟩

end Written

end HtmlMend.Table
