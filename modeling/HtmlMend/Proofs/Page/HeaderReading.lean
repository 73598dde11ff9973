import HtmlMend.Proofs.Markup.Source
import HtmlMend.Proofs.Markup.Unique
import HtmlMend.Proofs.Page.Conservation
import HtmlMend.Proofs.Style.Characters
import HtmlMend.Proofs.Table.RowHeader

/-! # Pages: a row header is read as it was written

What is written for the start tag of a data cell that becomes a row header is read as one start tag,
whose attributes have, in order, the texts that those of the data cell had, but for the style that
is merged in and the scope at the end (`headerStart_read`). A text that one tag has as a value is
without one of the two quotes, so that it can stand between those as it is (`escape_of_isQuotable`),
and lower case is its own lower case, so that the names are read as they are. -/

namespace HtmlMend.Markup

variable {xml : Bool}

/-! ### Values between quotes -/

/-- A text is without one of the two quotes. -/
def IsQuotable (value : String) : Prop := '"' ∉ value.toList ∨ '\'' ∉ value.toList

theorem escape_of_not_mem {quote : Quote} {value : String} (absent : quote.char ∉ value.toList) :
    escape quote true value = value := by
  have same : ∀ cs : List Char, quote.char ∉ cs → cs.flatMap (escapeChar quote true) = cs := by
    intro cs
    induction cs with
    | nil => exact fun _ => rfl
    | cons c cs ih =>
      intro absent
      rw [List.mem_cons, not_or] at absent
      have here : escapeChar quote true c = [c] := by
        rw [escapeChar, if_neg (Ne.symm absent.1), if_pos rfl]
      rw [List.flatMap_cons, here, ih absent.2]
      rfl
  rw [escape, same _ absent, String.ofList_toList]

/-- **A text without one of the quotes** is written as it is. -/
theorem escape_of_isQuotable {value : String} (h : IsQuotable value) :
    escape (Quote.choose value) true value = value := by
  refine escape_of_not_mem ?_
  unfold Quote.choose
  split
  · next single =>
    simp only [Bool.and_eq_true, Bool.not_eq_true', List.contains_eq_mem, decide_eq_true_eq,
      decide_eq_false_iff_not] at single
    exact single.2
  · next double =>
    intro (inside : '"' ∈ value.toList)
    have other : '\'' ∉ value.toList := h.resolve_left fun absent => absent inside
    simp [inside, other] at double

theorem WrittenValue.Valid.isQuotable {v : WrittenValue} (valid : v.Valid) :
    IsQuotable (String.ofList v.text) := by
  rw [IsQuotable, String.toList_ofList]
  cases quote : v.quote with
  | some q =>
    obtain ⟨rfl | rfl, absent⟩ := valid.quoted q quote
    · exact .inl absent
    · exact .inr absent
  | none =>
    obtain ⟨inside, -⟩ := valid.unquoted quote
    exact .inl fun mem => absurd (inside '"' mem) (by decide)

/-- No name of an attribute of the tag was written with a dotted capital I. -/
def StartTag.HasPlainNames (tag : StartTag) : Prop :=
  ∃ (w : WrittenTag) (xml : Bool), w.Valid xml ∧ tag.raw = String.ofList w.raw ∧
    ∀ a ∈ w.attributes, 'İ' ∉ a.name

theorem StartTag.HasPlainNames.of_valid {w : WrittenTag} {line : Option Int}
    (plain : (w.startTag line).HasPlainNames) (valid : w.Valid xml) :
    ∀ a ∈ w.attributes, 'İ' ∉ a.name := by
  obtain ⟨w', xml', valid', raw, plain⟩ := plain
  obtain rfl := WrittenTag.eq_of_raw_eq valid valid' (String.ofList_inj.mp raw)
  exact plain

/-- A tag without a dotted capital I has plain names. -/
theorem PassesOn.hasPlainNames {tag : StartTag} (passed : PassesOn xml tag)
    (absent : 'İ' ∉ tag.raw.toList) : tag.HasPlainNames := by
  obtain ⟨w, line, valid, rfl⟩ := passed.exists_written
  refine ⟨w, xml, valid, rfl, fun a mem inside => absent ?_⟩
  have raw : 'İ' ∈ attributesRaw w.attributes :=
    List.mem_flatMap.mpr ⟨a, mem, by simp [WrittenAttribute.raw, inside]⟩
  simp [WrittenTag.startTag, WrittenTag.raw, raw]

end HtmlMend.Markup

namespace HtmlMend.Page

open Markup Output Table

variable {xml : Bool} {w : WrittenTag} {line : Option Int}

theorem isQuotable_merge {style : String} (h : IsQuotable style) :
    IsQuotable (Style.merge style headerLeading headerDefaults) := by
  have plain {c : Char} (quote : c = '"' ∨ c = '\'') (absent : c ∉ style.toList) :
      c ∉ (Style.merge style headerLeading headerDefaults).toList := by
    intro mem
    rcases Style.mem_merge mem with inside | ⟨text, isText, inside⟩ | separator
    · exact absent inside
    · have texts : (headerLeading ++ headerDefaults).all fun text =>
          !text.toList.contains '"' && !text.toList.contains '\'' := by decide
      have clean := List.all_eq_true.mp texts text isText
      simp only [Bool.and_eq_true, Bool.not_eq_true', List.contains_eq_mem,
        decide_eq_false_iff_not] at clean
      rcases quote with rfl | rfl
      · exact clean.1 inside
      · exact clean.2 inside
    · rcases quote with rfl | rfl <;> exact absurd separator (by decide)
  exact h.imp (plain (.inl rfl)) (plain (.inr rfl))

section Cell
variable (valid : w.Valid xml)
include valid

theorem isQuotable_of_mem_sourceAttrs {name value : String}
    (mem : (name, some value) ∈ (w.startTag line).sourceAttrs.toList) : IsQuotable value := by
  obtain ⟨a, written, -, source, -⟩ := WrittenTag.exists_of_mem_sourceAttrs mem
  obtain ⟨v, hasValue, rfl⟩ := Option.map_eq_some_iff.mp source
  exact ((valid.follows.2.valid a written).value v hasValue).isQuotable

theorem isQuotable_of_mem_headerAttrs (absent : "scope" ∉ w.openTag.attrs.names)
    {name value : String}
    (mem : (name, some value) ∈ (headerAttrs (w.startTag line).sourceAttrs).toList) :
    IsQuotable value := by
  rw [toList_headerAttrs (by rwa [w.names_sourceAttrs]), List.mem_append] at mem
  have style : IsQuotable ((((w.startTag line).sourceAttrs.get? "style").join).getD "") := by
    cases get : (w.startTag line).sourceAttrs.get? "style" with
    | none => exact .inl (by decide)
    | some source =>
      cases source with
      | none => exact .inl (by decide)
      | some text => exact isQuotable_of_mem_sourceAttrs valid (NameMap.mem_of_get? get)
  rcases mem with pair | scope
  · rcases eq_or_mem_of_mem_styledPairs pair with merged | mem
    · obtain rfl := Option.some.inj (Prod.mk.inj merged).2
      exact isQuotable_merge style
    · exact isQuotable_of_mem_sourceAttrs valid mem
  · obtain rfl := Option.some.inj (Prod.mk.inj (List.mem_singleton.mp scope)).2
    exact .inl (by decide)

end Cell

theorem lower_of_mem_headerAttrs {n : String}
    (mem : n ∈ (headerAttrs (w.startTag line).sourceAttrs).names) : Text.lower n = n := by
  rcases mem_names_headerAttrs.mp mem with mem | rfl | rfl
  · rw [w.names_sourceAttrs, WrittenTag.openTag, tagOf, OpenTag.mem_names_addAll,
      NameMap.names_empty] at mem
    obtain ⟨a, -, rfl⟩ := List.mem_map.mp (mem.resolve_left (by simp))
    exact Text.lower_lower _
  · decide
  · decide

/-- **The start tag of a row header**, written for the start tag of a data cell that a scanner
passes on, is read as a start tag with the same attributes as they were written: only the style is
merged, and a scope is added. What had no value has none, unless it is the style. -/
theorem headerStart_read {tag : StartTag} (passed : PassesOn xml tag) (plain : tag.HasPlainNames)
    (absent : "scope" ∉ tag.attrs.names) :
    ∃ th last, documentTokens xml (Fragment.headerStart (headerAttrs tag.sourceAttrs)).text =
        [.startTag th, .endOfInput last ""] ∧
      th.name = "th" ∧ th.selfClosing = false ∧
      th.sourceAttrs.toList = styledPairs tag.sourceAttrs ++ [("scope", some "row")] ∧
      ∀ name, name ≠ "style" → tag.attrs.get? name = some none → th.attrs.get? name = some none := by
  obtain ⟨w, line, valid, rfl⟩ := passed.exists_written
  have absent : "scope" ∉ w.openTag.attrs.names := absent
  have low : ∀ n ∈ (headerAttrs (w.startTag line).sourceAttrs).names, Text.lower n = n :=
    fun _ mem => lower_of_mem_headerAttrs mem
  have toList : (headerAttrs (w.startTag line).sourceAttrs).toList =
      styledPairs (w.startTag line).sourceAttrs ++ [("scope", some "row")] :=
    toList_headerAttrs (by rwa [w.names_sourceAttrs])
  have written := valid_headerTag line valid (plain.of_valid valid)
  rw [text_headerStart]
  refine ⟨_, _, documentTokens_startTag written, key_headerTag _, rfl, ?_, fun name other bare => ?_⟩
  · rw [WrittenTag.sourceAttrs_ofStart low, ← toList]
    refine (List.map_congr_left fun e mem => ?_).trans (List.map_id _)
    obtain ⟨name, _ | value⟩ := e
    · rfl
    · rw [Option.map_some, escape_of_isQuotable (isQuotable_of_mem_headerAttrs valid absent mem)]
      rfl
  · have mem : (name, none) ∈ (headerAttrs (w.startTag line).sourceAttrs).toList := by
      rw [toList]
      exact List.mem_append_left _
        (mem_styledPairs_of_ne (WrittenTag.mem_sourceAttrs_of_bare bare) other)
    refine NameMap.get?_of_mem ?_
    change _ ∈ (WrittenTag.ofStart true "th" _).openTag.attrs.toList
    rw [WrittenTag.attrs_ofStart low]
    exact List.mem_map.mpr ⟨_, mem, rfl⟩

/-- A data cell with an attribute of each kind: without quotes, with a quote in it, without a value,
and a style. -/
theorem headerStart_read_cell :
    let tag : StartTag := ⟨"td", .ofList [("class", some "a"), ("title", some "x \"y\""),
      ("hidden", none), ("style", some "color: red")], false,
      .ofList [("class", ⟨10, 11⟩), ("title", ⟨19, 24⟩), ("style", ⟨40, 50⟩)], some 1,
      "<td Class=a title='x \"y\"' hidden STYLE=\"color: red\">"⟩
    (PassesOn false tag ∧ tag.HasPlainNames ∧ "scope" ∉ tag.attrs.names) ∧ ∃ th last,
      documentTokens false (Fragment.headerStart (headerAttrs tag.sourceAttrs)).text =
          [.startTag th, .endOfInput last ""] ∧
        th.name = "th" ∧ th.selfClosing = false ∧
        th.sourceAttrs.toList = styledPairs tag.sourceAttrs ++ [("scope", some "row")] ∧
        ∀ name, name ≠ "style" → tag.attrs.get? name = some none →
          th.attrs.get? name = some none := by
  intro tag
  have passed : PassesOn false tag := ⟨false, tag.raw.toList, none, by decide +kernel⟩
  have plain : tag.HasPlainNames := passed.hasPlainNames (by decide)
  have absent : "scope" ∉ tag.attrs.names := by decide
  exact ⟨⟨passed, plain, absent⟩, headerStart_read passed plain absent⟩

end HtmlMend.Page
