import HtmlMend.Page.Editor
import HtmlMend.Proofs.Markup.Element
import HtmlMend.Proofs.Markup.Extension

/-! # Pages: a rule finds itself applied

What a rule makes of a written start tag is a written start tag again, to which the rule does
nothing more (`exists_retouched`): the start tag of the document is written anew each time, the
content of a generator ends with the suffix, and a table of contents has a title. -/

namespace HtmlMend.Page

open Markup Output

variable {xml : Bool} {w : WrittenTag}

/-- The rules make the one tag of the other, and do nothing more to it. Only the start tags of the
document, of a statement and of a navigation may change. -/
structure Retouched (xml : Bool) (w w' : WrittenTag) : Prop where
  valid : w'.Valid xml
  key : w'.key = w.key
  same : w' = w ∨ Element.ofName w.key = .html ∨ Element.ofName w.key = .metadata ∨
    Element.ofName w.key = .navigation
  written : ∀ line, (({} : Options).startTag (Element.ofName w.key) (w.startTag line)).text =
    String.ofList w'.raw
  stable : ∀ line, (({} : Options).startTag (Element.ofName w.key) (w'.startTag line)).text =
    String.ofList w'.raw

theorem retouched_self (valid : w.Valid xml)
    (copied : ∀ line, ({} : Options).startTag (Element.ofName w.key) (w.startTag line) =
      .copied (String.ofList w.raw)) : Retouched xml w w where
  valid := valid
  key := rfl
  same := .inl rfl
  written line := by rw [copied]; rfl
  stable line := by rw [copied]; rfl

/-! ### The document -/

theorem isTagName_html : IsTagName "html".toList := by decide +kernel

theorem isAttributeName_lang : IsAttributeName xml "lang".toList :=
  IsTagName.isAttributeName (by decide +kernel)

/-- The start tag of the document is written anew. -/
theorem exists_retouched_html (role : Element.ofName w.key = .html) :
    ∃ w', Retouched xml w w' := by
  have key : w.key = "html" := Element.ofName_eq_html_iff.mp role
  have text (line : Option Int) (tag : StartTag) :
      (({} : Options).startTag .html tag).text = String.ofList
        (WrittenTag.ofStart false "html" (.ofList [("lang", some "en")])).raw := by
    rw [WrittenTag.raw_ofStart, String.ofList_toList]
    rfl
  refine ⟨.ofStart false "html" (.ofList [("lang", some "en")]), ?_, ?_, .inr (.inl role),
    fun line => ?_, fun line => ?_⟩
  · refine WrittenTag.valid_ofStart isTagName_html fun n mem => ?_
    obtain rfl : n = "lang" := List.mem_singleton.mp mem
    exact isAttributeName_lang
  · rw [key]
    decide
  · rw [role]
    exact text line _
  · rw [role]
    exact text line _

/-! ### Generators -/

namespace Options

/-- The suffix is one that can stand in every value. -/
def HasPlainSuffix (o : Options) : Prop :=
  ∀ c ∈ o.generatorSuffix.toList, c ≠ '&' ∧ endsUnquoted c = false

instance (o : Options) : Decidable o.HasPlainSuffix := List.decidableBAll _ o.generatorSuffix.toList

/-- A content that ends with the suffix: as it is if it does, or with the suffix at its end. -/
def suffixed (o : Options) (content : String) : String :=
  if o.suffix.toList.isSuffixOf content.toList then content else content ++ o.suffix

variable {o : Options}

theorem toList_suffix (o : Options) : o.suffix.toList = ',' :: o.generatorSuffix.toList := by
  simp [suffix]

theorem HasPlainSuffix.isAddition (plain : o.HasPlainSuffix) : IsAddition o.suffix.toList where
  begins := ⟨_, o.toList_suffix⟩
  chars c mem := by
    rw [toList_suffix] at mem
    rcases List.mem_cons.mp mem with rfl | mem
    · decide
    · exact plain c mem

theorem isSuffixOf_suffixed (o : Options) (content : String) :
    o.suffix.toList.isSuffixOf (o.suffixed content).toList = true := by
  unfold suffixed
  split
  · next ends => exact ends
  · rw [List.isSuffixOf_iff_suffix, String.toList_append]
    exact List.suffix_append _ _

theorem generatorTag_of_ends {content : String}
    (get : w.openTag.attrs.get? "content" = some (some content))
    (ends : o.suffix.toList.isSuffixOf content.toList = true) (line : Option Int) :
    o.generatorTag (w.startTag line) = .copied (String.ofList w.raw) := by
  unfold generatorTag
  split
  · next content' span name get' place =>
    obtain rfl : content = content' := by
      have same : some (some content) = some (some content') := get.symm.trans get'
      simpa using same
    rw [if_pos ends]
    rfl
  · rfl

end Options

/-- The rule makes the one tag of the other, whose content it gives the suffix, and does nothing
more to it. -/
structure Suffixed (o : Options) (xml : Bool) (content : String) (w w' : WrittenTag) : Prop where
  valid : w'.Valid xml
  key : w'.key = w.key
  selfClosing : w'.selfClosing = w.selfClosing
  attrs : w'.openTag.attrs.toList = w.openTag.attrs.toList.map fun e =>
    if e.1 = "content" then (e.1, some (o.suffixed content)) else e
  written : ∀ line, (o.generatorTag (w.startTag line)).text = String.ofList w'.raw
  stable : ∀ line, o.generatorTag (w'.startTag line) = .copied (String.ofList w'.raw)

variable {o : Options} {content : String}

theorem suffixed_self (valid : w.Valid xml)
    (get : w.openTag.attrs.get? "content" = some (some content))
    (ends : o.suffix.toList.isSuffixOf content.toList = true) : Suffixed o xml content w w where
  valid := valid
  key := rfl
  selfClosing := rfl
  attrs := by
    refine (List.map_id _).symm.trans (List.map_congr_left fun e mem => ?_)
    by_cases here : e.1 = "content"
    · have value : w.openTag.attrs.get? e.1 = some e.2 := NameMap.get?_of_mem mem
      rw [here, get] at value
      rw [if_pos here, Options.suffixed, if_pos ends, Option.some.inj value]
      rfl
    · rw [if_neg here]
      rfl
  written line := by
    rw [Options.generatorTag_of_ends get ends]
    rfl
  stable := Options.generatorTag_of_ends get ends

/-- **A generator gets the suffix** at the end of its content, once. -/
theorem exists_suffixed (valid : w.Valid xml) (plain : o.HasPlainSuffix)
    (name : w.openTag.attrs.get? "name" = some (some "generator"))
    (get : w.openTag.attrs.get? "content" = some (some content)) :
    ∃ w', Suffixed o xml content w w' := by
  by_cases ends : o.suffix.toList.isSuffixOf content.toList = true
  · exact ⟨w, suffixed_self valid get ends⟩
  have isPlaced : "content" ∈ w.openTag.spans.names := (w.names_spans "content").mpr ⟨content, get⟩
  obtain ⟨span, place⟩ := NameMap.mem_names_iff.mp isPlaced
  obtain ⟨before, a, after, v, h, key⟩ := WrittenTag.exists_isLastAt place
  obtain rfl : v.meaning = content := by
    have here := h.attrs_get?
    rw [key, get] at here
    exact (Option.some.inj (Option.some.inj here)).symm
  have meaning : (v.extend o.suffix.toList).meaning = o.suffixed v.meaning := by
    rw [v.meaning_extend plain.isAddition, String.ofList_toList, Options.suffixed, if_neg ends]
  have longer := h.extendAt o.suffix.toList
  have get' : (w.extendAt before a after v o.suffix.toList).openTag.attrs.get? "content" =
      some (some (o.suffixed v.meaning)) := by
    rw [← meaning, ← key]
    exact longer.attrs_get?
  refine ⟨w.extendAt before a after v o.suffix.toList,
    WrittenTag.valid_extendAt valid h.split h.value plain.isAddition, rfl, rfl, ?_, fun line => ?_,
    Options.generatorTag_of_ends get' (o.isSuffixOf_suffixed _)⟩
  · rw [h.toList_attrs_extendAt, key, meaning]
  · rw [← h.insertAt_eq]
    simp [Options.generatorTag, WrittenTag.startTag, name, get, place, ends, Fragment.text]

theorem hasPlainSuffix_default : ({} : Options).HasPlainSuffix := by decide

/-- What the rule makes of a statement is left as it is. -/
theorem exists_retouched_metadata (valid : w.Valid xml)
    (role : Element.ofName w.key = .metadata) : ∃ w', Retouched xml w w' := by
  by_cases generator : ∃ content, w.openTag.attrs.get? "name" = some (some "generator") ∧
      w.openTag.attrs.get? "content" = some (some content)
  · obtain ⟨content, name, get⟩ := generator
    obtain ⟨w', suffixed⟩ := exists_suffixed valid hasPlainSuffix_default name get
    refine ⟨w', suffixed.valid, suffixed.key, .inr (.inr (.inl role)), fun line => ?_,
      fun line => ?_⟩
    · rw [role]
      exact suffixed.written line
    · rw [role, Options.startTag, suffixed.stable line]
      rfl
  · refine ⟨w, retouched_self valid fun line => ?_⟩
    rw [role, Options.startTag, Options.generatorTag]
    split
    · next content span name get place => exact absurd ⟨content, name, get⟩ generator
    · rfl

/-! ### Tables of contents -/

/-- The title of the table of contents, after spaces. -/
def titleAfter (spaces : List Char) : WrittenAttribute :=
  { WrittenAttribute.ofPair false "title" (some ({} : Options).contentsTitle) with
    spaces := spaces ++ [' '] }

/-- The tag with the title after its attributes. -/
def withTitle (w : WrittenTag) : WrittenTag :=
  { w with attributes := w.attributes ++ [titleAfter w.spaces], spaces := [] }

theorem isAttributeName_title : IsAttributeName xml "title".toList :=
  IsTagName.isAttributeName (by decide +kernel)

/-- The text of the tag is that of the tag before, with the title put in before what closes it. -/
theorem raw_withTitle (w : WrittenTag) :
    Text.insertAt (String.ofList w.raw)
        ((String.ofList w.raw).length - if w.selfClosing then 2 else 1)
        (writeAttribute false "title" (some ({} : Options).contentsTitle)) =
      String.ofList (withTitle w).raw := by
  let front := w.lead ++ attributesRaw w.attributes ++ w.spaces
  have closing : w.closer.raw.length = if w.selfClosing then 2 else 1 := by
    unfold WrittenTag.closer
    cases w.selfClosing <;> rfl
  have length : (String.ofList w.raw).length - (if w.selfClosing then 2 else 1) =
      front.length := by
    rw [← closing, String.length_ofList, WrittenTag.raw, List.length_append]
    exact Nat.add_sub_cancel ..
  have raw' : (withTitle w).raw = front ++ (writeAttribute false "title"
      (some ({} : Options).contentsTitle)).toList ++ w.closer.raw := by
    rw [← WrittenAttribute.raw_ofPair]
    simp [WrittenTag.raw, withTitle, titleAfter, WrittenAttribute.raw, WrittenAttribute.ofPair,
      front, WrittenTag.lead, WrittenTag.closer]
  rw [length, raw', WrittenTag.raw, Text.insertAt_append]

theorem firstOf_titleAfter (spaces rest : List Char) (c : Char) :
    firstOf ((titleAfter spaces).raw ++ rest) c = firstOf spaces ' ' := by
  simp [titleAfter, WrittenAttribute.raw, firstOf]

/-- A title may follow the attributes if the last has no empty value without quotes. -/
theorem valid_withTitle (valid : w.Valid xml)
    (filled : ∀ a, w.attributes.getLast? = some a → ¬a.IsEmptyUnquoted) :
    (withTitle w).Valid xml := by
  obtain ⟨guard, linked⟩ := valid.follows
  have title : (titleAfter w.spaces).Valid xml := by
    have valid' : (WrittenAttribute.ofPair false "title" (some ({} : Options).contentsTitle)).Valid
        xml := WrittenAttribute.valid_ofPair isAttributeName_title
    refine ⟨fun c mem => ?_, valid'.name, valid'.value⟩
    rcases List.mem_append.mp mem with mem | mem
    · exact valid.spaces c mem
    · exact valid'.spaces c mem
  refine ⟨valid.name, allSpaces_nil, ?_, (linked_append _).mpr ⟨?_, linked_singleton.mpr
    ⟨title, fun quote => nomatch quote⟩⟩⟩
  · have first : firstOf (attributesRaw (withTitle w).attributes ++ (withTitle w).spaces)
        (withTitle w).closer.first = firstOf (attributesRaw w.attributes ++ w.spaces) ' ' := by
      simp only [withTitle, attributesRaw_append, attributesRaw_cons, attributesRaw_nil,
        List.append_assoc, firstOf_append _ ((titleAfter w.spaces).raw ++ _), firstOf_titleAfter,
        firstOf_append _ w.spaces]
    rw [first]
    by_cases bare : attributesRaw w.attributes ++ w.spaces = []
    · rw [bare]
      decide
    · rw [firstOf_of_ne_nil bare _ w.closer.first]
      exact guard
  · rw [attributesRaw_cons, firstOf_titleAfter]
    by_cases bare : w.spaces = []
    · rw [bare]
      exact linked.space filled
    · rw [firstOf_of_ne_nil bare _ w.closer.first]
      exact linked

theorem key_titleAfter (spaces : List Char) : (titleAfter spaces).key = "title" := by
  change Text.lower (String.ofList "title".toList) = "title"
  decide

/-- The text of a table of contents that has no title is that of the tag with one. -/
theorem text_contentsTag (role : Element.ofName w.key = .navigation)
    (id : w.openTag.attrs.get? "id" = some (some ({} : Options).contentsId))
    (bare : w.openTag.attrs.contains "title" = false) (line : Option Int) :
    (({} : Options).startTag (Element.ofName w.key) (w.startTag line)).text =
      String.ofList (withTitle w).raw := by
  rw [← raw_withTitle w, role]
  simp only [Options.startTag, Options.isContents, Options.contentsTag, WrittenTag.startTag, id,
    bare, decide_true, if_true, Bool.false_eq_true, if_false]
  rfl

/-- The table of contents gets a title, if it has none. -/
theorem exists_retouched_navigation (valid : w.Valid xml) (tidy : w.IsTidy)
    (role : Element.ofName w.key = .navigation) : ∃ w', Retouched xml w w' := by
  have titled (line : Option Int) :
      ({} : Options).startTag .navigation ((withTitle w).startTag line) =
        .copied (String.ofList (withTitle w).raw) := by
    have has : ((withTitle w).startTag line).attrs.contains "title" = true := by
      rw [NameMap.contains_iff, WrittenTag.startTag, WrittenTag.openTag, tagOf,
        OpenTag.mem_names_addAll]
      exact .inr (by simp [keys, withTitle, key_titleAfter])
    simp only [Options.startTag, Options.contentsTag, has, if_true, ite_self]
    rfl
  by_cases contents : (w.openTag.attrs.get? "id" = some (some ({} : Options).contentsId)) ∧
      w.openTag.attrs.contains "title" = false
  · obtain ⟨id, bare⟩ := contents
    have filled (a : WrittenAttribute) (last : w.attributes.getLast? = some a) :
        ¬a.IsEmptyUnquoted := (tidy a (List.mem_of_getLast? last)).1
    refine ⟨withTitle w, valid_withTitle valid filled, rfl, .inr (.inr (.inr role)),
      text_contentsTag role id bare, fun line => ?_⟩
    rw [role, titled]
    rfl
  · refine ⟨w, retouched_self valid fun line => ?_⟩
    rw [role, Options.startTag, Options.contentsTag]
    split
    · next id =>
      split
      · rfl
      · next bare =>
        exact absurd ⟨of_decide_eq_true id, Bool.eq_false_iff.mpr bare⟩ contents
    · rfl

/-- **What a rule makes of a start tag is a start tag that the rule leaves as it is.** -/
theorem exists_retouched (valid : w.Valid xml) (tidy : w.IsTidy) : ∃ w', Retouched xml w w' := by
  cases role : Element.ofName w.key with
  | html => exact exists_retouched_html role
  | metadata => exact exists_retouched_metadata valid role
  | navigation => exact exists_retouched_navigation valid tidy role
  | _ => exact ⟨w, retouched_self valid fun line => by rw [role]; rfl⟩

end HtmlMend.Page
