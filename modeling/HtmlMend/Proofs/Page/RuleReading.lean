import HtmlMend.Proofs.Markup.Emission
import HtmlMend.Proofs.Page.Conservation
import HtmlMend.Proofs.Page.Rule

/-! # Pages: how the tags that rules change are read

What is written for a statement that names the generator is read as the same statement, but that its
content ends with the suffix; and the rule does nothing more to it (`generatorTag_read`).

The table of contents gets its title just before what closes its start tag. If the tag does not end
with an open `=`, one that nothing follows but spaces, what is written is read as the same tag with
the title as its last attribute. If it does, the title is taken for the value, and what is written
is malformed (`contentsTag_read`). -/

namespace HtmlMend.Page

open Markup Output

/-! ## The name of the generator -/

section Generator

variable {xml : Bool} {o : Options} {content : String}

/-- **The statement that names the generator**, as a scanner passes it on, is read again with the
same attributes in their order, and the suffix at the end of its content. The suffix may hold
everything but ampersands and the characters that end a value. -/
theorem generatorTag_read {tag : StartTag} (passed : PassesOn xml tag) (name : tag.name = "meta")
    (generator : tag.attrs.get? "name" = some (some "generator"))
    (get : tag.attrs.get? "content" = some (some content)) (plain : o.HasPlainSuffix) :
    ∃ statement last,
      documentTokens xml (o.startTag (Element.ofName tag.name) tag).text =
          [.startTag statement, .endOfInput last ""] ∧
        statement.name = "meta" ∧ statement.selfClosing = tag.selfClosing ∧
        statement.attrs.toList = tag.attrs.toList.map (fun e =>
          if e.1 = "content" then (e.1, some (o.suffixed content)) else e) ∧
        o.startTag (Element.ofName statement.name) statement = .copied statement.raw := by
  obtain ⟨w, line, valid, rfl⟩ := passed.exists_written
  have role : Element.ofName w.key = .metadata := Element.ofName_eq_metadata_iff.mpr name
  obtain ⟨w', suffixed⟩ := exists_suffixed valid plain generator get
  have written : (o.startTag (Element.ofName w.key) (w.startTag line)).text =
      String.ofList w'.raw := by
    rw [role]
    exact suffixed.written line
  have read := documentTokens_startTag suffixed.valid
  rw [← written] at read
  refine ⟨_, _, read, suffixed.key.trans name, suffixed.selfClosing, suffixed.attrs, ?_⟩
  change o.startTag (Element.ofName w'.key) _ = _
  rw [suffixed.key, role]
  exact suffixed.stable (some 1)

/-- A content that comes twice, the second time with the beginning of a reference at its end. -/
theorem generatorTag_read_again :
    let tag : StartTag := ⟨"meta",
      .ofList [("content", some "a b&amp"), ("name", some "generator"), ("k", none)], true,
      .ofList [("content", ⟨40, 47⟩), ("name", ⟨21, 30⟩)], some 1,
      "<META content=x NAME=generator Content=\"a b&amp\" k/>"⟩
    let o : Options := { generatorSuffix := "mend;1" }
    (PassesOn true tag ∧ tag.name = "meta" ∧
      tag.attrs.get? "name" = some (some "generator") ∧
      tag.attrs.get? "content" = some (some "a b&amp") ∧ o.HasPlainSuffix) ∧
    ∃ statement last,
      documentTokens true (o.startTag (Element.ofName tag.name) tag).text =
          [.startTag statement, .endOfInput last ""] ∧
        statement.name = "meta" ∧ statement.selfClosing = tag.selfClosing ∧
        statement.attrs.toList = tag.attrs.toList.map (fun e =>
          if e.1 = "content" then (e.1, some (o.suffixed "a b&amp")) else e) ∧
        o.startTag (Element.ofName statement.name) statement = .copied statement.raw := by
  intro tag o
  have passed : PassesOn true tag := ⟨true, tag.raw.toList, none, by decide +kernel⟩
  have generator : tag.attrs.get? "name" = some (some "generator") := by decide
  have get : tag.attrs.get? "content" = some (some "a b&amp") := by decide
  have plain : o.HasPlainSuffix := by decide
  exact ⟨⟨passed, rfl, generator, get, plain⟩, generatorTag_read passed rfl generator get plain⟩

end Generator

/-! ## The title of a table of contents -/

section Contents

variable {xml : Bool} {w : WrittenTag}

/-- The text of a tag ends with an `=` that nothing follows but spaces and the `>`. -/
def EndsOpen (raw : String) : Prop :=
  ∃ front sp, raw.toList = front ++ '=' :: sp ++ ['>'] ∧ AllSpaces sp

/-! ### Texts that end open -/

/-- A text ends with something other than an open `=`. -/
def EndsShut (cs : List Char) : Prop :=
  ∃ front text, cs = front ++ text ∧ '=' ∉ text ∧ ∃ c ∈ text, isSpace c = false

theorem EndsShut.append {cs : List Char} (h : EndsShut cs) (front : List Char) :
    EndsShut (front ++ cs) := by
  obtain ⟨more, text, rfl, rest⟩ := h
  exact ⟨front ++ more, text, by simp, rest⟩

theorem EndsShut.append_spaces {cs sp : List Char} (h : EndsShut cs) (spaces : AllSpaces sp) :
    EndsShut (cs ++ sp) := by
  obtain ⟨front, text, rfl, plain, c, mem, solid⟩ := h
  refine ⟨front, text ++ sp, by simp, fun mem => ?_, c, List.mem_append_left sp mem, solid⟩
  rcases List.mem_append.mp mem with mem | mem
  · exact plain mem
  · exact absurd (spaces '=' mem) (by decide)

theorem EndsShut.ne {cs front sp : List Char} (h : EndsShut cs) (spaces : AllSpaces sp) :
    cs ≠ front ++ '=' :: sp := by
  obtain ⟨more, text, rfl, plain, c, mem, solid⟩ := h
  intro same
  rcases List.append_eq_append_iff.mp same with ⟨cut, -, rfl⟩ | ⟨cut, -, split⟩
  · exact plain (by simp)
  · cases cut with
    | nil => exact plain (by rw [← List.nil_append text, ← split]; simp)
    | cons d cut =>
      have inside : c ∈ sp := by
        rw [(List.cons.inj split).2]
        exact List.mem_append_right cut mem
      rw [spaces c inside] at solid
      cases solid

theorem endsShut_name {name : List Char} (isName : IsAttributeName xml name) : EndsShut name := by
  obtain ⟨c, cs, rfl, start⟩ := isName.starts
  refine ⟨[], c :: cs, rfl, fun mem => ?_, c, by simp,
    isSpace_of_isNameChar (isNameChar_of_isNameStart start)⟩
  exact (isName.chars '=' mem).elim (fun char => absurd char (by decide)) (by decide)

theorem endsShut_attribute {a : WrittenAttribute} (valid : a.Valid xml)
    (filled : ¬a.IsEmptyUnquoted) : EndsShut a.raw := by
  cases value : a.value with
  | none =>
    have raw : a.raw = a.spaces ++ a.name := by simp [WrittenAttribute.raw, value]
    rw [raw]
    exact (endsShut_name valid.name).append _
  | some v =>
    have ok := valid.value v value
    cases quote : v.quote with
    | some q =>
      obtain ⟨isQuote, -⟩ := ok.quoted q quote
      refine ⟨a.spaces ++ a.name ++ (v.before ++ '=' :: (v.after ++ q :: v.text)), [q], ?_, ?_,
        q, by simp, ?_⟩
      · simp [WrittenAttribute.raw, value, WrittenValue.raw, quote]
      · rcases isQuote with rfl | rfl <;> decide
      · rcases isQuote with rfl | rfl <;> decide
    | none =>
      obtain ⟨inside, begins⟩ := ok.unquoted quote
      obtain ⟨c, cs, text⟩ := List.exists_cons_of_ne_nil fun empty => filled ⟨v, value, quote, empty⟩
      refine ⟨a.spaces ++ a.name ++ (v.before ++ '=' :: v.after), v.text, ?_, fun mem => ?_,
        c, by simp [text], begins c (by simp [text])⟩
      · simp [WrittenAttribute.raw, value, WrittenValue.raw, quote]
      · exact absurd (inside '=' mem) (by decide)

/-- What a tag has before its end is shut, unless the last value is empty and not in quotes. -/
theorem endsShut_attributes (valid : w.Valid xml)
    (filled : ∀ a, w.attributes.getLast? = some a → ¬a.IsEmptyUnquoted) :
    EndsShut (w.lead ++ attributesRaw w.attributes ++ w.spaces) := by
  refine EndsShut.append_spaces ?_ valid.spaces
  cases last : w.attributes.getLast? with
  | none =>
    rw [List.getLast?_eq_none_iff.mp last, attributesRaw_nil, List.append_nil]
    have isName : IsAttributeName xml w.name := valid.name.isAttributeName
    exact (endsShut_name isName).append ['<']
  | some a =>
    obtain ⟨as, split⟩ := List.getLast?_eq_some_iff.mp last
    have mem : a ∈ w.attributes := List.mem_of_getLast? last
    rw [split, attributesRaw_append, attributesRaw_cons, attributesRaw_nil, List.append_nil,
      ← List.append_assoc]
    exact (endsShut_attribute (valid.follows.2.valid a mem) (filled a last)).append _

theorem closer_of_isEmptyUnquoted (valid : w.Valid xml) {as : List WrittenAttribute}
    {a : WrittenAttribute} (split : w.attributes = as ++ [a]) (empty : a.IsEmptyUnquoted) :
    w.spaces = [] ∧ w.selfClosing = false := by
  obtain ⟨v, value, quote, text⟩ := empty
  have linked := valid.follows.2
  rw [split] at linked
  have ends := (linked_singleton.mp ((linked_append as).mp linked).2).2
  rw [WrittenAttribute.EndsBefore, value] at ends
  obtain ⟨stop, space, -⟩ := (ends quote).imp_right fun h => h text
  cases spaces : w.spaces with
  | cons s sp =>
    rw [spaces] at space
    have isSpace : isSpace s = true := valid.spaces s (by simp [spaces])
    exact absurd (isSpace.symm.trans space) (by decide)
  | nil =>
    refine ⟨rfl, Bool.eq_false_iff.mpr fun selfClosing => ?_⟩
    rw [spaces, WrittenTag.closer, selfClosing] at stop
    exact absurd stop (by decide)

/-- Up to its `>` a tag ends shut, unless the last value is empty and not in quotes. -/
theorem exists_endsShut_raw (valid : w.Valid xml)
    (filled : ∀ a, w.attributes.getLast? = some a → ¬a.IsEmptyUnquoted) :
    ∃ cs, w.raw = cs ++ ['>'] ∧ EndsShut cs := by
  have shut := endsShut_attributes valid filled
  cases selfClosing : w.selfClosing with
  | false =>
    refine ⟨_, ?_, shut⟩
    rw [WrittenTag.raw, WrittenTag.closer, selfClosing, Closer.raw]
  | true =>
    have slash : EndsShut ['/'] := ⟨[], ['/'], rfl, by decide, '/', by simp, by decide⟩
    refine ⟨_, ?_, slash.append (w.lead ++ attributesRaw w.attributes ++ w.spaces)⟩
    simp [WrittenTag.raw, WrittenTag.closer, selfClosing, Closer.raw]

/-- **A tag ends open** exactly if its last attribute has an empty value without quotes. -/
theorem endsOpen_iff (valid : w.Valid xml) : EndsOpen (String.ofList w.raw) ↔
    ∃ a, w.attributes.getLast? = some a ∧ a.IsEmptyUnquoted := by
  rw [EndsOpen, String.toList_ofList]
  constructor
  · rintro ⟨front, sp, raw, spaces⟩
    refine Classical.byContradiction fun filled => ?_
    obtain ⟨cs, split, shut⟩ :=
      exists_endsShut_raw valid fun a last empty => filled ⟨a, last, empty⟩
    exact shut.ne spaces (List.append_cancel_right (split.symm.trans raw))
  · rintro ⟨a, last, empty⟩
    obtain ⟨as, split⟩ := List.getLast?_eq_some_iff.mp last
    obtain ⟨spaces, selfClosing⟩ := closer_of_isEmptyUnquoted valid split empty
    obtain ⟨v, value, quote, text⟩ := empty
    have mem : a ∈ w.attributes := List.mem_of_getLast? last
    refine ⟨w.lead ++ attributesRaw as ++ (a.spaces ++ a.name) ++ v.before, v.after, ?_,
      ((valid.follows.2.valid a mem).value v value).after⟩
    simp [WrittenTag.raw, split, spaces, WrittenTag.closer, selfClosing, Closer.raw,
      WrittenAttribute.raw, value, WrittenValue.raw, quote, text]

/-! ### The title as an attribute -/

theorem toList_attrs_withTitle (bare : "title" ∉ w.openTag.attrs.names) :
    (withTitle w).openTag.attrs.toList =
      w.openTag.attrs.toList ++ [("title", some ({} : Options).contentsTitle)] := by
  have meaning : (titleAfter w.spaces).meaning = some ({} : Options).contentsTitle := by
    change some (decode (String.ofList _)) = _
    decide
  have attrs : (withTitle w).openTag.attrs =
      w.openTag.attrs.insert "title" (some ({} : Options).contentsTitle) := by
    change (tagOf (.startTag w.key) w.lead (w.attributes ++ [titleAfter w.spaces])).attrs = _
    rw [tagOf_snoc, OpenTag.attrs_addWritten, key_titleAfter, meaning]
    rfl
  rw [attrs, NameMap.toList_insert_of_not_mem bare]

/-! ### The title as a value -/

theorem feed_lastEquals (valid : w.Valid xml) {as : List WrittenAttribute} {a : WrittenAttribute}
    (split : w.attributes = as ++ [a]) {v : WrittenValue} (value : a.value = some v) :
    Unfinished.begun.feed xml false ['<'] (w.name ++ (attributesRaw as ++ a.spaces) ++ a.name ++
        (v.before ++ ['=']) ++ v.after) =
      some (.beforeValue (tagOf (.startTag w.key) w.lead as) a.key) := by
  obtain ⟨guard, linked⟩ := valid.follows
  rw [split] at guard linked
  obtain ⟨linked, last⟩ := (linked_append as).mp linked
  obtain ⟨validA, -⟩ := linked_singleton.mp last
  have validV := validA.value v value
  obtain ⟨c, cs, name, start⟩ := validA.name.starts
  have char : isNameChar c = true := isNameChar_of_isNameStart start
  have first (d : Char) : firstOf a.raw d = firstOf a.spaces c := by
    rw [WrittenAttribute.firstOf_raw validA.name.ne_nil d d, name, firstOf_append]
    rfl
  have follows : Follows xml (fun c => isNameChar c = false) as a.spaces c := by
    constructor
    · rw [firstOf_append, ← first w.closer.first]
      simpa [attributesRaw_append, firstOf_append, first] using guard
    · rw [attributesRaw_cons, attributesRaw_nil, List.append_nil, first] at linked
      exact linked
  obtain ⟨u, fed, same⟩ := w.standsFor_name.feed_attributes validA.spaces
    (isSpace_of_isNameChar char) (ne_of_isNameChar char (by decide)) follows
  have isName : IsAttributeName xml (c :: cs) := name ▸ validA.name
  have fed := Unfinished.feed_trans (WrittenTag.feed_name valid.name) fed
  have fed := Unfinished.feed_trans fed (feed_attributeName isName same)
  rw [← name] at fed
  exact Unfinished.feed_trans (Unfinished.feed_trans fed (feed_equals _ _ _ validV.before))
    (feed_beforeValue_spaces _ _ _ validV.after)

/-- **The title is taken for an open value**: the tag breaks off before the `=` of the title. -/
theorem breaksOff_withTitle (valid : w.Valid xml) {as : List WrittenAttribute} {a : WrittenAttribute}
    (split : w.attributes = as ++ [a]) (empty : a.IsEmptyUnquoted) :
    ∃ front, (withTitle w).raw = front ++ "=\"Table Of Contents\">".toList ∧
      BreaksOff xml false front (some '=') := by
  obtain ⟨spaces, selfClosing⟩ := closer_of_isEmptyUnquoted valid split empty
  obtain ⟨v, value, quote, text⟩ := empty
  have title : (titleAfter []).raw = " title=\"Table Of Contents\"".toList := by decide
  have last : a.raw = a.spaces ++ a.name ++ (v.before ++ '=' :: v.after) := by
    simp [WrittenAttribute.raw, value, WrittenValue.raw, quote, text]
  refine ⟨'<' :: (w.name ++ (attributesRaw as ++ a.spaces) ++ a.name ++ (v.before ++ ['=']) ++
    v.after ++ [' '] ++ "title".toList), ?_, ?_⟩
  · simp [WrittenTag.raw, withTitle, split, spaces, title, last, WrittenTag.lead,
      WrittenTag.closer, selfClosing, Closer.raw]
  · have opened := feed_lastEquals valid split value
    have spaced := Unfinished.feed_trans opened
      (feed_beforeValue_spaces _ _ _ (allSpaces_singleton (c := ' ') (by decide)))
    have letters : ∀ d ∈ "title".toList, endsUnquoted d = false := by simp [endsUnquoted]
    have fed := Unfinished.feed_trans spaced (feed_unquoted _ _ _ (by decide) letters)
    refine ⟨_, _, rfl, fed, ?_⟩
    have stops : isSpace '=' = false ∧ isNameStart '=' = false := by decide
    simp [Unfinished.StopsBefore, Unfinished.next, OpenTag.nextInUnquoted, OpenTag.next,
      endsUnquoted, stops, OpenTag.addValue, tagOf]

/-- What is written for a tag that ends open is read as text. -/
theorem documentTokens_breaksOff {front : List Char}
    (breaks : BreaksOff xml false front (some '=')) :
    ∃ report data line raw last,
      documentTokens xml (String.ofList (front ++ "=\"Table Of Contents\">".toList)) =
        [.malformed report, .text data line raw, .endOfInput last ""] := by
  have line : IsLine "=\"Table Of Contents\">".toList := ⟨by decide, by decide⟩
  have cut : Cut xml false [.text (.broken front) "=\"Table Of Contents\">".toList] :=
    ⟨⟨breaks, line, by simp, .inr (.inl rfl)⟩, trivial⟩
  obtain ⟨tokens, -⟩ := documentTokens_of_cut cut
  have raw : rawOf [.text (.broken front) "=\"Table Of Contents\">".toList] =
      front ++ "=\"Table Of Contents\">".toList := by simp [Passage.raw, Opening.raw]
  rw [raw] at tokens
  exact ⟨_, _, _, _, _, tokens⟩

/-! ### Tables of contents that are passed on -/

/-- **The start tag of a table of contents** that a scanner passes on is read again as the same tag
with a title after its attributes, unless it ends open. If it does, it is read as malformed. -/
theorem contentsTag_read {tag : StartTag} (passed : PassesOn xml tag) (name : tag.name = "nav")
    (id : tag.attrs.get? "id" = some (some "TOC")) (bare : "title" ∉ tag.attrs.names) :
    (¬EndsOpen tag.raw → ∃ nav last,
      documentTokens xml (({} : Options).startTag (Element.ofName tag.name) tag).text =
          [.startTag nav, .endOfInput last ""] ∧
        nav.name = "nav" ∧ nav.selfClosing = tag.selfClosing ∧
        nav.attrs.toList = tag.attrs.toList ++ [("title", some "Table Of Contents")]) ∧
    (EndsOpen tag.raw → ∃ report data line raw last,
      documentTokens xml (({} : Options).startTag (Element.ofName tag.name) tag).text =
        [.malformed report, .text data line raw, .endOfInput last ""]) := by
  obtain ⟨w, line, valid, rfl⟩ := passed.exists_written
  have role : Element.ofName w.key = .navigation := Element.ofName_eq_navigation_iff.mpr name
  have absent : w.openTag.attrs.contains "title" = false := by
    rw [← Bool.not_eq_true, NameMap.contains_iff]
    exact bare
  have text : (({} : Options).startTag (Element.ofName (w.startTag line).name)
      (w.startTag line)).text = String.ofList (withTitle w).raw :=
    text_contentsTag role id absent line
  rw [text]
  have open_ : EndsOpen (w.startTag line).raw ↔ _ := endsOpen_iff valid
  rw [open_]
  refine ⟨fun shut => ?_, fun ⟨a, last, empty⟩ => ?_⟩
  · have written := valid_withTitle valid fun a last empty => shut ⟨a, last, empty⟩
    exact ⟨_, _, documentTokens_startTag written, name, rfl, toList_attrs_withTitle bare⟩
  · obtain ⟨as, split⟩ := List.getLast?_eq_some_iff.mp last
    obtain ⟨front, raw, breaks⟩ := breaksOff_withTitle valid split empty
    rw [raw]
    exact documentTokens_breaksOff breaks

/-- A table of contents that is closed with a slash, and read as XML. -/
theorem contentsTag_read_slash :
    let tag : StartTag := ⟨"nav", .ofList [("id", some "TOC")], true, .ofList [("id", ⟨9, 12⟩)],
      some 1, "<nav id=\"TOC\" />"⟩
    (PassesOn true tag ∧ ¬EndsOpen tag.raw) ∧ ∃ nav last,
      documentTokens true (({} : Options).startTag (Element.ofName tag.name) tag).text =
          [.startTag nav, .endOfInput last ""] ∧
        nav.name = "nav" ∧ nav.selfClosing = tag.selfClosing ∧
        nav.attrs.toList = tag.attrs.toList ++ [("title", some "Table Of Contents")] := by
  intro tag
  have passed : PassesOn true tag := ⟨true, tag.raw.toList, none, by decide +kernel⟩
  have shut : ¬EndsOpen tag.raw := by
    rintro ⟨front, sp, raw, spaces⟩
    have slash : EndsShut "<nav id=\"TOC\" /".toList :=
      ⟨"<nav id=\"TOC\" ".toList, ['/'], by decide, by decide, '/', by decide, by decide⟩
    have split : tag.raw.toList = "<nav id=\"TOC\" /".toList ++ ['>'] := by decide +kernel
    exact slash.ne spaces (List.append_cancel_right (split.symm.trans raw))
  exact ⟨⟨passed, shut⟩, (contentsTag_read passed rfl rfl (by decide)).1 shut⟩

/-- The title of a table of contents that ends open makes it malformed. -/
theorem contentsTag_malformed :
    let tag : StartTag := ⟨"nav", .ofList [("id", some "TOC"), ("x", some "")], false,
      .ofList [("id", ⟨8, 11⟩), ("x", ⟨14, 14⟩)], some 1, "<nav id=TOC x=>"⟩
    PassesOn false tag ∧ tag.attrs.get? "id" = some (some "TOC") ∧ "title" ∉ tag.attrs.names ∧
      (({} : Options).startTag (Element.ofName tag.name) tag).text =
        "<nav id=TOC x= title=\"Table Of Contents\">" ∧
      (documentTokens false "<nav id=TOC x= title=\"Table Of Contents\">").head? =
        some (.malformed (.ofCode "bad html" (some 1))) :=
  ⟨⟨false, "<nav id=TOC x=>".toList, none, by decide +kernel⟩, by decide +kernel⟩

end Contents

end HtmlMend.Page
