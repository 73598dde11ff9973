import HtmlMend.Proofs.Markup.Source

/-! # Markup: the places of values

A start tag says where in its text the values of its attributes stand. The place of a value is right
behind the `=`, the spaces and the quote before it, so it is inside the tag and apart from the
places of other attributes; and what stands there is the value of the last attribute of the name
(`placesValues_scan`). -/

namespace HtmlMend

open Input

theorem NameMap.mem_names_iff {α : Type} {m : NameMap α} {name : String} :
    name ∈ m.names ↔ ∃ value, m.get? name = some value := by
  constructor
  · intro mem
    obtain ⟨e, pair, rfl⟩ := List.mem_map.mp mem
    exact ⟨e.2, NameMap.get?_of_mem pair⟩
  · rintro ⟨value, get⟩
    exact List.mem_map.mpr ⟨_, NameMap.mem_of_get? get, rfl⟩

namespace Markup

/-! ### What a tag says of its values -/

/-- The quote that stands before an offset, if one does. -/
def quoteBefore (raw : String) (offset : Nat) : Option Char :=
  (raw.toList.take offset).getLast?.filter fun c => c = '"' || c = '\''

/-- The value that is written at a place: references are read in it if a quote stands before it. -/
def valueAt (raw : String) (span : Span) : String :=
  let text := Text.slice raw span.start span.stop
  if (quoteBefore raw span.start).isSome then decode text else text

/-- An attribute of a tag has a value at a place, and none after it has its name. -/
structure WrittenTag.IsLastAt (w : WrittenTag) (before : List WrittenAttribute)
    (a : WrittenAttribute) (after : List WrittenAttribute) (v : WrittenValue) (span : Span) :
    Prop where
  split : w.attributes = before ++ a :: after
  last : a.key ∉ keys after
  value : a.value = some v
  place : span = ⟨(w.beforeText before a v).length, (w.beforeText before a v ++ v.text).length⟩

/-- The places of the values of a tag are right. -/
structure StartTag.PlacesValues (tag : StartTag) : Prop where
  /-- The attributes that have a place are those that have a value. -/
  names : ∀ name, name ∈ tag.spans.names ↔ ∃ value, tag.attrs.get? name = some (some value)
  inside : ∀ name span, tag.spans.get? name = some span →
    0 < span.start ∧ span.start ≤ span.stop ∧ span.stop < tag.raw.length
  value : ∀ name span, tag.spans.get? name = some span →
    tag.attrs.get? name = some (some (valueAt tag.raw span))
  /-- In the text of the tag, a place is that of the value of the last attribute of its name. -/
  last : ∃ (w : WrittenTag) (xml : Bool), w.Valid xml ∧ tag.raw = String.ofList w.raw ∧
    ∀ name span, tag.spans.get? name = some span → ∃ before a after v,
      w.IsLastAt before a after v span ∧ a.key = name ∧
        Text.slice tag.raw span.start span.stop = String.ofList v.text ∧
        quoteBefore tag.raw span.start = v.quote
  apart : ∀ name name' span span', name ≠ name' → tag.spans.get? name = some span →
    tag.spans.get? name' = some span' → span.stop ≤ span'.start ∨ span'.stop ≤ span.start

/-! ### Values in writing -/

namespace WrittenTag

variable {xml : Bool} {w : WrittenTag} {before after before' after' : List WrittenAttribute}
  {a a' : WrittenAttribute} {v v' : WrittenValue} {span span' : Span}

theorem exists_isLastAt {name : String} (get : w.openTag.spans.get? name = some span) :
    ∃ before a after v, w.IsLastAt before a after v span ∧ a.key = name := by
  have mem : name ∈ keys w.attributes := by
    refine Decidable.by_contra fun absent => ?_
    rw [openTag, tagOf, OpenTag.spans_get?_addAll_of_not_mem _ _ absent] at get
    cases get
  obtain ⟨before, a, after, split, rfl, last⟩ := exists_last mem
  rw [openTag, tagOf, split] at get
  cases value : a.value with
  | none =>
    rw [OpenTag.spans_get?_addAll_bare _ _ value last] at get
    cases get
  | some v =>
    rw [OpenTag.spans_get?_addAll _ _ value last, span_eq] at get
    exact ⟨before, a, after, v, ⟨split, last, value, (Option.some.inj get).symm⟩, rfl⟩

/-- The last attribute of a name has a place if it has a value. -/
theorem names_spans (w : WrittenTag) (name : String) :
    name ∈ w.openTag.spans.names ↔ ∃ value, w.openTag.attrs.get? name = some (some value) := by
  rw [NameMap.mem_names_iff, openTag, tagOf]
  by_cases mem : name ∈ keys w.attributes
  · obtain ⟨before, a, after, split, rfl, last⟩ := exists_last mem
    rw [split, OpenTag.attrs_get?_addAll _ _ last]
    cases value : a.value with
    | none => simp [OpenTag.spans_get?_addAll_bare _ _ value last, WrittenAttribute.meaning, value]
    | some v => simp [OpenTag.spans_get?_addAll _ _ value last, WrittenAttribute.meaning, value]
  · rw [OpenTag.attrs_get?_addAll_of_not_mem _ _ mem, OpenTag.spans_get?_addAll_of_not_mem _ _ mem]
    simp [NameMap.get?, NameMap.empty]

namespace IsLastAt

theorem attrs_get? (h : w.IsLastAt before a after v span) :
    w.openTag.attrs.get? a.key = some (some v.meaning) := by
  rw [openTag, tagOf, h.split, OpenTag.attrs_get?_addAll _ _ h.last, WrittenAttribute.meaning,
    h.value]
  rfl

theorem slice (h : w.IsLastAt before a after v span) :
    Text.slice (String.ofList w.raw) span.start span.stop = String.ofList v.text := by
  rw [h.place, ← span_eq]
  exact slice_span h.split h.value

theorem inside (h : w.IsLastAt before a after v span) :
    0 < span.start ∧ span.start ≤ span.stop ∧ span.stop < (String.ofList w.raw).length := by
  have front : 0 < (w.beforeText before a v).length := by
    rw [beforeText, lead]
    simp
  have back : 0 < (w.afterText after v).length := by
    have closes : 0 < w.closer.raw.length := by
      rw [closer]
      cases w.selfClosing <;> decide
    rw [afterText, List.length_append]
    exact Nat.add_pos_right _ closes
  rw [h.place, String.length_ofList, raw_eq_text h.split h.value]
  simp only [List.length_append]
  omega

theorem quoteBefore_eq (h : w.IsLastAt before a after v span) (valid : v.Valid) :
    quoteBefore (String.ofList w.raw) span.start = v.quote := by
  have front : (w.raw).take span.start = w.beforeText before a v := by
    rw [h.place, raw_eq_text h.split h.value, List.append_assoc]
    exact List.take_left
  rw [quoteBefore, String.toList_ofList, front, beforeText]
  cases quote : v.quote with
  | some q =>
    obtain ⟨isQuote, -⟩ := valid.quoted q quote
    have ends : (w.lead ++ attributesRaw before ++ (a.spaces ++ a.name) ++
        (v.before ++ '=' :: (v.after ++ [q]))).getLast? = some q := by
      rw [← List.cons_append, ← List.append_assoc, ← List.append_assoc, List.getLast?_concat]
    rw [Option.toList_some, ends]
    simpa using isQuote
  | none =>
    have plain : ∀ c ∈ '=' :: v.after, c ≠ '"' ∧ c ≠ '\'' := by
      intro c mem
      rcases List.mem_cons.mp mem with rfl | mem
      · decide
      · have space : isSpace c = true := valid.after c mem
        constructor
        · rintro rfl
          exact absurd space (by decide)
        · rintro rfl
          exact absurd space (by decide)
    obtain ⟨c, last⟩ : ∃ c, ('=' :: v.after).getLast? = some c := ⟨_, List.getLast?_cons⟩
    obtain ⟨double, single⟩ := plain c (List.mem_of_getLast? last)
    have ends : (w.lead ++ attributesRaw before ++ (a.spaces ++ a.name) ++
        (v.before ++ '=' :: (v.after ++ []))).getLast? = some c := by
      rw [List.append_nil, List.getLast?_append, List.getLast?_append, last]
      rfl
    rw [Option.toList_none, ends]
    simp [double, single]

theorem valueAt_eq (h : w.IsLastAt before a after v span) (valid : v.Valid) :
    valueAt (String.ofList w.raw) span = v.meaning := by
  rw [valueAt, h.quoteBefore_eq valid, h.slice]
  rfl

/-- A value stands before all that comes after its attribute. -/
theorem stop_le_start (h : w.IsLastAt before a after v span)
    (h' : w.IsLastAt before' a' after' v' span') {mid : List WrittenAttribute}
    (between : before' = before ++ a :: mid) : span.stop ≤ span'.start := by
  have ends : w.beforeText before a v ++ v.text <+: w.lead ++ attributesRaw (before ++ [a]) :=
    ⟨v.quote.toList, by simp [beforeText, WrittenAttribute.raw, WrittenValue.raw, h.value]⟩
  have follows : w.lead ++ attributesRaw (before ++ [a]) <+: w.lead ++ attributesRaw before' :=
    ⟨attributesRaw mid, by simp [between]⟩
  have begins : w.lead ++ attributesRaw before' <+: w.beforeText before' a' v' := by
    rw [beforeText, List.append_assoc]
    exact List.prefix_append _ _
  rw [h.place, h'.place]
  exact ((ends.trans follows).trans begins).length_le

theorem apart (h : w.IsLastAt before a after v span)
    (h' : w.IsLastAt before' a' after' v' span') (ne : a.key ≠ a'.key) :
    span.stop ≤ span'.start ∨ span'.stop ≤ span.start := by
  rcases List.append_eq_append_iff.mp (h.split.symm.trans h'.split) with
    ⟨mid, between, same⟩ | ⟨mid, between, same⟩
  · cases mid with
    | nil => exact absurd (congrArg WrittenAttribute.key (List.cons.inj same).1) ne
    | cons b mid =>
      obtain ⟨rfl, -⟩ := List.cons.inj same
      exact .inl (h.stop_le_start h' between)
  · cases mid with
    | nil => exact absurd (congrArg WrittenAttribute.key (List.cons.inj same).1).symm ne
    | cons b mid =>
      obtain ⟨rfl, -⟩ := List.cons.inj same
      exact .inr (h'.stop_le_start h between)

end IsLastAt

/-- **A tag that is written as tags are** is read with the places of its values. -/
theorem placesValues (valid : w.Valid xml) (line : Option Int) :
    (w.startTag line).PlacesValues where
  names := w.names_spans
  inside name span get := by
    obtain ⟨before, a, after, v, h, -⟩ := exists_isLastAt get
    exact h.inside
  value name span get := by
    obtain ⟨before, a, after, v, h, rfl⟩ := exists_isLastAt get
    have mem : a ∈ w.attributes := by simp [h.split]
    have validV : v.Valid := (valid.follows.2.valid a mem).value v h.value
    change _ = some (some (valueAt (String.ofList w.raw) span))
    rw [h.valueAt_eq validV]
    exact h.attrs_get?
  last := by
    refine ⟨w, xml, valid, rfl, fun name span get => ?_⟩
    obtain ⟨before, a, after, v, h, key⟩ := exists_isLastAt get
    have mem : a ∈ w.attributes := by simp [h.split]
    have validV : v.Valid := (valid.follows.2.valid a mem).value v h.value
    exact ⟨before, a, after, v, h, key, h.slice, h.quoteBefore_eq validV⟩
  apart name name' span span' ne get get' := by
    obtain ⟨before, a, after, v, h, rfl⟩ := exists_isLastAt get
    obtain ⟨before', a', after', v', h', rfl⟩ := exists_isLastAt get'
    exact h.apart h' ne

end WrittenTag

/-! ### Scans -/

/-- **The start tags of a scan** have the places of their values, whatever the scanner has read
before. -/
theorem placesValues_scan {s : Scanner} {stream : Stream} {tag : StartTag}
    (mem : .startTag tag ∈ (s.scan (.ofStream stream)).tokens.toList) : tag.PlacesValues := by
  obtain ⟨xml, passed⟩ := Scanner.exists_passesOn_of_mem_scan mem
  obtain ⟨w, line, valid, rfl⟩ := passed.exists_written
  exact w.placesValues valid line

/-- A tag after text that breaks off and a section that leaves no token, in which a name comes again
and loses its value. -/
theorem placesValues_scan_again :
    let tag : StartTag := ⟨"p", .ofList [("x:y", some "a<b"), ("z", none), ("k", some "&lt;")],
      false, .ofList [("x:y", ⟨14, 20⟩), ("k", ⟨29, 33⟩)], some 1,
      "<p x:y=1 X:Y=\"a&lt;b\" z='' k=&lt; z>"⟩
    let stream := Stream.whole ("<b c<?xml?>" ++ tag.raw)
    .startTag tag ∈ ((Scanner.new false).scan (.ofStream stream)).tokens.toList ∧
      tag.PlacesValues := by
  intro tag stream
  have mem : .startTag tag ∈ ((Scanner.new false).scan (.ofStream stream)).tokens.toList := by
    decide +kernel
  exact ⟨mem, placesValues_scan mem⟩

end Markup

end HtmlMend
