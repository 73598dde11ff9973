import HtmlMend.Proofs.Markup.Emission

/-! # Markup: attributes as they were written

The source of an attribute is the text of its value, without quotes and with its references. The
span of a value leads to that text in the text of the tag (`slice_span`), so the source attributes
of a tag are what the last attribute of each name has in writing (`sourceAttrs_get?`). A tag that is
written for attributes with different names has them again, each in its place
(`sourceAttrs_ofStart`, `attrs_ofStart`). -/

namespace HtmlMend

namespace NameMap

variable {α β : Type}

theorem lookup_of_mem_of_nodup {name : String} {value : α} : ∀ {pairs : List (String × α)},
    (pairs.map Prod.fst).Nodup → (name, value) ∈ pairs → pairs.lookup name = some value
  | (other, v) :: rest, nodup, mem => by
    rw [List.map_cons, List.nodup_cons] at nodup
    rcases List.mem_cons.mp mem with same | later
    · obtain ⟨rfl, rfl⟩ := Prod.mk.inj same
      rw [List.lookup_cons_self]
    · have apart : (name == other) = false := beq_eq_false_iff_ne.mpr fun same =>
        nodup.1 (List.mem_map.mpr ⟨(name, value), later, same⟩)
      rw [List.lookup_cons, apart]
      exact lookup_of_mem_of_nodup nodup.2 later

theorem get?_of_mem {m : NameMap α} {name : String} {value : α} (mem : (name, value) ∈ m.toList) :
    m.get? name = some value :=
  lookup_of_mem_of_nodup m.nodup mem

theorem mem_of_get? {m : NameMap α} {name : String} {value : α} (get : m.get? name = some value) :
    (name, value) ∈ m.toList := by
  obtain ⟨before, after, split, -⟩ := List.lookup_eq_some_iff.mp get
  rw [split]
  simp

/-- A map with given names and values is the list of them. -/
theorem toList_eq_of_get? {m : NameMap α} {pairs : List (String × α)}
    (names : m.names = pairs.map Prod.fst) (get : ∀ e ∈ pairs, m.get? e.1 = some e.2) :
    m.toList = pairs := by
  have values : ∀ e ∈ m.toList, ∀ e' ∈ pairs, e.1 = e'.1 → e = e' := by
    intro e mem e' mem' same
    have here : m.get? e.1 = some e.2 := get?_of_mem mem
    rw [same, get e' mem'] at here
    exact Prod.ext same (Option.some.inj here).symm
  clear get
  replace names : m.toList.map Prod.fst = pairs.map Prod.fst := names
  generalize m.toList = list at names values
  induction list generalizing pairs with
  | nil => exact (List.map_eq_nil_iff.mp names.symm).symm
  | cons e rest ih =>
    cases pairs with
    | nil => cases names
    | cons e' rest' =>
      obtain ⟨first, others⟩ := List.cons.inj names
      rw [values e (by simp) e' (by simp) first, ih others fun a mem b mem' =>
        values a (List.mem_cons_of_mem e mem) b (List.mem_cons_of_mem e' mem')]

theorem get?_mapWithName (m : NameMap α) (f : String → α → β) (name : String) :
    (m.mapWithName f).get? name = (m.get? name).map (f name) := by
  change (m.toList.map fun e => (e.1, f e.1 e.2)).lookup name = (m.toList.lookup name).map (f name)
  induction m.toList with
  | nil => rfl
  | cons e rest ih =>
    rw [List.map_cons, List.lookup_cons, List.lookup_cons]
    by_cases here : name = e.1
    · simp [here]
    · rw [beq_eq_false_iff_ne.mpr here]
      exact ih

theorem get?_erase_self (m : NameMap α) (name : String) : (m.erase name).get? name = none := by
  refine List.lookup_eq_none_iff.mpr fun e mem => ?_
  have other : e.1 ≠ name := by simpa using (List.mem_filter.mp mem).2
  exact bne_iff_ne.mpr (Ne.symm other)

end NameMap

namespace Markup

/-- The text of the value of an attribute as it was written; an attribute may have none. -/
def WrittenAttribute.source (a : WrittenAttribute) : Option String :=
  a.value.map fun v => String.ofList v.text

namespace OpenTag

theorem spans_get?_addAll_bare (tag : OpenTag) (offset : Nat) {as bs : List WrittenAttribute}
    {a : WrittenAttribute} (bare : a.value = none) (last : a.key ∉ keys bs) :
    (tag.addAll offset (as ++ a :: bs)).spans.get? a.key = none := by
  rw [addAll_append, addAll, spans_get?_addAll_of_not_mem _ _ last, addWritten, bare]
  exact NameMap.get?_erase_self ..

theorem names_addAll : ∀ {as : List WrittenAttribute} {tag : OpenTag} (offset : Nat),
    (tag.attrs.names ++ keys as).Nodup →
    (tag.addAll offset as).attrs.names = tag.attrs.names ++ keys as
  | [], tag, _, _ => by simp [addAll, keys]
  | a :: as, tag, offset, nodup => by
    have split : tag.attrs.names ++ keys (a :: as) = tag.attrs.names ++ [a.key] ++ keys as := by
      simp [keys]
    rw [split] at nodup ⊢
    have fresh : a.key ∉ tag.attrs.names := by
      have := (List.nodup_append.mp (List.nodup_append.mp nodup).1).2.2
      exact fun mem => this a.key mem a.key (by simp) rfl
    have names : (tag.addWritten offset a).attrs.names = tag.attrs.names ++ [a.key] := by
      rw [attrs_addWritten, NameMap.names_insert, if_neg fresh]
    rw [addAll, names_addAll _ (by rwa [names]), names]

end OpenTag

namespace WrittenTag

variable {w : WrittenTag} {before after : List WrittenAttribute} {a : WrittenAttribute}

/-- The text of the tag before that of the value of an attribute. -/
def beforeText (w : WrittenTag) (before : List WrittenAttribute) (a : WrittenAttribute)
    (v : WrittenValue) : List Char :=
  w.lead ++ attributesRaw before ++ (a.spaces ++ a.name) ++
    (v.before ++ '=' :: (v.after ++ v.quote.toList))

/-- The text of the tag after that of the value of an attribute. -/
def afterText (w : WrittenTag) (after : List WrittenAttribute) (v : WrittenValue) : List Char :=
  v.quote.toList ++ attributesRaw after ++ w.spaces ++ w.closer.raw

theorem raw_eq_text (split : w.attributes = before ++ a :: after) {v : WrittenValue}
    (value : a.value = some v) :
    w.raw = w.beforeText before a v ++ v.text ++ w.afterText after v := by
  simp [raw, split, WrittenAttribute.raw, value, WrittenValue.raw, beforeText, afterText]

/-- **The span of a value** is where its text stands. -/
theorem span_eq (w : WrittenTag) (before : List WrittenAttribute) (a : WrittenAttribute)
    (v : WrittenValue) :
    v.span (a.nameStop (w.lead.length + (attributesRaw before).length)) =
      ⟨(w.beforeText before a v).length, (w.beforeText before a v ++ v.text).length⟩ := by
  have start : (w.beforeText before a v).length =
      a.nameStop (w.lead.length + (attributesRaw before).length) + v.before.length + 1 +
        v.after.length + v.quote.toList.length := by
    simp only [beforeText, WrittenAttribute.nameStop, List.length_append, List.length_cons]
    omega
  rw [List.length_append, start]
  rfl

theorem slice_span (split : w.attributes = before ++ a :: after) {v : WrittenValue}
    (value : a.value = some v) :
    let span := v.span (a.nameStop (w.lead.length + (attributesRaw before).length))
    Text.slice (String.ofList w.raw) span.start span.stop = String.ofList v.text := by
  intro span
  simp only [span, span_eq, Text.slice, String.toList_ofList, raw_eq_text split value]
  rw [List.take_left, List.drop_left]

/-- **The source of a name** is what the last attribute of the name has in writing. -/
theorem sourceAttrs_get? (split : w.attributes = before ++ a :: after) (last : a.key ∉ keys after)
    (line : Option Int) : (w.startTag line).sourceAttrs.get? a.key = some a.source := by
  have attrs : w.openTag.attrs.get? a.key = some a.meaning := by
    rw [openTag, tagOf, split, OpenTag.attrs_get?_addAll _ _ last]
  rw [StartTag.sourceAttrs, NameMap.get?_mapWithName]
  change (w.openTag.attrs.get? a.key).map _ = _
  rw [attrs, Option.map_some]
  cases value : a.value with
  | none =>
    have span : (w.startTag line).spans.get? a.key = none := by
      change w.openTag.spans.get? a.key = none
      rw [openTag, tagOf, split, OpenTag.spans_get?_addAll_bare _ _ value last]
    rw [span]
    simp [WrittenAttribute.meaning, WrittenAttribute.source, value]
  | some v =>
    have span : (w.startTag line).spans.get? a.key =
        some (v.span (a.nameStop (w.lead.length + (attributesRaw before).length))) := by
      change w.openTag.spans.get? a.key = _
      rw [openTag, tagOf, split, OpenTag.spans_get?_addAll _ _ value last]
    rw [span, WrittenAttribute.source, value]
    exact congrArg some (congrArg some (slice_span split value))

theorem names_sourceAttrs (w : WrittenTag) (line : Option Int) :
    (w.startTag line).sourceAttrs.names = w.openTag.attrs.names :=
  NameMap.names_mapWithName ..

/-- Each source attribute is that of an attribute in writing, which also has the meaning. -/
theorem exists_of_mem_sourceAttrs {line : Option Int} {e : String × Option String}
    (mem : e ∈ (w.startTag line).sourceAttrs.toList) :
    ∃ a ∈ w.attributes, a.key = e.1 ∧ a.source = e.2 ∧
      w.openTag.attrs.get? e.1 = some a.meaning := by
  have name : e.1 ∈ w.openTag.attrs.names := by
    rw [← w.names_sourceAttrs line]
    exact List.mem_map.mpr ⟨e, mem, rfl⟩
  rw [openTag, tagOf, OpenTag.mem_names_addAll, NameMap.names_empty] at name
  obtain ⟨before, a, after, split, key, last⟩ := exists_last (name.resolve_left (by simp))
  have source : (w.startTag line).sourceAttrs.get? e.1 = some e.2 := NameMap.get?_of_mem mem
  rw [← key] at last source ⊢
  rw [sourceAttrs_get? split last] at source
  refine ⟨a, by simp [split], rfl, Option.some.inj source, ?_⟩
  rw [openTag, tagOf, split, OpenTag.attrs_get?_addAll _ _ last]

theorem mem_sourceAttrs_of_bare {line : Option Int} {name : String}
    (bare : w.openTag.attrs.get? name = some none) :
    (name, none) ∈ (w.startTag line).sourceAttrs.toList := by
  have isName : name ∈ (w.startTag line).sourceAttrs.names := by
    rw [names_sourceAttrs]
    exact List.mem_map.mpr ⟨_, NameMap.mem_of_get? bare, rfl⟩
  obtain ⟨⟨_, source⟩, mem, rfl⟩ := List.mem_map.mp isName
  obtain ⟨a, -, -, same, meaning⟩ := exists_of_mem_sourceAttrs mem
  have none : a.value = none := Option.map_eq_none_iff.mp (Option.some.inj (meaning.symm.trans bare))
  rw [WrittenAttribute.source, none] at same
  obtain rfl : Option.none = source := same
  exact mem

/-! ### Attributes with different names -/

theorem names_openTag (distinct : (keys w.attributes).Nodup) :
    w.openTag.attrs.names = keys w.attributes :=
  OpenTag.names_addAll _ distinct

/-- An attribute among attributes with different names is the last of its name. -/
theorem exists_split_of_mem (distinct : (keys w.attributes).Nodup) (mem : a ∈ w.attributes) :
    ∃ before after, w.attributes = before ++ a :: after ∧ a.key ∉ keys after := by
  obtain ⟨before, after, split⟩ := List.append_of_mem mem
  refine ⟨before, after, split, fun later => ?_⟩
  rw [split, keys, List.map_append, List.map_cons] at distinct
  exact (List.nodup_cons.mp (List.nodup_append.mp distinct).2.1).1 later

theorem toList_attrs (distinct : (keys w.attributes).Nodup) :
    w.openTag.attrs.toList = w.attributes.map fun a => (a.key, a.meaning) := by
  refine NameMap.toList_eq_of_get? ?_ fun e mem => ?_
  · rw [names_openTag distinct, List.map_map]
    rfl
  · obtain ⟨a, written, rfl⟩ := List.mem_map.mp mem
    obtain ⟨before, after, split, last⟩ := exists_split_of_mem distinct written
    rw [openTag, tagOf, split, OpenTag.attrs_get?_addAll _ _ last]

theorem toList_sourceAttrs (distinct : (keys w.attributes).Nodup) (line : Option Int) :
    (w.startTag line).sourceAttrs.toList = w.attributes.map fun a => (a.key, a.source) := by
  refine NameMap.toList_eq_of_get? ?_ fun e mem => ?_
  · rw [names_sourceAttrs, names_openTag distinct, List.map_map]
    rfl
  · obtain ⟨a, written, rfl⟩ := List.mem_map.mp mem
    obtain ⟨before, after, split, last⟩ := exists_split_of_mem distinct written
    exact sourceAttrs_get? split last line

end WrittenTag

/-! ### Tags in writing -/

variable {encoded : Bool}

namespace WrittenAttribute

theorem key_ofPair (name : String) (value : Option String) :
    (ofPair encoded name value).key = Text.lower name := by
  simp [ofPair, key]

theorem source_ofPair (name : String) (value : Option String) :
    (ofPair encoded name value).source =
      value.map fun v => escape (Quote.choose v) encoded v := by
  cases value <;> simp [ofPair, source]

theorem meaning_ofPair (name : String) (value : Option String) :
    (ofPair encoded name value).meaning =
      value.map fun v => decode (escape (Quote.choose v) encoded v) := by
  cases value <;> simp [ofPair, meaning, WrittenValue.meaning]

end WrittenAttribute

namespace WrittenTag

variable {name : String} {attrs : Attributes} (low : ∀ n ∈ attrs.names, Text.lower n = n)
include low

theorem key_ofPair_of_mem {e : String × Option String} (mem : e ∈ attrs.toList) :
    (WrittenAttribute.ofPair encoded e.1 e.2).key = e.1 :=
  (WrittenAttribute.key_ofPair ..).trans (low e.1 (List.mem_map.mpr ⟨e, mem, rfl⟩))

theorem nodup_keys_ofStart : (keys (ofStart encoded name attrs).attributes).Nodup := by
  have names : keys (ofStart encoded name attrs).attributes = attrs.names := by
    rw [keys, ofStart, List.map_map]
    exact List.map_congr_left fun e mem => key_ofPair_of_mem low mem
  rw [names]
  exact attrs.nodup

/-- **The attributes of a tag in writing** have the texts that they were written with. -/
theorem sourceAttrs_ofStart (line : Option Int) :
    ((ofStart encoded name attrs).startTag line).sourceAttrs.toList =
      attrs.toList.map fun e => (e.1, e.2.map fun v => escape (Quote.choose v) encoded v) := by
  rw [toList_sourceAttrs (nodup_keys_ofStart low), ofStart, List.map_map]
  exact List.map_congr_left fun e mem =>
    Prod.ext (key_ofPair_of_mem low mem) (WrittenAttribute.source_ofPair ..)

theorem attrs_ofStart : (ofStart encoded name attrs).openTag.attrs.toList =
    attrs.toList.map fun e => (e.1, e.2.map fun v => decode (escape (Quote.choose v) encoded v)) := by
  rw [toList_attrs (nodup_keys_ofStart low), ofStart, List.map_map]
  exact List.map_congr_left fun e mem =>
    Prod.ext (key_ofPair_of_mem low mem) (WrittenAttribute.meaning_ofPair ..)

end WrittenTag

end Markup

end HtmlMend
