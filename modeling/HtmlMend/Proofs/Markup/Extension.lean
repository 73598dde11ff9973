import HtmlMend.Proofs.Markup.Place

/-! # Markup: values that are made longer

A text may be put at the end of the value of an attribute, in or without quotes, if it begins with a
comma, ends no value and has no ampersand (`IsAddition`). The tag stays one (`valid_extendAt`); its
attributes are the same, in their order, but that the value is longer by that text
(`toList_attrs_extendAt`). -/

namespace HtmlMend

theorem Text.insertAt_append (xs ys : List Char) (more : String) :
    Text.insertAt (String.ofList (xs ++ ys)) xs.length more =
      String.ofList (xs ++ more.toList ++ ys) := by
  simp [Text.insertAt]

namespace Markup

/-- A text that may be put at the end of a value. -/
structure IsAddition (more : List Char) : Prop where
  begins : ∃ rest, more = ',' :: rest
  chars : ∀ c ∈ more, c ≠ '&' ∧ endsUnquoted c = false

theorem decode_of_not_mem {cs : List Char} (plain : '&' ∉ cs) :
    decode (String.ofList cs) = String.ofList cs := by
  have read := readReferences_append_of_ampersand plain []
  rw [List.append_nil] at read
  rw [decode_eq, String.toList_ofList, read, readReferences_nil, List.append_nil]

/-! ### Values -/

variable {more : List Char}

namespace WrittenValue

variable {v : WrittenValue}

/-- The value with a text at its end. -/
def extend (v : WrittenValue) (more : List Char) : WrittenValue := { v with text := v.text ++ more }

theorem valid_extend (valid : v.Valid) (addition : IsAddition more) : (v.extend more).Valid where
  before := valid.before
  after := valid.after
  quoted q quote := by
    obtain ⟨isQuote, inside⟩ := valid.quoted q quote
    refine ⟨isQuote, ?_⟩
    rw [extend, List.mem_append, not_or]
    refine ⟨inside, fun mem => ?_⟩
    have goesOn : endsUnquoted q = false := (addition.chars q mem).2
    rcases isQuote with rfl | rfl <;> exact absurd goesOn (by decide)
  unquoted quote := by
    obtain ⟨inside, start⟩ := valid.unquoted quote
    refine ⟨fun c mem => ?_, fun c first => ?_⟩
    · rcases List.mem_append.mp mem with mem | mem
      · exact inside c mem
      · exact (addition.chars c mem).2
    · obtain ⟨rest, rfl⟩ := addition.begins
      rw [extend, List.head?_append] at first
      cases head : v.text.head? with
      | some d =>
        rw [head] at first
        exact start c (head.trans first)
      | none =>
        rw [head] at first
        obtain rfl := Option.some.inj first
        decide

/-- The text is part of what is meant, as it is. -/
theorem meaning_extend (v : WrittenValue) (addition : IsAddition more) :
    (v.extend more).meaning = v.meaning ++ String.ofList more := by
  obtain ⟨rest, rfl⟩ := addition.begins
  have plain : '&' ∉ rest := fun mem => (addition.chars '&' (List.mem_cons_of_mem _ mem)).1 rfl
  refine String.toList_inj.mp ?_
  unfold meaning
  by_cases quoted : v.quote.isSome = true
  · rw [if_pos quoted, if_pos (show (v.extend _).quote.isSome = true from quoted), extend,
      decode_append, decode_of_not_mem plain]
    simp
  · rw [if_neg quoted, if_neg (show ¬(v.extend _).quote.isSome = true from quoted), extend]
    simp

end WrittenValue

/-! ### Attributes -/

theorem OpenTag.names_addAll_congr : ∀ {as bs : List WrittenAttribute} {tag tag' : OpenTag}
    (offset offset' : Nat), keys as = keys bs → tag.attrs.names = tag'.attrs.names →
    (tag.addAll offset as).attrs.names = (tag'.addAll offset' bs).attrs.names
  | [], [], _, _, _, _, _, names => names
  | [], _ :: _, _, _, _, _, same, _ => nomatch same
  | _ :: _, [], _, _, _, _, same, _ => nomatch same
  | a :: as, b :: bs, tag, tag', offset, offset', same, names => by
    obtain ⟨key, same⟩ := List.cons.inj same
    rw [addAll, addAll]
    refine names_addAll_congr _ _ same ?_
    rw [attrs_addWritten, attrs_addWritten, NameMap.names_insert, NameMap.names_insert, names, key]

namespace WrittenTag

variable {xml : Bool} {w : WrittenTag} {before after : List WrittenAttribute}
  {a : WrittenAttribute} {v : WrittenValue} {span : Span}

/-- The tag with a text at the end of the value of one attribute. -/
def extendAt (w : WrittenTag) (before : List WrittenAttribute) (a : WrittenAttribute)
    (after : List WrittenAttribute) (v : WrittenValue) (more : List Char) : WrittenTag :=
  { w with attributes := before ++ { a with value := some (v.extend more) } :: after }

theorem valid_extendAt (valid : w.Valid xml) (split : w.attributes = before ++ a :: after)
    (value : a.value = some v) (addition : IsAddition more) :
    (w.extendAt before a after v more).Valid xml := by
  obtain ⟨guard, linked⟩ := valid.follows
  rw [split] at guard linked
  obtain ⟨linkedBefore, validA, endsA, linkedAfter⟩ := (linked_append before).mp linked
  have ne := validA.name.ne_nil
  -- The attribute begins as before.
  have first (rest : List Char) (c : Char) :
      firstOf (({ a with value := some (v.extend more) } : WrittenAttribute).raw ++ rest) c =
        firstOf (a.raw ++ rest) c := by
    have ne' : ({ a with value := some (v.extend more) } : WrittenAttribute).name ≠ [] := ne
    rw [firstOf_append, firstOf_append, WrittenAttribute.firstOf_raw ne' _ c,
      WrittenAttribute.firstOf_raw ne _ c]
  refine ⟨valid.name, valid.spaces, ?_, ?_⟩
  · rw [extendAt, attributesRaw_append, attributesRaw_cons, List.append_assoc, firstOf_append,
      List.append_assoc, first]
    rw [attributesRaw_append, attributesRaw_cons, List.append_assoc, firstOf_append,
      List.append_assoc] at guard
    exact guard
  · refine (linked_append before).mpr ⟨?_, ⟨validA.spaces, validA.name, ?_⟩, ?_, linkedAfter⟩
    · rw [attributesRaw_cons, first]
      exact linkedBefore
    · intro v' h
      obtain rfl := Option.some.inj h
      exact WrittenValue.valid_extend (validA.value v value) addition
    · obtain ⟨rest, rfl⟩ := addition.begins
      simp only [WrittenAttribute.EndsBefore, value] at endsA ⊢
      exact fun quote => ⟨(endsA quote).1, fun empty => by simp [WrittenValue.extend] at empty⟩

namespace IsLastAt

/-- The attribute is the last of its name with the longer value. -/
theorem extendAt (h : w.IsLastAt before a after v span) (more : List Char) :
    (w.extendAt before a after v more).IsLastAt before { a with value := some (v.extend more) }
      after (v.extend more) ⟨span.start, span.stop + more.length⟩ where
  split := rfl
  last := h.last
  value := rfl
  place := by
    have stop : (w.beforeText before a v ++ (v.text ++ more)).length =
        (w.beforeText before a v ++ v.text).length + more.length := by
      rw [← List.append_assoc, List.length_append]
    rw [h.place, ← stop]
    rfl

/-- The text of the tag is that of the tag before, with the text put in. -/
theorem insertAt_eq (h : w.IsLastAt before a after v span) (more : String) :
    Text.insertAt (String.ofList w.raw) span.stop more =
      String.ofList (w.extendAt before a after v more.toList).raw := by
  have longer := h.extendAt more.toList
  rw [raw_eq_text h.split h.value, raw_eq_text longer.split longer.value, h.place,
    Text.insertAt_append]
  simp [beforeText, afterText, WrittenValue.extend, WrittenTag.extendAt, lead, closer]

theorem attrs_get?_extendAt (h : w.IsLastAt before a after v span) (more : List Char) {key : String}
    (ne : key ≠ a.key) : (w.extendAt before a after v more).openTag.attrs.get? key =
      w.openTag.attrs.get? key := by
  have longer := (h.extendAt more).split
  rw [openTag, tagOf, longer, openTag, tagOf, h.split, OpenTag.addAll_append,
    OpenTag.addAll_append, OpenTag.addAll, OpenTag.addAll]
  refine OpenTag.attrs_get?_congr after _ _ ?_
  have ne' : key ≠ ({ a with value := some (v.extend more) } : WrittenAttribute).key := ne
  rw [OpenTag.attrs_addWritten, OpenTag.attrs_addWritten, NameMap.get?_insert, NameMap.get?_insert,
    if_neg ne, if_neg ne']
  rfl

/-- **The attributes of the tag** are those of the tag before, but that the value is longer. -/
theorem toList_attrs_extendAt (h : w.IsLastAt before a after v span) (more : List Char) :
    (w.extendAt before a after v more).openTag.attrs.toList =
      w.openTag.attrs.toList.map fun e =>
        if e.1 = a.key then (e.1, some (v.extend more).meaning) else e := by
  have longer := h.extendAt more
  have names : (w.extendAt before a after v more).openTag.attrs.names = w.openTag.attrs.names := by
    refine OpenTag.names_addAll_congr _ _ ?_ rfl
    rw [longer.split, h.split]
    simp [keys, WrittenAttribute.key]
  refine NameMap.toList_eq_of_get? (names.trans ?_) fun e mem => ?_
  · rw [List.map_map]
    refine List.map_congr_left fun e _ => ?_
    dsimp only [Function.comp_apply]
    split <;> rfl
  · obtain ⟨e, pair, rfl⟩ := List.mem_map.mp mem
    by_cases here : e.1 = a.key
    · simp only [if_pos here]
      rw [here]
      exact longer.attrs_get?
    · simp only [if_neg here]
      rw [h.attrs_get?_extendAt more here]
      exact NameMap.get?_of_mem pair

end IsLastAt

end WrittenTag

end Markup

end HtmlMend
