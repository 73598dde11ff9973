import HtmlMend.Markup.Written
import HtmlMend.Proofs.Markup.Form
import HtmlMend.Proofs.Markup.Meaning
import HtmlMend.Proofs.Text.Lowercase

/-! # Markup: tags in writing are read again

A start tag that is written for a name and attributes is one that is read
(`WrittenTag.valid_ofStart`), if the names are names. The names that are meant by the attributes of
a tag that was read are names again, since lower case keeps letters and numbers, unless a dotted
capital I is in them (`IsAttributeName.lower`). -/

namespace HtmlMend.Markup

variable {xml : Bool}

/-! ### Names in lower case -/

theorem IsAttributeName.lower {name : List Char} (h : IsAttributeName xml name)
    (single : 'İ' ∉ name) : IsAttributeName xml (Text.lower (String.ofList name)).toList := by
  rw [Text.toList_lower, String.toList_ofList]
  have single : ∀ c ∈ name, c ≠ 'İ' := fun c mem e => single (e ▸ mem)
  have nameChar {c d : Char} (lower : Text.IsLower c d) (char : isNameChar c = true) :
      isNameChar d = true := by
    simp only [isNameChar, Bool.or_eq_true, decide_eq_true_eq] at char ⊢
    rcases char with (number | rfl) | rfl
    · exact .inl (.inl (Text.isAlphanumeric_of_isLower lower number))
    · exact .inl (.inr (Text.eq_of_isLower lower (by decide) (by decide)))
    · exact .inr (Text.eq_of_isLower lower (by decide) (by decide))
  refine ⟨?_, ?_, fun mem => ?_⟩
  · obtain ⟨c, cs, rfl, start⟩ := h.starts
    obtain ⟨d, lower, split⟩ := Text.lowerAfter_cons (single c (by simp)) [] cs
    exact ⟨d, _, split, Text.isLetter_of_isLower lower start⟩
  · refine Text.forall_mem_lowerAfter fun c mem => ⟨single c mem, fun d lower => ?_⟩
    rcases h.chars c mem with char | rfl
    · exact .inl (nameChar lower char)
    · exact .inr (Text.eq_of_isLower lower (by decide) (by decide))
  · -- A colon is the form of nothing but a colon.
    have colon : ':' ∈ name := by
      refine Decidable.by_contra fun absent => ?_
      have chars : ∀ d ∈ Text.lowerAfter [] name, isNameChar d = true := by
        refine Text.forall_mem_lowerAfter fun c mem => ⟨single c mem, fun d lower => ?_⟩
        rcases h.chars c mem with char | rfl
        · exact nameChar lower char
        · exact absurd mem absent
      exact absurd (chars ':' mem) (by decide)
    refine (h.colon colon).imp_right fun first => ?_
    obtain ⟨rest, rfl⟩ : ∃ rest, name = 'x' :: 'm' :: 'l' :: rest :=
      ⟨name.drop 3, by rw [← List.take_append_drop 3 name, first]; simp⟩
    simp [Text.lowerAfter, Text.lowerChar]

/-! ### Attributes -/

theorem quote_not_mem_escape (quote : Quote) (encoded : Bool) (value : String) :
    quote.char ∉ (escape quote encoded value).toList := by
  intro mem
  simp only [escape, String.toList_ofList, List.mem_flatMap] at mem
  obtain ⟨c, -, mem⟩ := mem
  unfold escapeChar at mem
  split at mem
  · revert mem
    cases quote <;> decide
  next other =>
  have plain (here : quote.char ∈ [c]) : False := other (by simpa [eq_comm] using here)
  split at mem
  · exact plain mem
  repeat' split at mem
  · revert mem
    cases quote <;> decide
  · revert mem
    cases quote <;> decide
  · revert mem
    cases quote <;> decide
  · exact plain mem

/-- An attribute as it is written. -/
def WrittenAttribute.ofPair (encoded : Bool) (name : String) (value : Option String) :
    WrittenAttribute where
  spaces := [' ']
  name := name.toList
  value := value.map fun v =>
    ⟨[], [], some (Quote.choose v).char, (escape (Quote.choose v) encoded v).toList⟩

namespace WrittenAttribute

variable {encoded : Bool} {name : String} {value : Option String}

theorem raw_ofPair :
    (ofPair encoded name value).raw = (writeAttribute encoded name value).toList := by
  cases value with
  | none => simp [ofPair, raw, writeAttribute]
  | some v => simp [ofPair, raw, writeAttribute, WrittenValue.raw]

theorem valid_ofPair (isName : IsAttributeName xml name.toList) :
    (ofPair encoded name value).Valid xml := by
  refine ⟨allSpaces_singleton (by decide), isName, fun v h => ?_⟩
  obtain ⟨v, -, rfl⟩ := Option.map_eq_some_iff.mp h
  refine ⟨allSpaces_nil, allSpaces_nil, fun q h => ?_, fun h => nomatch h⟩
  obtain rfl := Option.some.inj h
  refine ⟨?_, quote_not_mem_escape _ _ _⟩
  cases Quote.choose v
  · exact .inl rfl
  · exact .inr rfl

theorem endsBefore_ofPair {c : Char} (char : isNameChar c = false) (colon : c ≠ ':') :
    (ofPair encoded name value).EndsBefore xml c := by
  cases value with
  | none => simp [ofPair, EndsBefore, continuesAttributeName, char, colon]
  | some v =>
    intro unquoted
    cases unquoted

end WrittenAttribute

/-- A start tag as it is written. -/
def WrittenTag.ofStart (encoded : Bool) (name : String) (attrs : Attributes) : WrittenTag where
  name := name.toList
  attributes := attrs.toList.map fun e => .ofPair encoded e.1 e.2

namespace WrittenTag

variable {encoded : Bool} {name : String} {attrs : Attributes}

theorem raw_ofStart :
    (ofStart encoded name attrs).raw = (writeStartTag encoded name attrs).toList := by
  have attributes : ∀ pairs : List (String × Option String),
      attributesRaw (pairs.map fun e => .ofPair encoded e.1 e.2) =
        (String.join (pairs.map fun e => writeAttribute encoded e.1 e.2)).toList := by
    intro pairs
    induction pairs with
    | nil => rfl
    | cons e rest ih => simp [WrittenAttribute.raw_ofPair, ih]
  simp [raw, lead, ofStart, closer, Closer.raw, writeStartTag, attributes]

theorem firstOf_ofPairs : ∀ pairs : List (String × Option String),
    firstOf (attributesRaw (pairs.map fun e => .ofPair encoded e.1 e.2)) '>' ∈ [' ', '>']
  | [] => by simp [firstOf]
  | e :: rest => by simp [firstOf, WrittenAttribute.raw, WrittenAttribute.ofPair]

theorem ends_of_mem {c : Char} (h : c ∈ [' ', '>']) : isNameChar c = false ∧ c ≠ ':' := by
  obtain rfl | rfl : c = ' ' ∨ c = '>' := by simpa using h
  · decide
  · decide

theorem linked_ofPairs : ∀ {pairs : List (String × Option String)},
    (∀ n ∈ pairs.map Prod.fst, IsAttributeName xml n.toList) →
    Linked xml (pairs.map fun e => .ofPair encoded e.1 e.2) '>'
  | [], _ => trivial
  | e :: rest, names => by
    have isName := names e.1 (by simp)
    refine ⟨WrittenAttribute.valid_ofPair isName, ?_,
      linked_ofPairs fun n mem => names n (List.mem_cons_of_mem e.1 mem)⟩
    obtain ⟨char, colon⟩ := ends_of_mem (firstOf_ofPairs rest)
    exact WrittenAttribute.endsBefore_ofPair char colon

/-- **A written start tag is written as tags are**, if the names in it are names. -/
theorem valid_ofStart (isName : IsTagName name.toList)
    (names : ∀ n ∈ attrs.names, IsAttributeName xml n.toList) :
    (ofStart encoded name attrs).Valid xml where
  name := isName
  spaces := allSpaces_nil
  follows := by
    refine ⟨?_, linked_ofPairs names⟩
    change isNameChar (firstOf (attributesRaw (attrs.toList.map _) ++ []) '>') = false
    rw [List.append_nil]
    exact (ends_of_mem (firstOf_ofPairs attrs.toList)).1

/-- The names that a written start tag means. -/
theorem mem_names_ofStart {key : String} :
    key ∈ (ofStart encoded name attrs).openTag.attrs.names ↔
      ∃ n ∈ attrs.names, Text.lower n = key := by
  have key_ofPair (e : String × Option String) :
      (WrittenAttribute.ofPair encoded e.1 e.2).key = Text.lower e.1 := by
    simp [WrittenAttribute.ofPair, WrittenAttribute.key]
  rw [openTag, tagOf, OpenTag.mem_names_addAll, NameMap.names_empty]
  simp [keys, ofStart, NameMap.names, key_ofPair]

end WrittenTag

/-- The start tag as it is read on a line. -/
def WrittenTag.startTag (w : WrittenTag) (line : Option Int) : StartTag where
  name := w.key
  attrs := w.openTag.attrs
  selfClosing := w.selfClosing
  spans := w.openTag.spans
  line := line
  raw := String.ofList w.raw

/-! ### Tags that may be changed -/

/-- The value of the attribute is empty and not in quotes. -/
def WrittenAttribute.IsEmptyUnquoted (a : WrittenAttribute) : Prop :=
  ∃ v, a.value = some v ∧ v.quote = none ∧ v.text = []

/-- No attribute of the tag has an empty value without quotes, which would reach for what is written
after it, or a dotted capital I in its name. -/
def WrittenTag.IsTidy (w : WrittenTag) : Prop :=
  ∀ a ∈ w.attributes, ¬a.IsEmptyUnquoted ∧ 'İ' ∉ a.name

theorem WrittenAttribute.firstOf_raw {a : WrittenAttribute} (ne : a.name ≠ []) (c d : Char) :
    firstOf a.raw c = firstOf (a.spaces ++ a.name) d := by
  rw [raw, firstOf_append]
  exact firstOf_of_ne_nil (by simp [ne]) _ _

theorem WrittenAttribute.endsBefore_space {a : WrittenAttribute} (filled : ¬a.IsEmptyUnquoted) :
    a.EndsBefore xml ' ' := by
  unfold EndsBefore
  split
  · next bare => simp [continuesAttributeName, show isNameChar ' ' = false by decide]
  · next v value => exact fun quote => ⟨by decide, fun text => absurd ⟨v, value, quote, text⟩ filled⟩

/-- A space may follow attributes of which the last ends before anything. -/
theorem Linked.space {next : Char} : ∀ {as : List WrittenAttribute}, Linked xml as next →
    (∀ a, as.getLast? = some a → ¬a.IsEmptyUnquoted) → Linked xml as ' '
  | [], _, _ => trivial
  | [a], ⟨valid, _, _⟩, filled => ⟨valid, a.endsBefore_space (filled a rfl), trivial⟩
  | a :: b :: bs, ⟨valid, ends, linked⟩, filled => by
    have ne := linked.1.name.ne_nil
    refine ⟨valid, ?_, linked.space fun c last => filled c last⟩
    rwa [attributesRaw_cons, firstOf_append, WrittenAttribute.firstOf_raw ne _ next] at ends ⊢

end HtmlMend.Markup
