import HtmlMend.Markup.Construct

/-! # Markup: written attributes

An attribute in writing: spaces, a name, and perhaps a value, in quotes or without. `Linked` says
that each attribute of a list ends where the text after it begins: a bare name before a character
that cannot go on a name, a value without quotes before one that ends it. `OpenTag.addAll` is the
meaning of a list of attributes, with the places of the values. -/

namespace HtmlMend.Markup

/-- The value of an attribute in writing, with the spaces around the `=`. -/
structure WrittenValue where
  before : List Char
  after : List Char
  quote : Option Char
  text : List Char

/-- An attribute in writing, with the spaces before it. -/
structure WrittenAttribute where
  spaces : List Char
  name : List Char
  value : Option WrittenValue

/-- All characters are spaces. -/
def AllSpaces (cs : List Char) : Prop := ∀ c ∈ cs, isSpace c = true

/-- The first character of a text that ends with another. -/
def firstOf (cs : List Char) (c : Char) : Char := cs.headD c

/-! ### Writing and meaning -/

namespace WrittenValue

/-- The text of the value, from the `=` and the spaces before it on. -/
def raw (v : WrittenValue) : List Char :=
  v.before ++ '=' :: (v.after ++ v.quote.toList ++ v.text ++ v.quote.toList)

/-- The value that is meant. -/
def meaning (v : WrittenValue) : String :=
  if v.quote.isSome then decode (String.ofList v.text) else String.ofList v.text

/-- The place of the value if its text begins at an offset. -/
def span (v : WrittenValue) (offset : Nat) : Span where
  start := offset + v.before.length + 1 + v.after.length + v.quote.toList.length
  stop := offset + v.before.length + 1 + v.after.length + v.quote.toList.length + v.text.length

end WrittenValue

namespace WrittenAttribute

/-- The text of the attribute. -/
def raw (a : WrittenAttribute) : List Char :=
  a.spaces ++ a.name ++ (a.value.map WrittenValue.raw).getD []

/-- The name of the attribute that is meant. -/
def key (a : WrittenAttribute) : String := Text.lower (String.ofList a.name)

/-- The offset at the end of the name if the attribute begins at an offset. -/
def nameStop (a : WrittenAttribute) (offset : Nat) : Nat :=
  offset + a.spaces.length + a.name.length

end WrittenAttribute

/-- The text of attributes. -/
def attributesRaw (as : List WrittenAttribute) : List Char := as.flatMap WrittenAttribute.raw

namespace OpenTag

/-- The tag with a written attribute that begins at an offset. -/
def addWritten (tag : OpenTag) (offset : Nat) (a : WrittenAttribute) : OpenTag :=
  match a.value with
  | none => tag.addBare a.key
  | some v => tag.addValue a.key v.meaning (v.span (a.nameStop offset))

/-- The tag with written attributes that begin at an offset. -/
def addAll (tag : OpenTag) (offset : Nat) : List WrittenAttribute → OpenTag
  | [] => tag
  | a :: as => (tag.addWritten offset a).addAll (offset + a.raw.length) as

@[simp] theorem owner_addWritten (tag : OpenTag) (offset : Nat) (a : WrittenAttribute) :
    (tag.addWritten offset a).owner = tag.owner := by
  unfold addWritten
  split <;> rfl

@[simp] theorem owner_addAll : ∀ (as : List WrittenAttribute) (tag : OpenTag) (offset : Nat),
    (tag.addAll offset as).owner = tag.owner
  | [], _, _ => rfl
  | a :: as, tag, offset => by rw [addAll, owner_addAll as, owner_addWritten]

end OpenTag

@[simp] theorem attributesRaw_nil : attributesRaw [] = [] := rfl

@[simp] theorem attributesRaw_cons (a : WrittenAttribute) (as : List WrittenAttribute) :
    attributesRaw (a :: as) = a.raw ++ attributesRaw as := rfl

@[simp] theorem attributesRaw_append (as bs : List WrittenAttribute) :
    attributesRaw (as ++ bs) = attributesRaw as ++ attributesRaw bs := by simp [attributesRaw]

theorem OpenTag.addAll_append (bs : List WrittenAttribute) :
    ∀ (as : List WrittenAttribute) (tag : OpenTag) (offset : Nat),
      tag.addAll offset (as ++ bs) =
        (tag.addAll offset as).addAll (offset + (attributesRaw as).length) bs
  | [], tag, offset => rfl
  | a :: as, tag, offset => by
    rw [List.cons_append, addAll, addAll, OpenTag.addAll_append bs as, attributesRaw_cons,
      List.length_append, Nat.add_assoc]

/-! ### Well-formed attributes -/

/-- A text is the name of an attribute: a letter, and then characters of names, with colons only in
names of XML and in those that begin with `xml`. -/
structure IsAttributeName (xml : Bool) (name : List Char) : Prop where
  starts : ∃ c cs, name = c :: cs ∧ isNameStart c = true
  chars : ∀ c ∈ name, isNameChar c = true ∨ c = ':'
  colon : ':' ∈ name → xml = true ∨ name.take 3 = ['x', 'm', 'l']

/-- The value is written as values are. -/
structure WrittenValue.Valid (v : WrittenValue) : Prop where
  before : AllSpaces v.before
  after : AllSpaces v.after
  quoted : ∀ q, v.quote = some q → (q = '"' ∨ q = '\'') ∧ q ∉ v.text
  unquoted : v.quote = none → (∀ c ∈ v.text, endsUnquoted c = false) ∧
    ∀ c, v.text.head? = some c → isSpace c = false

/-- The attribute is written as attributes are. -/
structure WrittenAttribute.Valid (xml : Bool) (a : WrittenAttribute) : Prop where
  spaces : AllSpaces a.spaces
  name : IsAttributeName xml a.name
  value : ∀ v, a.value = some v → v.Valid

/-- The attribute ends before a character. An empty value without quotes ends only where no space
or quote would begin a value. -/
def WrittenAttribute.EndsBefore (xml : Bool) (a : WrittenAttribute) (next : Char) : Prop :=
  match a.value with
  | none => continuesAttributeName xml (String.ofList a.name) next = false
  | some v => v.quote = none → endsUnquoted next = true ∧
      (v.text = [] → isSpace next = false ∧ next ≠ '"' ∧ next ≠ '\'')

/-- Each of the attributes is valid and ends where the text after it begins; after the last one the
text begins with `next`. -/
def Linked (xml : Bool) : List WrittenAttribute → Char → Prop
  | [], _ => True
  | a :: as, next =>
    a.Valid xml ∧ a.EndsBefore xml (firstOf (attributesRaw as) next) ∧ Linked xml as next

theorem Linked.valid {xml : Bool} {next : Char} : ∀ {as : List WrittenAttribute},
    Linked xml as next → ∀ a ∈ as, a.Valid xml
  | [], _, _, mem => by cases mem
  | b :: as, ⟨valid, _, linked⟩, a, mem => by
    rcases List.mem_cons.mp mem with rfl | mem
    · exact valid
    · exact linked.valid a mem

theorem firstOf_append (xs ys : List Char) (c : Char) :
    firstOf (xs ++ ys) c = firstOf xs (firstOf ys c) := by
  cases xs <;> rfl

theorem firstOf_of_ne_nil {xs : List Char} (h : xs ≠ []) (c d : Char) :
    firstOf xs c = firstOf xs d := by
  cases xs with
  | nil => exact absurd rfl h
  | cons x xs => rfl

theorem linked_append {xml : Bool} {next : Char} {bs : List WrittenAttribute} :
    ∀ as : List WrittenAttribute, Linked xml (as ++ bs) next ↔
      Linked xml as (firstOf (attributesRaw bs) next) ∧ Linked xml bs next
  | [] => by simp [Linked]
  | a :: as => by
    simp only [List.cons_append, Linked, linked_append as, attributesRaw_append, firstOf_append,
      and_assoc]

theorem linked_singleton {xml : Bool} {next : Char} {a : WrittenAttribute} :
    Linked xml [a] next ↔ a.Valid xml ∧ a.EndsBefore xml next := by
  simp [Linked, firstOf]

/-! ### Names -/

theorem isNameChar_colon : isNameChar ':' = false := by decide

theorem isSpace_of_isNameChar {c : Char} (h : isNameChar c = true) : isSpace c = false := by
  cases space : isSpace c with
  | false => rfl
  | true =>
    simp only [isSpace, Bool.or_eq_true, decide_eq_true_eq] at space
    rcases space with ((((rfl | rfl) | rfl) | rfl) | rfl) | rfl <;> exact absurd h (by decide)

theorem ne_of_isNameChar {c d : Char} (hc : isNameChar c = true) (hd : isNameChar d = false) :
    c ≠ d := by
  rintro rfl
  rw [hc] at hd
  cases hd

theorem continuesAttributeName_of_isNameChar {xml : Bool} {name : String} {c : Char}
    (h : isNameChar c = true) : continuesAttributeName xml name c = true := by
  simp [continuesAttributeName, h]

namespace IsAttributeName

variable {xml : Bool} {name : List Char}

theorem ne_nil (h : IsAttributeName xml name) : name ≠ [] := by
  obtain ⟨c, cs, rfl, -⟩ := h.starts
  simp

theorem singleton {c : Char} (h : isNameStart c = true) : IsAttributeName xml [c] where
  starts := ⟨c, [], rfl, h⟩
  chars d hd := by
    obtain rfl : d = c := by simpa using hd
    exact .inl (isNameChar_of_isNameStart h)
  colon hc := by
    have : ':' = c := by simpa using hc
    subst this
    exact absurd h (by decide)

/-- A name goes on with the characters that continue it. -/
theorem push (h : IsAttributeName xml name) {c : Char}
    (continues : continuesAttributeName xml (String.ofList name) c = true) :
    IsAttributeName xml (name ++ [c]) := by
  obtain ⟨d, ds, rfl, start⟩ := h.starts
  simp only [continuesAttributeName, Bool.or_eq_true, Bool.and_eq_true, decide_eq_true_eq,
    String.toList_ofList] at continues
  refine ⟨⟨d, ds ++ [c], rfl, start⟩, fun e he => ?_, fun hc => ?_⟩
  · rcases List.mem_append.mp he with he | he
    · exact h.chars e he
    · obtain rfl : e = c := by simpa using he
      exact continues.imp_right And.left
  · have grow : (d :: ds).take 3 = ['x', 'm', 'l'] →
        (d :: ds ++ [c]).take 3 = ['x', 'm', 'l'] := by
      intro e
      have long : 3 ≤ (d :: ds).length := by
        have := congrArg List.length e
        simp only [List.length_take, List.length_cons, List.length_nil] at this ⊢
        omega
      rw [List.take_append_of_le_length long, e]
    rcases List.mem_append.mp hc with hc | hc
    · exact (h.colon hc).imp_right grow
    · obtain rfl : ':' = c := by simpa using hc
      rcases continues with continues | ⟨-, continues⟩
      · rw [isNameChar_colon] at continues
        cases continues
      · exact continues.imp_right grow

theorem continues_of_append {pre post : List Char} {c : Char}
    (h : IsAttributeName xml (pre ++ c :: post)) :
    continuesAttributeName xml (String.ofList pre) c = true := by
  rcases h.chars c (by simp) with char | rfl
  · exact continuesAttributeName_of_isNameChar char
  · simp only [continuesAttributeName, isNameChar_colon, Bool.false_or, Bool.and_eq_true,
      decide_eq_true_eq, Bool.or_eq_true, String.toList_ofList, true_and]
    refine (h.colon (by simp)).imp_right fun e => ?_
    match pre, e with
    | [], e => simp at e
    | [a], e => simp at e
    | [a, b], e => simp at e
    | a :: b :: c :: pre, e => simpa using e

end IsAttributeName

end HtmlMend.Markup
