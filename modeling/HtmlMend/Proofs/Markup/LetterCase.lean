import HtmlMend.Proofs.Markup.Unique
import HtmlMend.Proofs.Text.Lowercase

/-! # Markup: the case of letters in names

Two tags differ in the case of letters if they are the same once the names in them are put in small
letters of ASCII (`WrittenTag.caseless`). They mean the same attributes with values at the same
places (`WrittenTag.startTag_caseless`). Where names of XML are read they are both written as tags
are or neither is (`WrittenTag.valid_caseless`); elsewhere that is not so, because a name may have a
colon only if its first letters are those of `xml` in small letters (`WrittenTag.valid_iff`). -/

namespace HtmlMend.Markup

/-! ### Names in small letters -/

/-- The attribute with its name in small letters of ASCII. -/
def WrittenAttribute.caseless (a : WrittenAttribute) : WrittenAttribute :=
  { a with name := a.name.map Char.toLower }

/-- The tag with the names in it in small letters of ASCII. -/
def WrittenTag.caseless (w : WrittenTag) : WrittenTag :=
  { w with
    name := w.name.map Char.toLower
    attributes := w.attributes.map WrittenAttribute.caseless }

/-- The tags differ in nothing but the case of letters of ASCII in their names. -/
def WrittenTag.SameButCase (w w' : WrittenTag) : Prop := w.caseless = w'.caseless

/-- A colon in the name of an attribute is one of XML, or the name begins with `xml`. -/
def WrittenAttribute.AdmitsColon (xml : Bool) (a : WrittenAttribute) : Prop :=
  ':' ∈ a.name → xml = true ∨ a.name.take 3 = ['x', 'm', 'l']

/-! ### Characters -/

theorem ignoresCase_isSpace : Text.IgnoresCase isSpace :=
  Text.ignoresCase_of_ascii (by decide +kernel)

theorem ignoresCase_isNameStart : Text.IgnoresCase isNameStart := Text.ignoresCase_isLetter

theorem ignoresCase_isNameChar : Text.IgnoresCase isNameChar :=
  Text.ignoresCase_of_ascii (by decide +kernel)

theorem ignoresCase_endsUnquoted : Text.IgnoresCase endsUnquoted :=
  Text.ignoresCase_of_ascii (by decide +kernel)

theorem toLower_eq_colon_iff (c : Char) : c.toLower = ':' ↔ c = ':' :=
  Text.toLower_eq_iff (by decide) c

/-! ### Names -/

section Names
variable {name : List Char}

theorem head?_any_isNameStart :
    (name.map Char.toLower).head?.any isNameStart = name.head?.any isNameStart := by
  cases name with
  | nil => rfl
  | cons c cs => exact ignoresCase_isNameStart c

theorem isTagName_caseless : IsTagName (name.map Char.toLower) ↔ IsTagName name := by
  have chars : isNameChar ∘ Char.toLower = isNameChar := funext ignoresCase_isNameChar
  rw [isTagName_iff, isTagName_iff, head?_any_isNameStart, List.all_map, chars]

theorem isAttributeName_true_iff : IsAttributeName true name ↔
    name.head?.any isNameStart = true ∧ ∀ c ∈ name, isNameChar c = true ∨ c = ':' := by
  constructor
  · rintro ⟨⟨c, cs, rfl, start⟩, chars, -⟩
    exact ⟨start, chars⟩
  · rintro ⟨start, chars⟩
    refine ⟨?_, chars, fun _ => .inl rfl⟩
    cases name with
    | nil => cases start
    | cons c cs => exact ⟨c, cs, rfl, start⟩

theorem isAttributeName_caseless :
    IsAttributeName true (name.map Char.toLower) ↔ IsAttributeName true name := by
  simp only [isAttributeName_true_iff, head?_any_isNameStart, List.forall_mem_map,
    ignoresCase_isNameChar _, toLower_eq_colon_iff]

theorem isAttributeName_iff {xml : Bool} : IsAttributeName xml name ↔ IsAttributeName true name ∧
    (':' ∈ name → xml = true ∨ name.take 3 = ['x', 'm', 'l']) :=
  ⟨fun h => ⟨⟨h.starts, h.chars, fun _ => .inl rfl⟩, h.colon⟩,
    fun h => ⟨h.1.starts, h.1.chars, h.2⟩⟩

end Names

/-! ### Attributes -/

namespace WrittenAttribute

variable {a : WrittenAttribute}

@[simp] theorem key_caseless (a : WrittenAttribute) : a.caseless.key = a.key :=
  Text.lower_map_toLower a.name

@[simp] theorem length_raw_caseless (a : WrittenAttribute) :
    a.caseless.raw.length = a.raw.length := by
  simp [raw, caseless]

@[simp] theorem nameStop_caseless (a : WrittenAttribute) (offset : Nat) :
    a.caseless.nameStop offset = a.nameStop offset := by
  simp [nameStop, caseless]

theorem map_raw_caseless (a : WrittenAttribute) :
    a.caseless.raw.map Char.toLower = a.raw.map Char.toLower := by
  simp only [raw, caseless, List.map_append, Text.map_toLower_map_toLower]

theorem valid_caseless : a.caseless.Valid true ↔ a.Valid true :=
  ⟨fun h => ⟨h.spaces, isAttributeName_caseless.mp h.name, h.value⟩,
    fun h => ⟨h.spaces, isAttributeName_caseless.mpr h.name, h.value⟩⟩

theorem valid_iff {xml : Bool} : a.Valid xml ↔ a.Valid true ∧ a.AdmitsColon xml :=
  ⟨fun h => ⟨⟨h.spaces, (isAttributeName_iff.mp h.name).1, h.value⟩, h.name.colon⟩,
    fun h => ⟨h.1.spaces, isAttributeName_iff.mpr ⟨h.1.name, h.2⟩, h.1.value⟩⟩

/-- Where an attribute ends depends neither on its name nor on the case of what follows. -/
theorem endsBefore_caseless {c d : Char} (same : c.toLower = d.toLower) :
    a.caseless.EndsBefore true c ↔ a.EndsBefore true d := by
  have alike {α : Type} {f : Char → α} (h : Text.IgnoresCase f) : f c = f d := by
    rw [← h c, same, h d]
  have sign (q : Char) (plain : ∀ n < 0x80, (Char.ofNat n).toLower = q ↔ Char.ofNat n = q) :
      c = q ↔ d = q := by
    rw [← Text.toLower_eq_iff plain c, same, Text.toLower_eq_iff plain d]
  have colon := sign ':' (by decide)
  have double := sign '"' (by decide)
  have single := sign '\'' (by decide)
  unfold EndsBefore
  simp only [caseless]
  cases a.value with
  | none => simp only [continuesAttributeName, alike ignoresCase_isNameChar, colon, Bool.true_or]
  | some v =>
    simp only [alike ignoresCase_endsUnquoted, alike ignoresCase_isSpace, ne_eq, double, single]

/-- Before what is no colon an attribute ends as one of XML does. -/
theorem endsBefore_iff {xml : Bool} {c : Char} (ne : c ≠ ':') :
    a.EndsBefore xml c ↔ a.EndsBefore true c := by
  unfold EndsBefore
  split
  · simp [continuesAttributeName, ne]
  · exact Iff.rfl

end WrittenAttribute

theorem map_attributesRaw_caseless : ∀ as : List WrittenAttribute,
    (attributesRaw (as.map WrittenAttribute.caseless)).map Char.toLower =
      (attributesRaw as).map Char.toLower
  | [] => rfl
  | a :: as => by
    rw [List.map_cons, attributesRaw_cons, attributesRaw_cons, List.map_append, List.map_append,
      a.map_raw_caseless, map_attributesRaw_caseless as]

theorem firstOf_map (f : Char → Char) (cs : List Char) (c : Char) :
    firstOf (cs.map f) (f c) = f (firstOf cs c) := by
  cases cs <;> rfl

theorem firstOf_caseless (as : List WrittenAttribute) (c : Char) :
    (firstOf (attributesRaw (as.map WrittenAttribute.caseless)) c).toLower =
      (firstOf (attributesRaw as) c).toLower := by
  rw [← firstOf_map Char.toLower, ← firstOf_map Char.toLower, map_attributesRaw_caseless]

theorem linked_caseless {next : Char} : ∀ {as : List WrittenAttribute},
    Linked true (as.map WrittenAttribute.caseless) next ↔ Linked true as next
  | [] => Iff.rfl
  | a :: as => by
    rw [List.map_cons, Linked, Linked, a.valid_caseless,
      a.endsBefore_caseless (firstOf_caseless as next), linked_caseless]

theorem AllSpaces.firstOf_ne_colon {sp : List Char} (spaces : AllSpaces sp) {next : Char}
    (ne : next ≠ ':') : firstOf sp next ≠ ':' := by
  cases sp with
  | nil => exact ne
  | cons c cs =>
    rintro rfl
    exact absurd (spaces ':' (by simp)) (by decide)

theorem Linked.firstOf_ne_colon {xml : Bool} {next : Char} (ne : next ≠ ':') :
    ∀ {as : List WrittenAttribute}, Linked xml as next → firstOf (attributesRaw as) next ≠ ':'
  | [], _ => ne
  | a :: as, ⟨valid, _, _⟩ => by
    obtain ⟨c, cs, name, start⟩ := valid.name.starts
    have named : c ≠ ':' := by
      rintro rfl
      exact absurd start (by decide)
    have first : firstOf (attributesRaw (a :: as)) next = firstOf a.spaces c := by
      rw [attributesRaw_cons, WrittenAttribute.raw, name]
      cases a.spaces <;> rfl
    rw [first]
    exact valid.spaces.firstOf_ne_colon named

/-- Attributes are linked if they are so as ones of XML and colons are admitted in their names. -/
theorem linked_iff {xml : Bool} {next : Char} (ne : next ≠ ':') : ∀ {as : List WrittenAttribute},
    Linked xml as next ↔ Linked true as next ∧ ∀ a ∈ as, a.AdmitsColon xml
  | [] => by simp [Linked]
  | a :: as => by
    rw [Linked, Linked, List.forall_mem_cons, linked_iff ne, a.valid_iff]
    constructor
    · rintro ⟨⟨valid, colon⟩, ends, linked, colons⟩
      have first := linked.firstOf_ne_colon ne
      exact ⟨⟨valid, (a.endsBefore_iff first).mp ends, linked⟩, colon, colons⟩
    · rintro ⟨⟨valid, ends, linked⟩, colon, colons⟩
      have first := linked.firstOf_ne_colon ne
      exact ⟨⟨valid, colon⟩, (a.endsBefore_iff first).mpr ends, linked, colons⟩

theorem OpenTag.addAll_caseless : ∀ (as : List WrittenAttribute) (tag : OpenTag) (offset : Nat),
    tag.addAll offset (as.map WrittenAttribute.caseless) = tag.addAll offset as
  | [], _, _ => rfl
  | a :: as, tag, offset => by
    have written : tag.addWritten offset a.caseless = tag.addWritten offset a := by
      unfold addWritten
      rw [a.key_caseless, a.nameStop_caseless]
      rfl
    rw [List.map_cons, addAll, addAll, written, a.length_raw_caseless, addAll_caseless as]

/-! ### Tags -/

namespace WrittenTag

variable {w w' : WrittenTag} {xml : Bool}

theorem map_raw_caseless (w : WrittenTag) :
    w.caseless.raw.map Char.toLower = w.raw.map Char.toLower := by
  simp only [raw, lead, caseless, closer, List.map_append, List.map_cons,
    Text.map_toLower_map_toLower, map_attributesRaw_caseless]

/-- **The case of letters in names does not count** in what a tag means. -/
theorem startTag_caseless (w : WrittenTag) (line : Option Int) :
    w.caseless.startTag line = { w.startTag line with raw := String.ofList w.caseless.raw } := by
  have key : w.caseless.key = w.key := Text.lower_map_toLower w.name
  have length : w.caseless.lead.length = w.lead.length := by simp [lead, caseless]
  have openTag : w.caseless.openTag = w.openTag := by
    rw [openTag, openTag, tagOf, tagOf, key, length]
    exact OpenTag.addAll_caseless w.attributes _ _
  rw [startTag, startTag, key, openTag]
  rfl

/-- Where names of XML are read, the case of letters in names does not count. -/
theorem valid_caseless : w.caseless.Valid true ↔ w.Valid true := by
  have guard : isNameChar (firstOf (attributesRaw w.caseless.attributes ++ w.spaces)
      w.closer.first) = isNameChar (firstOf (attributesRaw w.attributes ++ w.spaces)
        w.closer.first) := by
    rw [firstOf_append, firstOf_append, ← ignoresCase_isNameChar,
      ← ignoresCase_isNameChar (firstOf (attributesRaw w.attributes) _)]
    exact congrArg isNameChar (firstOf_caseless w.attributes _)
  constructor
  · rintro ⟨name, spaces, first, linked⟩
    exact ⟨isTagName_caseless.mp name, spaces, guard.symm.trans first, linked_caseless.mp linked⟩
  · rintro ⟨name, spaces, first, linked⟩
    exact ⟨isTagName_caseless.mpr name, spaces, guard.trans first, linked_caseless.mpr linked⟩

/-- **A tag is written as tags are** if it is so as one of XML and colons are admitted in it. -/
theorem valid_iff : w.Valid xml ↔ w.Valid true ∧ ∀ a ∈ w.attributes, a.AdmitsColon xml := by
  have closes : w.closer.first ≠ ':' := by
    rw [closer]
    cases w.selfClosing <;> decide
  constructor
  · rintro ⟨name, spaces, first, linked⟩
    obtain ⟨linked, colons⟩ := (linked_iff (spaces.firstOf_ne_colon closes)).mp linked
    exact ⟨⟨name, spaces, first, linked⟩, colons⟩
  · rintro ⟨⟨name, spaces, first, linked⟩, colons⟩
    have next := spaces.firstOf_ne_colon closes
    exact ⟨name, spaces, first, (linked_iff next).mpr ⟨linked, colons⟩⟩

namespace SameButCase

variable (same : w.SameButCase w')
include same

theorem valid (valid : w.Valid true) : w'.Valid true := by
  have h := valid_caseless.mpr valid
  rw [same] at h
  exact valid_caseless.mp h

theorem startTag (line : Option Int) :
    w'.startTag line = { w.startTag line with raw := String.ofList w'.raw } := by
  have h := congrArg (fun tag : StartTag => { tag with raw := String.ofList w'.raw })
    ((w.startTag_caseless line).symm.trans ((congrArg (·.startTag line) same).trans
      (w'.startTag_caseless line)))
  exact h.symm

theorem count_lineEnd : w'.raw.count '\n' = w.raw.count '\n' := by
  have count (cs : List Char) : (cs.map Char.toLower).count '\n' = cs.count '\n' := by
    rw [List.count_eq_countP, List.countP_map, List.count_eq_countP]
    refine List.countP_congr fun c _ => ?_
    simpa using Text.toLower_eq_iff (d := '\n') (by decide) c
  rw [← count w'.raw, ← count w.raw, ← w'.map_raw_caseless, ← same, w.map_raw_caseless]

end SameButCase

end WrittenTag

end HtmlMend.Markup
