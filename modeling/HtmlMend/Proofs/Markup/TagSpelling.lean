import HtmlMend.Proofs.Markup.TagReading

/-! # Markup: attributes that are written are read

An unfinished construct stands for a tag if it goes on as the tag does after spaces: a tag itself,
but also a name or a value that the next character ends (`StandsFor`). Reading a written attribute
leads from one such construct to another (`StandsFor.feed_attribute`), and so does reading a list of
them (`StandsFor.feed_attributes`). -/

namespace HtmlMend.Markup

open Unfinished

variable {xml inScript : Bool} {guard : Char → Prop}

/-- A construct goes on as a tag does, after spaces and before a character that `guard` admits. -/
def StandsFor (xml inScript : Bool) (guard : Char → Prop) (u : Unfinished) (read : List Char)
    (tag : OpenTag) : Prop :=
  ∀ sp c, AllSpaces sp → isSpace c = false → c ≠ '=' → guard (firstOf sp c) →
    ∃ v, u.feed xml inScript read sp = some v ∧
      v.next xml inScript (String.ofList (read ++ sp)) c = tag.next c

/-! ### Constructs that stand for tags -/

theorem feed_attributes_spaces (tag : OpenTag) (read : List Char) {sp : List Char}
    (spaces : AllSpaces sp) :
    (Unfinished.attributes tag).feed xml inScript read sp = some (.attributes tag) :=
  feed_of_stays read fun c hc _ => by simp [Unfinished.next, OpenTag.next, spaces c hc]

theorem standsFor_attributes (tag : OpenTag) (read : List Char) :
    StandsFor xml inScript (fun _ => True) (.attributes tag) read tag :=
  fun _ _ spaces _ _ _ => ⟨_, feed_attributes_spaces tag read spaces, rfl⟩

/-- A construct that goes on as a tag does with the characters that `guard` admits. -/
theorem standsFor_of_next {u : Unfinished} {read : List Char} {tag : OpenTag}
    (same : ∀ c, guard c → u.next xml inScript (String.ofList read) c = tag.next c) :
    StandsFor xml inScript guard u read tag := by
  intro sp c spaces space equals admits
  match sp, spaces, admits with
  | [], _, admits => exact ⟨u, rfl, by rw [List.append_nil]; exact same c admits⟩
  | s :: sp, spaces, admits =>
    have more : u.next xml inScript (String.ofList read) s = .more (.attributes tag) := by
      rw [same s admits, OpenTag.next, if_pos (spaces s (by simp))]
    refine ⟨.attributes tag, ?_, rfl⟩
    rw [feed_cons more]
    exact feed_attributes_spaces tag _ fun d hd => spaces d (List.mem_cons_of_mem s hd)

theorem feed_afterAttributeName_spaces (tag : OpenTag) (name : String) (read : List Char)
    {sp : List Char} (spaces : AllSpaces sp) :
    (Unfinished.afterAttributeName tag name).feed xml inScript read sp =
      some (.afterAttributeName tag name) :=
  feed_of_stays read fun c hc _ => by simp [Unfinished.next, OpenTag.nextAfterName, spaces c hc]

theorem next_attributeName {tag : OpenTag} {name : String} {read : List Char} {c : Char}
    (ends : continuesAttributeName xml name c = false) :
    (Unfinished.attributeName tag name).next xml inScript (String.ofList read) c =
      tag.nextAfterName (Text.lower name) c := by
  simp [Unfinished.next, OpenTag.nextInName, ends]

theorem standsFor_attributeName (tag : OpenTag) (name : String) (read : List Char) :
    StandsFor xml inScript (fun c => continuesAttributeName xml name c = false)
      (.attributeName tag name) read (tag.addBare (Text.lower name)) := by
  intro sp c spaces space equals admits
  have bare : tag.nextAfterName (Text.lower name) c = (tag.addBare (Text.lower name)).next c := by
    simp [OpenTag.nextAfterName, space, equals]
  match sp, spaces, admits with
  | [], _, admits => exact ⟨_, rfl, (next_attributeName admits).trans bare⟩
  | s :: sp, spaces, admits =>
    have more : (Unfinished.attributeName tag name).next xml inScript (String.ofList read) s =
        .more (.afterAttributeName tag (Text.lower name)) := by
      rw [next_attributeName (c := s) admits, OpenTag.nextAfterName, if_pos (spaces s (by simp))]
    refine ⟨.afterAttributeName tag (Text.lower name), ?_, bare⟩
    rw [feed_cons more]
    exact feed_afterAttributeName_spaces tag _ _ fun d hd => spaces d (List.mem_cons_of_mem s hd)

/-! ### Names and values -/

theorem feed_name (tag : OpenTag) {cs pre : List Char} (read : List Char)
    (isName : IsAttributeName xml (pre ++ cs)) :
    (Unfinished.attributeName tag (String.ofList pre)).feed xml inScript read cs =
      some (.attributeName tag (String.ofList (pre ++ cs))) := by
  refine feed_of_grows read fun xs c ys split read => ?_
  rw [split, ← List.append_assoc] at isName
  rw [Unfinished.next, OpenTag.nextInName, if_pos isName.continues_of_append]

/-- A name is read where a tag goes on with its first character. -/
theorem feed_attributeName {v : Unfinished} {tag : OpenTag} {read : List Char} {c : Char}
    {cs : List Char} (isName : IsAttributeName xml (c :: cs))
    (same : v.next xml inScript (String.ofList read) c = tag.next c) :
    v.feed xml inScript read (c :: cs) = some (.attributeName tag (String.ofList (c :: cs))) := by
  obtain ⟨d, ds, split, start⟩ := isName.starts
  obtain ⟨rfl, rfl⟩ := List.cons.inj split
  have space : isSpace c = false := isSpace_of_isNameChar (isNameChar_of_isNameStart start)
  have more : v.next xml inScript (String.ofList read) c =
      .more (.attributeName tag (String.ofList [c])) := by
    rw [same, OpenTag.next, if_neg (by simp [space]), if_pos start]
    simp
  exact (feed_cons more cs).trans (feed_name tag _ (by simpa using isName))

/-- After a name, spaces and `=` lead to the value. -/
theorem feed_equals (tag : OpenTag) (name : String) (read : List Char) {before : List Char}
    (spaces : AllSpaces before) :
    (Unfinished.attributeName tag name).feed xml inScript read (before ++ ['=']) =
      some (.beforeValue tag (Text.lower name)) := by
  have equals : isSpace '=' = false ∧ isNameChar '=' = false := by decide
  have ends : ∀ c, isSpace c = true ∨ c = '=' → continuesAttributeName xml name c = false := by
    intro c hc
    have char : isNameChar c = false := by
      rcases hc with hc | rfl
      · cases char : isNameChar c with
        | false => rfl
        | true => simp [isSpace_of_isNameChar char] at hc
      · exact equals.2
    have colon : c ≠ ':' := by
      rintro rfl
      exact absurd hc (by decide)
    simp [continuesAttributeName, char, colon]
  cases before with
  | nil =>
    refine feed_cons ?_ []
    rw [next_attributeName (ends '=' (.inr rfl))]
    simp [OpenTag.nextAfterName, equals.1]
  | cons s sp =>
    have space : isSpace s = true := spaces s (by simp)
    have more : (Unfinished.attributeName tag name).next xml inScript (String.ofList read) s =
        .more (.afterAttributeName tag (Text.lower name)) := by
      rw [next_attributeName (ends s (.inl space)), OpenTag.nextAfterName, if_pos space]
    rw [List.cons_append, feed_cons more]
    refine feed_trans (feed_afterAttributeName_spaces tag _ _
      fun d hd => spaces d (List.mem_cons_of_mem s hd)) (feed_cons ?_ [])
    simp [Unfinished.next, OpenTag.nextAfterName, equals.1]

theorem feed_beforeValue_spaces (tag : OpenTag) (name : String) (read : List Char)
    {sp : List Char} (spaces : AllSpaces sp) :
    (Unfinished.beforeValue tag name).feed xml inScript read sp = some (.beforeValue tag name) :=
  feed_of_stays read fun c hc _ => by simp [Unfinished.next, OpenTag.nextBeforeValue, spaces c hc]

theorem feed_quotedValue (tag : OpenTag) (name : String) {quote : Char} (start : Nat)
    {cs pre : List Char} (read : List Char) (inside : quote ∉ cs) :
    (Unfinished.quotedValue tag name quote start (String.ofList pre)).feed xml inScript read cs =
      some (.quotedValue tag name quote start (String.ofList (pre ++ cs))) := by
  refine feed_of_grows read fun xs c ys split read => ?_
  have other : c ≠ quote := fun same => inside (by simp [split, same])
  rw [Unfinished.next, OpenTag.nextInQuoted, if_neg other]

theorem feed_unquotedValue (tag : OpenTag) (name : String) (start : Nat) {cs pre : List Char}
    (read : List Char) (inside : ∀ c ∈ cs, endsUnquoted c = false) :
    (Unfinished.unquotedValue tag name start (String.ofList pre)).feed xml inScript read cs =
      some (.unquotedValue tag name start (String.ofList (pre ++ cs))) := by
  refine feed_of_grows read fun xs c ys split read => ?_
  have goesOn : endsUnquoted c = false := inside c (by simp [split])
  simp [Unfinished.next, OpenTag.nextInUnquoted, goesOn]

theorem feed_quoted (tag : OpenTag) (name : String) (read : List Char) {quote : Char}
    (isQuote : quote = '"' ∨ quote = '\'') {text : List Char} (inside : quote ∉ text) :
    (Unfinished.beforeValue tag name).feed xml inScript read (quote :: (text ++ [quote])) =
      some (.attributes (tag.addValue name (decode (String.ofList text))
        ⟨read.length + 1, read.length + 1 + text.length⟩)) := by
  have opens : (Unfinished.beforeValue tag name).next xml inScript (String.ofList read) quote =
      .more (.quotedValue tag name quote (read.length + 1) (String.ofList [])) := by
    have space : isSpace quote = false := by rcases isQuote with rfl | rfl <;> decide
    simp [Unfinished.next, OpenTag.nextBeforeValue, space, isQuote]
  rw [feed_cons opens]
  refine feed_trans (feed_quotedValue tag name _ _ inside) (feed_cons ?_ [])
  simp [Unfinished.next, OpenTag.nextInQuoted]

theorem feed_unquoted (tag : OpenTag) (name : String) (read : List Char) {c : Char}
    {text : List Char} (space : isSpace c = false)
    (inside : ∀ d ∈ c :: text, endsUnquoted d = false) :
    (Unfinished.beforeValue tag name).feed xml inScript read (c :: text) =
      some (.unquotedValue tag name read.length (String.ofList (c :: text))) := by
  have goesOn : endsUnquoted c = false := inside c (by simp)
  have isQuote : ¬(c = '"' ∨ c = '\'') := by
    rintro (rfl | rfl) <;> exact absurd goesOn (by decide)
  have opens : (Unfinished.beforeValue tag name).next xml inScript (String.ofList read) c =
      .more (.unquotedValue tag name read.length (String.ofList [c])) := by
    simp [Unfinished.next, OpenTag.nextBeforeValue, OpenTag.nextInUnquoted, space, isQuote, goesOn]
  rw [feed_cons opens]
  exact feed_unquotedValue tag name _ _ fun d hd => inside d (List.mem_cons_of_mem c hd)

theorem standsFor_unquotedValue (tag : OpenTag) (name : String) (start : Nat) (value : String)
    (read : List Char) :
    StandsFor xml inScript (fun c => endsUnquoted c = true) (.unquotedValue tag name start value)
      read (tag.addValue name value ⟨start, start + value.length⟩) :=
  standsFor_of_next fun c ends => by simp [Unfinished.next, OpenTag.nextInUnquoted, ends]

/-- The `=` of an empty value without quotes stands for the tag with the attribute. -/
theorem standsFor_beforeValue (tag : OpenTag) (name : String) (read : List Char) :
    StandsFor xml inScript
      (fun c => endsUnquoted c = true ∧ isSpace c = false ∧ c ≠ '"' ∧ c ≠ '\'')
      (.beforeValue tag name) read (tag.addValue name "" ⟨read.length, read.length⟩) :=
  standsFor_of_next fun c ⟨ends, space, double, single⟩ => by
    simp [Unfinished.next, OpenTag.nextBeforeValue, OpenTag.nextInUnquoted, ends, space, double,
      single]

/-- **A value is read** after the name of an attribute. -/
theorem feed_value (xml inScript : Bool) (tag : OpenTag) (name : String) (read : List Char)
    {v : WrittenValue} (valid : v.Valid) :
    ∃ u, (Unfinished.attributeName tag name).feed xml inScript read v.raw = some u ∧
      StandsFor xml inScript
        (fun c => v.quote = none → endsUnquoted c = true ∧
          (v.text = [] → isSpace c = false ∧ c ≠ '"' ∧ c ≠ '\'')) u (read ++ v.raw)
        (tag.addValue (Text.lower name) v.meaning (v.span read.length)) := by
  obtain ⟨before, after, quote, text⟩ := v
  have begun : (Unfinished.attributeName tag name).feed xml inScript read
      (before ++ ['='] ++ after) = some (.beforeValue tag (Text.lower name)) :=
    feed_trans (feed_equals tag name read valid.before)
      (feed_beforeValue_spaces tag _ _ valid.after)
  have offset : (read ++ (before ++ ['='] ++ after)).length =
      read.length + before.length + 1 + after.length := by
    simp only [List.length_append, List.length_singleton]
    omega
  match quote, text, valid with
  | some q, text, valid =>
    obtain ⟨isQuote, inside⟩ := valid.quoted q rfl
    have fed := feed_trans begun (feed_quoted tag _ _ isQuote inside)
    rw [offset] at fed
    refine ⟨_, by simpa [WrittenValue.raw] using fed, ?_⟩
    exact fun sp c spaces space equals _ =>
      standsFor_attributes _ _ sp c spaces space equals trivial
  | none, [], valid =>
    refine ⟨_, by simpa [WrittenValue.raw] using begun, ?_⟩
    have stands : StandsFor xml inScript _ (.beforeValue tag (Text.lower name)) _ _ :=
      standsFor_beforeValue tag (Text.lower name) (read ++ (before ++ ['='] ++ after))
    rw [offset] at stands
    intro sp c spaces space equals ends
    have same : read ++ WrittenValue.raw ⟨before, after, none, []⟩ =
        read ++ (before ++ ['='] ++ after) := by simp [WrittenValue.raw]
    rw [same]
    exact stands sp c spaces space equals ⟨(ends rfl).1, (ends rfl).2 rfl⟩
  | none, c :: text, valid =>
    obtain ⟨inside, space⟩ := valid.unquoted rfl
    have fed := feed_trans begun (feed_unquoted tag _ _ (space c rfl) inside)
    rw [offset] at fed
    have raw : WrittenValue.raw ⟨before, after, none, c :: text⟩ =
        before ++ ['='] ++ after ++ c :: text := by simp [WrittenValue.raw]
    refine ⟨_, raw ▸ fed, ?_⟩
    have stands : StandsFor xml inScript _ (.unquotedValue tag (Text.lower name) _ _) _ _ :=
      standsFor_unquotedValue tag (Text.lower name)
        (read.length + before.length + 1 + after.length) (String.ofList (c :: text))
        (read ++ WrittenValue.raw ⟨before, after, none, c :: text⟩)
    rw [String.length_ofList] at stands
    exact fun sp d spaces space equals ends => stands sp d spaces space equals (ends rfl).1

/-! ### Attributes -/

/-- **An attribute is read**, from a construct that stands for a tag to one that stands for the tag
with the attribute. -/
theorem StandsFor.feed_attribute {u : Unfinished} {read : List Char} {tag : OpenTag}
    (stands : StandsFor xml inScript guard u read tag) {a : WrittenAttribute} (valid : a.Valid xml)
    (admits : ∀ c, guard (firstOf a.raw c)) :
    ∃ v, u.feed xml inScript read a.raw = some v ∧
      StandsFor xml inScript (a.EndsBefore xml) v (read ++ a.raw) (tag.addWritten read.length a) := by
  obtain ⟨sp, name, value⟩ := a
  obtain ⟨c, cs, rfl, start⟩ := valid.name.starts
  have char := isNameChar_of_isNameStart start
  obtain ⟨v, fed, next⟩ := stands sp c valid.spaces (isSpace_of_isNameChar char)
    (ne_of_isNameChar char (by decide))
    (by simpa [WrittenAttribute.raw, firstOf_append, firstOf] using admits c)
  have named := feed_trans fed (feed_attributeName valid.name next)
  cases value with
  | none =>
    have raw : WrittenAttribute.raw ⟨sp, c :: cs, none⟩ = sp ++ c :: cs := by
      simp [WrittenAttribute.raw]
    rw [raw]
    exact ⟨_, named, standsFor_attributeName tag _ _⟩
  | some w =>
    obtain ⟨u', fed', stands'⟩ := feed_value xml inScript tag (String.ofList (c :: cs))
      (read ++ (sp ++ c :: cs)) (valid.value w rfl)
    have raw : WrittenAttribute.raw ⟨sp, c :: cs, some w⟩ = sp ++ c :: cs ++ w.raw := by
      simp [WrittenAttribute.raw]
    have offset : (read ++ (sp ++ c :: cs)).length =
        WrittenAttribute.nameStop ⟨sp, c :: cs, some w⟩ read.length := by
      simp only [List.length_append, WrittenAttribute.nameStop]
      omega
    rw [offset, List.append_assoc] at stands'
    rw [raw]
    exact ⟨u', feed_trans named fed', stands'⟩

/-- **Attributes are read**, and spaces after them. -/
theorem StandsFor.feed_attributes {sp : List Char} {next : Char} (spaces : AllSpaces sp)
    (space : isSpace next = false) (equals : next ≠ '=') :
    ∀ {as : List WrittenAttribute} {guard : Char → Prop} {u : Unfinished} {read : List Char}
      {tag : OpenTag}, StandsFor xml inScript guard u read tag → Follows xml guard as sp next →
      ∃ v, u.feed xml inScript read (attributesRaw as ++ sp) = some v ∧
        v.next xml inScript (String.ofList (read ++ (attributesRaw as ++ sp))) next =
          (tag.addAll read.length as).next next
  | [], guard, u, read, tag, stands, follows => by
    obtain ⟨v, fed, same⟩ := stands sp next spaces space equals follows.1
    exact ⟨v, fed, same⟩
  | a :: as, guard, u, read, tag, stands, ⟨admits, valid, ends, linked⟩ => by
    have ne : a.raw ≠ [] := by simp [WrittenAttribute.raw, valid.name.ne_nil]
    obtain ⟨v, fed, stands'⟩ := stands.feed_attribute valid fun c => by
      rw [attributesRaw_cons, List.append_assoc, firstOf_append] at admits
      rw [firstOf_of_ne_nil ne c]
      exact admits
    have follows : Follows xml (a.EndsBefore xml) as sp next :=
      ⟨by rw [firstOf_append]; exact ends, linked⟩
    obtain ⟨w, fed', same⟩ := stands'.feed_attributes spaces space equals follows
    refine ⟨w, ?_, ?_⟩
    · rw [attributesRaw_cons, List.append_assoc]
      exact feed_trans fed fed'
    · rw [List.length_append] at same
      rw [attributesRaw_cons, List.append_assoc, ← List.append_assoc]
      exact same

end HtmlMend.Markup
