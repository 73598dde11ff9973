import HtmlMend.Proofs.Markup.Attribute
import HtmlMend.Proofs.Markup.Reading

/-! # Markup: the attributes of a tag are read as they are written

While the attributes of a tag are read, what is read is its beginning, written attributes, and a
part of one more (`InTag`). Every character keeps it so (`InTag.next_more`), and where the tag is
complete the text is one of written attributes with their meaning (`InTag.next_done`). -/

namespace HtmlMend.Markup

variable {xml inScript : Bool} {owner : Owner} {lead : List Char} {guard : Char → Prop}

/-- A tag of which attributes are read. -/
def tagOf (owner : Owner) (lead : List Char) (as : List WrittenAttribute) : OpenTag :=
  OpenTag.addAll ⟨owner, .empty, .empty⟩ lead.length as

/-- Attributes and spaces may stand between the beginning of a tag and a character. The beginning
asks something of the first character after it. -/
def Follows (xml : Bool) (guard : Char → Prop) (as : List WrittenAttribute) (sp : List Char)
    (next : Char) : Prop :=
  guard (firstOf (attributesRaw as ++ sp) next) ∧ Linked xml as (firstOf sp next)

/-- What closes a tag. -/
inductive Closer
  | tag (selfClosing : Bool)
  | declaration

namespace Closer

/-- The characters of the closer. -/
def raw : Closer → List Char
  | .tag false => ['>']
  | .tag true => ['/', '>']
  | .declaration => ['?', '>']

/-- The first of its characters. -/
def first (closer : Closer) : Char := firstOf closer.raw '>'

/-- Whether it closes what the attributes are read for. -/
def Suits : Closer → Owner → Prop
  | .tag _, .startTag _ => True
  | .declaration, .xmlDeclaration => True
  | _, _ => False

/-- The construct that is complete with it. -/
def construct (tag : OpenTag) : Closer → Construct
  | .tag selfClosing => tag.toConstruct selfClosing
  | .declaration => .xmlDeclaration

end Closer

/-- What is read of a tag with its attributes. -/
inductive InTag (xml : Bool) (owner : Owner) (lead : List Char) (guard : Char → Prop) :
    Unfinished → List Char → Prop
  | attributes (as : List WrittenAttribute) (sp : List Char) (spaces : AllSpaces sp)
    (follows : ∀ c, Follows xml guard as sp c) :
    InTag xml owner lead guard (.attributes (tagOf owner lead as))
      (lead ++ attributesRaw as ++ sp)
  | attributeName (as : List WrittenAttribute) (sp name : List Char) (spaces : AllSpaces sp)
    (isName : IsAttributeName xml name) (follows : ∀ c, Follows xml guard as (sp ++ name) c) :
    InTag xml owner lead guard (.attributeName (tagOf owner lead as) (String.ofList name))
      (lead ++ attributesRaw as ++ (sp ++ name))
  | afterAttributeName (as : List WrittenAttribute) (sp name sp' : List Char)
    (spaces : AllSpaces sp) (isName : IsAttributeName xml name)
    (follows : ∀ c, Follows xml guard as (sp ++ name) c) (spaces' : AllSpaces sp')
    (ends : ∀ c, continuesAttributeName xml (String.ofList name) (firstOf sp' c) = false) :
    InTag xml owner lead guard
      (.afterAttributeName (tagOf owner lead as) (Text.lower (String.ofList name)))
      (lead ++ attributesRaw as ++ (sp ++ name) ++ sp')
  | beforeValue (as : List WrittenAttribute) (sp name before after : List Char)
    (spaces : AllSpaces sp) (isName : IsAttributeName xml name)
    (follows : ∀ c, Follows xml guard as (sp ++ name) c) (spacesBefore : AllSpaces before)
    (spacesAfter : AllSpaces after) :
    InTag xml owner lead guard
      (.beforeValue (tagOf owner lead as) (Text.lower (String.ofList name)))
      (lead ++ attributesRaw as ++ (sp ++ name) ++ (before ++ '=' :: after))
  | quotedValue (as : List WrittenAttribute) (sp name before after : List Char) (quote : Char)
    (text : List Char) (start : Nat) (spaces : AllSpaces sp) (isName : IsAttributeName xml name)
    (follows : ∀ c, Follows xml guard as (sp ++ name) c) (spacesBefore : AllSpaces before)
    (spacesAfter : AllSpaces after) (isQuote : quote = '"' ∨ quote = '\'') (inside : quote ∉ text)
    (offset : start =
      (lead ++ attributesRaw as ++ (sp ++ name) ++ (before ++ '=' :: after)).length + 1) :
    InTag xml owner lead guard
      (.quotedValue (tagOf owner lead as) (Text.lower (String.ofList name)) quote start
        (String.ofList text))
      (lead ++ attributesRaw as ++ (sp ++ name) ++ (before ++ '=' :: after) ++ quote :: text)
  | unquotedValue (as : List WrittenAttribute) (sp name before after text : List Char)
    (start : Nat) (spaces : AllSpaces sp) (isName : IsAttributeName xml name)
    (follows : ∀ c, Follows xml guard as (sp ++ name) c) (spacesBefore : AllSpaces before)
    (spacesAfter : AllSpaces after) (some_text : text ≠ [])
    (inside : (∀ c ∈ text, endsUnquoted c = false) ∧ ∀ c, text.head? = some c → isSpace c = false)
    (offset : start =
      (lead ++ attributesRaw as ++ (sp ++ name) ++ (before ++ '=' :: after)).length) :
    InTag xml owner lead guard
      (.unquotedValue (tagOf owner lead as) (Text.lower (String.ofList name)) start
        (String.ofList text))
      (lead ++ attributesRaw as ++ (sp ++ name) ++ (before ++ '=' :: after) ++ text)
  | selfClosing (as : List WrittenAttribute) (sp : List Char) (spaces : AllSpaces sp)
    (follows : Follows xml guard as sp '/') (isTag : ∃ name, owner = .startTag name) :
    InTag xml owner lead guard (.selfClosing (tagOf owner lead as))
      (lead ++ attributesRaw as ++ sp ++ ['/'])
  | xmlEnd (as : List WrittenAttribute) (sp : List Char) (spaces : AllSpaces sp)
    (follows : Follows xml guard as sp '?') (isXml : owner = .xmlDeclaration) :
    InTag xml owner lead guard .xmlEnd (lead ++ attributesRaw as ++ sp ++ ['?'])

theorem follows_append {as : List WrittenAttribute} {xs ys : List Char} {next : Char} :
    Follows xml guard as (xs ++ ys) next ↔ Follows xml guard as xs (firstOf ys next) := by
  unfold Follows
  rw [← List.append_assoc, firstOf_append, firstOf_append xs]

theorem Follows.snoc {as : List WrittenAttribute} {a : WrittenAttribute} {sp' : List Char}
    {next : Char} (follows : ∀ c, Follows xml guard as (a.spaces ++ a.name) c)
    (valid : a.Valid xml) (ends : a.EndsBefore xml (firstOf sp' next)) :
    Follows xml guard (as ++ [a]) sp' next := by
  have ne : a.spaces ++ a.name ≠ [] := by simp [valid.name.ne_nil]
  have first : ∀ c, firstOf a.raw c = firstOf (a.spaces ++ a.name) next := by
    intro c
    rw [WrittenAttribute.raw, firstOf_append]
    exact firstOf_of_ne_nil ne _ _
  obtain ⟨opens, linked⟩ := follows next
  rw [firstOf_append] at opens
  refine ⟨?_, (linked_append as).mpr ⟨?_, linked_singleton.mpr ⟨valid, ends⟩⟩⟩
  · rw [attributesRaw_append, attributesRaw_cons, attributesRaw_nil, List.append_nil,
      List.append_assoc, firstOf_append, firstOf_append, first]
    exact opens
  · rw [attributesRaw_cons, attributesRaw_nil, List.append_nil, first]
    exact linked

theorem tagOf_snoc (as : List WrittenAttribute) (a : WrittenAttribute) :
    tagOf owner lead (as ++ [a]) =
      (tagOf owner lead as).addWritten (lead ++ attributesRaw as).length a := by
  rw [tagOf, OpenTag.addAll_append, List.length_append]
  rfl

/-- The meaning of a name that stands alone. -/
theorem addBare_eq (as : List WrittenAttribute) (sp name : List Char) :
    (tagOf owner lead as).addBare (Text.lower (String.ofList name)) =
      tagOf owner lead (as ++ [⟨sp, name, none⟩]) :=
  (tagOf_snoc as ⟨sp, name, none⟩).symm

theorem AllSpaces.snoc {sp : List Char} {c : Char} (h : AllSpaces sp) (hc : isSpace c = true) :
    AllSpaces (sp ++ [c]) := by
  intro d hd
  rcases List.mem_append.mp hd with hd | hd
  · exact h d hd
  · obtain rfl : d = c := by simpa using hd
    exact hc

theorem allSpaces_nil : AllSpaces [] := fun _ h => absurd h (by simp)

theorem allSpaces_singleton {c : Char} (h : isSpace c = true) : AllSpaces [c] :=
  allSpaces_nil.snoc h

/-! ### One more character -/

section Next
variable {as : List WrittenAttribute} {sp : List Char} {c : Char} (spaces : AllSpaces sp)
  (follows : Follows xml guard as sp c)
include spaces follows

theorem next_tagOf_more {v : Unfinished} (h : (tagOf owner lead as).next c = .more v) :
    InTag xml owner lead guard v (lead ++ attributesRaw as ++ sp ++ [c]) := by
  have first : ∀ d, Follows xml guard as (sp ++ [c]) d := fun d => follows_append.mpr follows
  unfold OpenTag.next at h
  by_cases space : isSpace c = true
  · rw [if_pos space] at h
    obtain rfl := Progress.more.inj h
    rw [List.append_assoc]
    exact .attributes as (sp ++ [c]) (spaces.snoc space) first
  rw [if_neg space] at h
  by_cases start : isNameStart c = true
  · rw [if_pos start] at h
    obtain rfl := Progress.more.inj h
    rw [List.append_assoc]
    exact .attributeName as sp [c] spaces (.singleton start) first
  rw [if_neg start] at h
  have owned : (tagOf owner lead as).owner = owner := by simp [tagOf]
  rw [owned] at h
  cases owner with
  | startTag name =>
    by_cases slash : c = '/'
    · subst slash
      obtain rfl := Progress.more.inj h
      exact .selfClosing as sp spaces follows ⟨name, rfl⟩
    · simp only [if_neg slash] at h
      split at h <;> cases h
  | xmlDeclaration =>
    by_cases mark : c = '?'
    · subst mark
      obtain rfl := Progress.more.inj h
      exact .xmlEnd as sp spaces follows rfl
    · simp only [if_neg mark] at h
      cases h

omit spaces follows in
theorem next_tagOf_done {k : Construct} (h : (tagOf owner lead as).next c = .done k) :
    c = '>' ∧ (∃ name, owner = .startTag name) ∧ k = (tagOf owner lead as).toConstruct false := by
  unfold OpenTag.next at h
  split at h
  · cases h
  split at h
  · cases h
  have owned : (tagOf owner lead as).owner = owner := by simp [tagOf]
  rw [owned] at h
  cases owner with
  | startTag name =>
    dsimp only at h
    split at h
    · cases h
    split at h
    · next close => exact ⟨close, ⟨name, rfl⟩, (Progress.done.inj h).symm⟩
    · cases h
  | xmlDeclaration =>
    dsimp only at h
    split at h <;> cases h

end Next

/-- A character after a name. -/
theorem nextAfterName_more {as : List WrittenAttribute} {sp name sp' : List Char} {c : Char}
    (spaces : AllSpaces sp) (isName : IsAttributeName xml name)
    (follows : ∀ d, Follows xml guard as (sp ++ name) d) (spaces' : AllSpaces sp')
    (ends : continuesAttributeName xml (String.ofList name) (firstOf sp' c) = false)
    {v : Unfinished}
    (h : (tagOf owner lead as).nextAfterName (Text.lower (String.ofList name)) c = .more v) :
    InTag xml owner lead guard v
      (lead ++ attributesRaw as ++ (sp ++ name) ++ sp' ++ [c]) := by
  unfold OpenTag.nextAfterName at h
  by_cases space : isSpace c = true
  · rw [if_pos space] at h
    obtain rfl := Progress.more.inj h
    rw [List.append_assoc _ sp']
    exact .afterAttributeName as sp name (sp' ++ [c]) spaces isName follows (spaces'.snoc space)
      fun d => by rw [firstOf_append]; exact ends
  rw [if_neg space] at h
  by_cases equals : c = '='
  · subst equals
    obtain rfl := Progress.more.inj h
    rw [List.append_assoc _ sp']
    exact .beforeValue as sp name sp' [] spaces isName follows spaces' allSpaces_nil
  · rw [if_neg equals] at h
    -- The name stands alone, and the tag goes on after one more attribute.
    have valid : WrittenAttribute.Valid xml ⟨sp, name, none⟩ :=
      ⟨spaces, isName, fun v e => nomatch e⟩
    rw [addBare_eq as sp name] at h
    have := next_tagOf_more spaces' (Follows.snoc (a := ⟨sp, name, none⟩) follows valid ends) h
    simpa [WrittenAttribute.raw] using this

theorem nextAfterName_done {as : List WrittenAttribute} (sp : List Char) {name : List Char}
    {c : Char} {k : Construct}
    (h : (tagOf owner lead as).nextAfterName (Text.lower (String.ofList name)) c = .done k) :
    c = '>' ∧ (∃ name, owner = .startTag name) ∧
      k = (tagOf owner lead (as ++ [⟨sp, name, none⟩])).toConstruct false := by
  unfold OpenTag.nextAfterName at h
  split at h
  · cases h
  split at h
  · cases h
  rw [addBare_eq as sp name] at h
  exact next_tagOf_done h

theorem addValue_eq (owner : Owner) (as : List WrittenAttribute)
    (sp name before after text : List Char) (quote : Option Char) (start : Nat)
    (offset : start = (lead ++ attributesRaw as ++ (sp ++ name) ++
      (before ++ '=' :: after)).length + quote.toList.length) :
    (tagOf owner lead as).addValue (Text.lower (String.ofList name))
        (WrittenValue.meaning ⟨before, after, quote, text⟩)
        ⟨start, start + (String.ofList text).length⟩ =
      tagOf owner lead (as ++ [⟨sp, name, some ⟨before, after, quote, text⟩⟩]) := by
  rw [tagOf_snoc]
  have start_eq : start = (lead ++ attributesRaw as).length + sp.length + name.length +
      before.length + 1 + after.length + quote.toList.length := by
    simp only [offset, List.length_append, List.length_cons]
    omega
  simp only [OpenTag.addWritten, WrittenAttribute.key, WrittenAttribute.nameStop,
    WrittenValue.span, ← start_eq, String.length_ofList]

/-- A character in a value without quotes, or at its beginning. -/
theorem nextInUnquoted_more {as : List WrittenAttribute} {sp name before after text : List Char}
    {start : Nat} {c : Char} (spaces : AllSpaces sp) (isName : IsAttributeName xml name)
    (follows : ∀ d, Follows xml guard as (sp ++ name) d) (spacesBefore : AllSpaces before)
    (spacesAfter : AllSpaces after)
    (inside : (∀ d ∈ text, endsUnquoted d = false) ∧ ∀ d, text.head? = some d → isSpace d = false)
    (begins : text = [] → isSpace c = false ∧ c ≠ '"' ∧ c ≠ '\'')
    (offset : start =
      (lead ++ attributesRaw as ++ (sp ++ name) ++ (before ++ '=' :: after)).length)
    {v : Unfinished}
    (h : (tagOf owner lead as).nextInUnquoted (Text.lower (String.ofList name)) start
      (String.ofList text) c = .more v) :
    InTag xml owner lead guard v
      (lead ++ attributesRaw as ++ (sp ++ name) ++ (before ++ '=' :: after) ++ text ++ [c]) := by
  unfold OpenTag.nextInUnquoted at h
  by_cases ends : endsUnquoted c = true
  · rw [if_pos ends] at h
    have valid : WrittenAttribute.Valid xml ⟨sp, name, some ⟨before, after, none, text⟩⟩ :=
      ⟨spaces, isName, fun v e => Option.some.inj e ▸
        ⟨spacesBefore, spacesAfter, fun _ e => (nomatch e), fun _ => inside⟩⟩
    have value := addValue_eq owner as sp name before after text none start offset
    simp only [WrittenValue.meaning, Option.isSome_none, Bool.false_eq_true, if_false] at value
    rw [value] at h
    have := next_tagOf_more allSpaces_nil
      (Follows.snoc (a := ⟨sp, name, some ⟨before, after, none, text⟩⟩) follows valid
        fun _ => ⟨ends, begins⟩) h
    simpa [WrittenAttribute.raw, WrittenValue.raw] using this
  · rw [if_neg ends] at h
    obtain rfl := Progress.more.inj h
    have pushed : (String.ofList text).push c = String.ofList (text ++ [c]) := by simp
    rw [List.append_assoc, pushed]
    refine .unquotedValue as sp name before after (text ++ [c]) start spaces isName follows
      spacesBefore spacesAfter (by simp) ⟨fun d hd => ?_, fun d hd => ?_⟩ offset
    · rcases List.mem_append.mp hd with hd | hd
      · exact inside.1 d hd
      · obtain rfl : d = c := by simpa using hd
        simpa using ends
    · cases text with
      | nil =>
        obtain rfl : c = d := by simpa using hd
        exact (begins rfl).1
      | cons e es => exact inside.2 d (by simpa using hd)

theorem nextInUnquoted_done {as : List WrittenAttribute} {sp name before after text : List Char}
    {start : Nat} {c : Char}
    (offset : start =
      (lead ++ attributesRaw as ++ (sp ++ name) ++ (before ++ '=' :: after)).length)
    {k : Construct}
    (h : (tagOf owner lead as).nextInUnquoted (Text.lower (String.ofList name)) start
      (String.ofList text) c = .done k) :
    c = '>' ∧ (∃ name, owner = .startTag name) ∧ k =
      (tagOf owner lead (as ++ [⟨sp, name, some ⟨before, after, none, text⟩⟩])).toConstruct
        false := by
  unfold OpenTag.nextInUnquoted at h
  split at h
  · have value := addValue_eq owner as sp name before after text none start offset
    simp only [WrittenValue.meaning, Option.isSome_none, Bool.false_eq_true, if_false] at value
    rw [value] at h
    exact next_tagOf_done h
  · cases h

/-- **Each character keeps what is read of a tag in form.** -/
theorem InTag.next_more {u v : Unfinished} {read : List Char}
    (within : InTag xml owner lead guard u read) {c : Char}
    (h : u.next xml inScript (String.ofList read) c = .more v) :
    InTag xml owner lead guard v (read ++ [c]) := by
  cases within with
  | attributes as sp spaces follows => exact next_tagOf_more spaces (follows c) h
  | attributeName as sp name spaces isName follows =>
    simp only [Unfinished.next, OpenTag.nextInName] at h
    split at h
    · next continues =>
      obtain rfl := Progress.more.inj h
      have : InTag xml owner lead guard
          (.attributeName (tagOf owner lead as) (String.ofList (name ++ [c]))) _ :=
        .attributeName as sp (name ++ [c]) spaces (isName.push continues)
          fun d => by rw [← List.append_assoc]; exact follows_append.mpr (follows _)
      simpa using this
    · next stops =>
      have := nextAfterName_more spaces isName follows allSpaces_nil
        (Bool.eq_false_iff.mpr stops) h
      simpa using this
  | afterAttributeName as sp name sp' spaces isName follows spaces' ends =>
    exact nextAfterName_more spaces isName follows spaces' (ends c) h
  | beforeValue as sp name before after spaces isName follows spacesBefore spacesAfter =>
    simp only [Unfinished.next, OpenTag.nextBeforeValue, String.length_ofList] at h
    split at h
    · next space =>
      obtain rfl := Progress.more.inj h
      have : InTag xml owner lead guard
          (.beforeValue (tagOf owner lead as) (Text.lower (String.ofList name))) _ :=
        .beforeValue as sp name before (after ++ [c]) spaces isName follows spacesBefore
          (spacesAfter.snoc space)
      simpa using this
    · next space =>
      split at h
      · next isQuote =>
        obtain rfl := Progress.more.inj h
        exact .quotedValue as sp name before after c [] _ spaces isName follows spacesBefore
          spacesAfter isQuote (by simp) rfl
      · next isQuote =>
        have := nextInUnquoted_more spaces isName follows spacesBefore spacesAfter
          ⟨List.forall_mem_nil _, fun _ e => nomatch e⟩
          (fun _ => ⟨by simpa using space, not_or.mp isQuote⟩) rfl h
        simpa using this
  | quotedValue as sp name before after quote text start spaces isName follows spacesBefore
      spacesAfter isQuote inside offset =>
    simp only [Unfinished.next, OpenTag.nextInQuoted] at h
    split at h
    · next closes =>
      subst closes
      obtain rfl := Progress.more.inj h
      have value := addValue_eq owner as sp name before after text (some c) start
        offset
      have valid : WrittenAttribute.Valid xml ⟨sp, name, some ⟨before, after, some c, text⟩⟩ :=
        ⟨spaces, isName, fun v e => Option.some.inj e ▸
          ⟨spacesBefore, spacesAfter, fun q e => Option.some.inj e ▸ ⟨isQuote, inside⟩,
            fun e => nomatch e⟩⟩
      simp only [WrittenValue.meaning, Option.isSome_some, if_true] at value
      rw [value]
      have : InTag xml owner lead guard (.attributes (tagOf owner lead _)) _ :=
        .attributes (as ++ [⟨sp, name, some ⟨before, after, some c, text⟩⟩]) [] allSpaces_nil
        fun d => Follows.snoc (a := ⟨sp, name, some ⟨before, after, some c, text⟩⟩) follows valid
          fun e => nomatch e
      simpa [WrittenAttribute.raw, WrittenValue.raw] using this
    · next stays =>
      obtain rfl := Progress.more.inj h
      have : InTag xml owner lead guard (.quotedValue (tagOf owner lead as)
          (Text.lower (String.ofList name)) quote start (String.ofList (text ++ [c]))) _ :=
        .quotedValue as sp name before after quote (text ++ [c]) start spaces isName follows
          spacesBefore spacesAfter isQuote (by simp [inside, Ne.symm stays]) offset
      simpa using this
  | unquotedValue as sp name before after text start spaces isName follows spacesBefore
      spacesAfter some_text inside offset =>
    exact nextInUnquoted_more spaces isName follows spacesBefore spacesAfter inside
      (fun e => absurd e some_text) offset h
  | selfClosing as sp spaces follows isTag =>
    simp only [Unfinished.next] at h
    split at h <;> cases h
  | xmlEnd as sp spaces follows isXml =>
    simp only [Unfinished.next] at h
    split at h <;> cases h

/-- **Where a tag is complete**, its text is that of its beginning, written attributes, spaces, and
a closer. -/
theorem InTag.next_done {u : Unfinished} {read : List Char}
    (within : InTag xml owner lead guard u read) {c : Char} {k : Construct}
    (h : u.next xml inScript (String.ofList read) c = .done k) :
    ∃ as sp closer, read ++ [c] = lead ++ attributesRaw as ++ sp ++ Closer.raw closer ∧
      AllSpaces sp ∧ Follows xml guard as sp closer.first ∧ closer.Suits owner ∧
      k = closer.construct (tagOf owner lead as) := by
  cases within with
  | attributes as sp spaces follows =>
    obtain ⟨rfl, ⟨name, rfl⟩, rfl⟩ := next_tagOf_done h
    exact ⟨as, sp, .tag false, rfl, spaces, follows '>', trivial, rfl⟩
  | attributeName as sp name spaces isName follows =>
    simp only [Unfinished.next, OpenTag.nextInName] at h
    split at h
    · cases h
    · next stops =>
      obtain ⟨rfl, ⟨tagName, rfl⟩, rfl⟩ := nextAfterName_done sp h
      have valid : WrittenAttribute.Valid xml ⟨sp, name, none⟩ :=
        ⟨spaces, isName, fun v e => nomatch e⟩
      refine ⟨as ++ [⟨sp, name, none⟩], [], .tag false, ?_, allSpaces_nil, ?_, trivial, rfl⟩
      · simp [WrittenAttribute.raw, Closer.raw]
      · exact Follows.snoc (a := ⟨sp, name, none⟩) follows valid (Bool.eq_false_iff.mpr stops)
  | afterAttributeName as sp name sp' spaces isName follows spaces' ends =>
    obtain ⟨rfl, ⟨tagName, rfl⟩, rfl⟩ := nextAfterName_done sp h
    have valid : WrittenAttribute.Valid xml ⟨sp, name, none⟩ :=
      ⟨spaces, isName, fun v e => nomatch e⟩
    refine ⟨as ++ [⟨sp, name, none⟩], sp', .tag false, ?_, spaces', ?_, trivial, rfl⟩
    · simp [WrittenAttribute.raw, Closer.raw]
    · exact Follows.snoc (a := ⟨sp, name, none⟩) follows valid (ends _)
  | beforeValue as sp name before after spaces isName follows spacesBefore spacesAfter =>
    simp only [Unfinished.next, OpenTag.nextBeforeValue, String.length_ofList] at h
    split at h
    · cases h
    split at h
    · cases h
    next space isQuote =>
    obtain ⟨rfl, ⟨tagName, rfl⟩, rfl⟩ := nextInUnquoted_done rfl h
    have valid : WrittenAttribute.Valid xml ⟨sp, name, some ⟨before, after, none, []⟩⟩ :=
      ⟨spaces, isName, fun v e => Option.some.inj e ▸
        ⟨spacesBefore, spacesAfter, fun _ e => (nomatch e), fun _ => ⟨by simp, by simp⟩⟩⟩
    refine ⟨as ++ [⟨sp, name, some ⟨before, after, none, []⟩⟩], [], .tag false, ?_, allSpaces_nil,
      ?_, trivial, rfl⟩
    · simp [WrittenAttribute.raw, WrittenValue.raw, Closer.raw]
    · exact Follows.snoc (a := ⟨sp, name, some ⟨before, after, none, []⟩⟩) follows valid
        fun _ => ⟨by decide, fun _ => by decide⟩
  | quotedValue as sp name before after quote text start spaces isName follows spacesBefore
      spacesAfter isQuote inside offset =>
    simp only [Unfinished.next, OpenTag.nextInQuoted] at h
    split at h <;> cases h
  | unquotedValue as sp name before after text start spaces isName follows spacesBefore
      spacesAfter some_text inside offset =>
    obtain ⟨rfl, ⟨tagName, rfl⟩, rfl⟩ := nextInUnquoted_done offset h
    have valid : WrittenAttribute.Valid xml ⟨sp, name, some ⟨before, after, none, text⟩⟩ :=
      ⟨spaces, isName, fun v e => Option.some.inj e ▸
        ⟨spacesBefore, spacesAfter, fun _ e => (nomatch e), fun _ => inside⟩⟩
    refine ⟨as ++ [⟨sp, name, some ⟨before, after, none, text⟩⟩], [], .tag false, ?_,
      allSpaces_nil, ?_, trivial, rfl⟩
    · simp [WrittenAttribute.raw, WrittenValue.raw, Closer.raw]
    · exact Follows.snoc (a := ⟨sp, name, some ⟨before, after, none, text⟩⟩) follows valid
        fun _ => ⟨by decide, fun e => absurd e some_text⟩
  | selfClosing as sp spaces follows isTag =>
    obtain ⟨name, rfl⟩ := isTag
    simp only [Unfinished.next] at h
    split at h
    · next close =>
      subst close
      obtain rfl := Progress.done.inj h
      exact ⟨as, sp, .tag true, by simp [Closer.raw], spaces, follows, trivial, rfl⟩
    · cases h
  | xmlEnd as sp spaces follows isXml =>
    subst isXml
    simp only [Unfinished.next] at h
    split at h
    · next close =>
      subst close
      obtain rfl := Progress.done.inj h
      exact ⟨as, sp, .declaration, by simp [Closer.raw], spaces, follows, trivial, rfl⟩
    · cases h

end HtmlMend.Markup
