import HtmlMend.Proofs.Markup.TagSpelling

/-! # Markup: the form of constructs

The text of a whole construct has the form of its kind: `Form` is the grammar of constructs, and
what a scanner accepts is of it (`Completes.form`). The proof keeps the form of what is read so far
(`InConstruct`). For tags, which are what the editor writes, the converse is proved too
(`WrittenTag.completes`, `completes_endTag`). -/

namespace HtmlMend.Markup

/-! ### Start tags in writing -/

/-- A text is the name of a tag. -/
structure IsTagName (name : List Char) : Prop where
  starts : ∃ c cs, name = c :: cs ∧ isNameStart c = true
  chars : ∀ c ∈ name, isNameChar c = true

/-- A start tag in writing. -/
structure WrittenTag where
  name : List Char
  attributes : List WrittenAttribute := []
  spaces : List Char := []
  selfClosing : Bool := false

namespace WrittenTag

/-- The text of the tag up to its attributes. -/
def lead (w : WrittenTag) : List Char := '<' :: w.name

/-- What closes the tag. -/
def closer (w : WrittenTag) : Closer := .tag w.selfClosing

/-- The text of the tag. -/
def raw (w : WrittenTag) : List Char :=
  w.lead ++ attributesRaw w.attributes ++ w.spaces ++ w.closer.raw

/-- The name that is meant. -/
def key (w : WrittenTag) : String := Text.lower (String.ofList w.name)

/-- The tag that is meant, without its end. -/
def openTag (w : WrittenTag) : OpenTag := tagOf (.startTag w.key) w.lead w.attributes

/-- The construct that is meant. -/
def construct (w : WrittenTag) : Construct :=
  .startTag w.key w.openTag.attrs w.selfClosing w.openTag.spans

/-- The tag is written as tags are. -/
structure Valid (xml : Bool) (w : WrittenTag) : Prop where
  name : IsTagName w.name
  spaces : AllSpaces w.spaces
  follows : Follows xml (fun c => isNameChar c = false) w.attributes w.spaces w.closer.first

theorem construct_eq (w : WrittenTag) : w.closer.construct w.openTag = w.construct := by
  have owned : w.openTag.owner = .startTag w.key := by simp [openTag, tagOf]
  simp only [closer, Closer.construct, OpenTag.toConstruct, owned, construct]

end WrittenTag

/-! ### Texts up to a mark -/

/-- The number of times that a character stands at the end of a text. -/
def trailing (d : Char) (cs : List Char) : Nat := (cs.reverse.takeWhile (· = d)).length

theorem trailing_snoc_self (d : Char) (cs : List Char) :
    trailing d (cs ++ [d]) = trailing d cs + 1 := by simp [trailing]

theorem trailing_snoc_of_ne {c d : Char} (h : c ≠ d) (cs : List Char) :
    trailing d (cs ++ [c]) = 0 := by simp [trailing, h]

theorem two_le_trailing {d : Char} {cs : List Char} :
    2 ≤ trailing d cs ↔ [d, d] <:+ cs := by
  rw [← List.reverse_prefix, trailing]
  match cs.reverse with
  | [] => simp
  | [a] => by_cases ha : a = d <;> simp [ha]
  | a :: b :: _ =>
    by_cases ha : a = d
    · by_cases hb : b = d
      · simp [ha, hb]
      · simp [ha, hb, Ne.symm hb]
    · simp [ha, Ne.symm ha]

/-- The mark that ends a text after two of a character. -/
def endMark (d : Char) : List Char := [d, d, '>']

theorem not_endMark_infix_snoc {d c : Char} {body : List Char} (h : ¬endMark d <:+: body)
    (goesOn : ¬(c = '>' ∧ 2 ≤ trailing d body)) : ¬endMark d <:+: body ++ [c] := by
  intro inside
  rcases List.infix_concat_iff.mp inside with atEnd | before
  · rcases List.suffix_concat_iff.mp atEnd with empty | ⟨t, mark, suffix⟩
    · cases empty
    · obtain ⟨rfl, rfl⟩ : [d, d] = t ∧ '>' = c := by
        have : [d, d] ++ ['>'] = t ++ [c] := mark
        exact ⟨List.append_inj_left' this rfl, by simpa using List.append_inj_right' this rfl⟩
      exact goesOn ⟨rfl, two_le_trailing.mpr suffix⟩
  · exact h before

/-! ### The grammar -/

/-- What opens a CDATA section. -/
def cdataOpening : List Char := '<' :: '!' :: '[' :: cdataWord

/-- What opens an XML declaration. -/
def xmlOpening : List Char := ['<', '?', 'x', 'm', 'l']

/-- A text is that of one CDATA section: its opening, and its body up to the first mark that ends
it. -/
def IsCdataSection (raw : List Char) : Prop :=
  ∃ body, raw = cdataOpening ++ body ++ endMark ']' ∧ ¬endMark ']' <:+: body ++ [']', ']']

/-- A text is that of one XML declaration: its opening, attributes, spaces, and what closes it. -/
def IsXmlDeclaration (xml : Bool) (raw : List Char) : Prop :=
  ∃ as sp, raw = xmlOpening ++ attributesRaw as ++ sp ++ ['?', '>'] ∧ AllSpaces sp ∧
    Linked xml as (firstOf sp '?')

/-- The form of the text of a construct. -/
inductive Form (xml inScript : Bool) : List Char → Construct → Prop
  | startTag (w : WrittenTag) (valid : w.Valid xml) (script : inScript = false) :
    Form xml inScript w.raw w.construct
  | endTag (name sp : List Char) (isName : IsTagName name) (spaces : AllSpaces sp)
    (script : inScript = true → Text.lower (String.ofList name) = "script") :
    Form xml inScript ('<' :: '/' :: (name ++ sp ++ ['>']))
      (.endTag (Text.lower (String.ofList name)))
  | comment (body : List Char) (first : ¬endMark '-' <:+: body ++ ['-', '-'])
    (script : inScript = false) :
    Form xml inScript (['<', '!', '-', '-'] ++ body ++ endMark '-') (.comment (String.ofList body))
  | doctype (text : List Char) (accepted : isDoctype (String.ofList text) = true)
    (first : '>' ∉ text) (script : inScript = false) :
    Form xml inScript ('<' :: '!' :: (text ++ ['>'])) (.doctype (String.ofList text))
  | cdata (raw : List Char) (form : IsCdataSection raw) (script : inScript = false) :
    Form xml inScript raw .cdata
  | xmlDeclaration (raw : List Char) (form : IsXmlDeclaration xml raw) (script : inScript = false) :
    Form xml inScript raw .xmlDeclaration

/-- What is read of a construct. -/
inductive InConstruct (xml inScript : Bool) : Unfinished → List Char → Prop
  | begun : InConstruct xml inScript .begun ['<']
  | tagName (name : List Char) (isName : IsTagName name) (script : inScript = false) :
    InConstruct xml inScript (.tagName (String.ofList name)) ('<' :: name)
  | tag (name : List Char) (isName : IsTagName name) (script : inScript = false) {u : Unfinished}
    {read : List Char}
    (within : InTag xml (.startTag (Text.lower (String.ofList name))) ('<' :: name)
      (fun c => isNameChar c = false) u read) : InConstruct xml inScript u read
  | endTagBegun : InConstruct xml inScript .endTagBegun ['<', '/']
  | endTagName (name : List Char) (isName : IsTagName name) :
    InConstruct xml inScript (.endTagName (String.ofList name)) ('<' :: '/' :: name)
  | afterEndTagName (name sp : List Char) (isName : IsTagName name) (spaces : AllSpaces sp)
    (script : inScript = true → Text.lower (String.ofList name) = "script") :
    InConstruct xml inScript (.afterEndTagName (Text.lower (String.ofList name)))
      ('<' :: '/' :: (name ++ sp))
  | declarationBegun (script : inScript = false) :
    InConstruct xml inScript .declarationBegun ['<', '!']
  | commentBegun (script : inScript = false) :
    InConstruct xml inScript .commentBegun ['<', '!', '-']
  | comment (data : List Char) (goesOn : ¬endMark '-' <:+: data) (script : inScript = false) :
    InConstruct xml inScript (.comment (String.ofList data) (trailing '-' data))
      (['<', '!', '-', '-'] ++ data)
  | cdataBegun (done word : List Char) (split : done ++ word = cdataWord)
    (script : inScript = false) :
    InConstruct xml inScript (.cdataBegun word) (['<', '!', '['] ++ done)
  | cdata (body : List Char) (goesOn : ¬endMark ']' <:+: body) (script : inScript = false) :
    InConstruct xml inScript (.cdata (trailing ']' body)) (cdataOpening ++ body)
  | doctype (text : List Char) (goesOn : '>' ∉ text) (script : inScript = false) :
    InConstruct xml inScript (.doctype (String.ofList text)) ('<' :: '!' :: text)
  | xmlBegun (done word : List Char) (split : done ++ word = ['x', 'm', 'l'])
    (script : inScript = false) :
    InConstruct xml inScript (.xmlBegun word) (['<', '?'] ++ done)
  | declaration (script : inScript = false) {u : Unfinished} {read : List Char}
    (within : InTag xml .xmlDeclaration xmlOpening (fun _ => True) u read) :
    InConstruct xml inScript u read

/-! ### What is read has the form of a construct -/

variable {xml inScript : Bool}

theorem isTagName_iff {name : List Char} : IsTagName name ↔
    name.head?.any isNameStart = true ∧ name.all isNameChar = true := by
  constructor
  · rintro ⟨⟨c, cs, rfl, start⟩, chars⟩
    exact ⟨start, List.all_eq_true.mpr chars⟩
  · rintro ⟨start, chars⟩
    refine ⟨?_, List.all_eq_true.mp chars⟩
    cases name with
    | nil => cases start
    | cons c cs => exact ⟨c, cs, rfl, start⟩

instance (name : List Char) : Decidable (IsTagName name) := decidable_of_iff _ isTagName_iff.symm

/-- What may be the name of a tag may be that of an attribute, since no colon is in it. -/
theorem IsTagName.isAttributeName {name : List Char} (h : IsTagName name) :
    IsAttributeName xml name where
  starts := h.starts
  chars c mem := .inl (h.chars c mem)
  colon mem := by
    have char := h.chars ':' mem
    rw [isNameChar_colon] at char
    cases char

theorem IsTagName.singleton {c : Char} (h : isNameStart c = true) : IsTagName [c] where
  starts := ⟨c, [], rfl, h⟩
  chars d hd := by
    obtain rfl : d = c := by simpa using hd
    exact isNameChar_of_isNameStart h

theorem IsTagName.push {name : List Char} (h : IsTagName name) {c : Char}
    (char : isNameChar c = true) : IsTagName (name ++ [c]) := by
  obtain ⟨d, ds, rfl, start⟩ := h.starts
  refine ⟨⟨d, ds ++ [c], rfl, start⟩, fun e he => ?_⟩
  rcases List.mem_append.mp he with he | he
  · exact h.chars e he
  · obtain rfl : e = c := by simpa using he
    exact char

theorem follows_nil {guard : Char → Prop} {c : Char} (h : guard c) : Follows xml guard [] [] c :=
  ⟨h, trivial⟩

section Next
variable {c : Char} {v : Unfinished} {k : Construct}

theorem nextBegun_more (h : nextBegun inScript c = .more v) : InConstruct xml inScript v ['<', c] := by
  unfold nextBegun at h
  split at h
  · next slash =>
    obtain rfl := Progress.more.inj h
    rw [slash]
    exact .endTagBegun
  split at h
  · cases h
  next script =>
  have script : inScript = false := by simpa using script
  split at h
  · next start =>
    obtain rfl := Progress.more.inj h
    exact .tagName [c] (.singleton start) script
  split at h
  · next mark =>
    obtain rfl := Progress.more.inj h
    rw [mark]
    exact .declarationBegun script
  split at h
  · next mark =>
    obtain rfl := Progress.more.inj h
    rw [mark]
    exact .xmlBegun [] _ rfl script
  · cases h

theorem nextBegun_ne_done (inScript : Bool) (c : Char) (k : Construct) :
    nextBegun inScript c ≠ .done k := by
  intro h
  unfold nextBegun at h
  repeat' split at h
  all_goals cases h

theorem nextInComment_more {data : List Char} (goesOn : ¬endMark '-' <:+: data)
    (script : inScript = false)
    (h : nextInComment (String.ofList data) (trailing '-' data) c = .more v) :
    InConstruct xml inScript v ('<' :: '!' :: '-' :: '-' :: (data ++ [c])) := by
  unfold nextInComment at h
  have pushed : (String.ofList data).push c = String.ofList (data ++ [c]) := by simp
  rw [pushed] at h
  split at h
  · next dash =>
    subst dash
    obtain rfl := Progress.more.inj h
    rw [← trailing_snoc_self]
    exact .comment _ (not_endMark_infix_snoc goesOn (by simp)) script
  split at h
  · cases h
  · next dash closes =>
    obtain rfl := Progress.more.inj h
    rw [← trailing_snoc_of_ne dash data]
    exact .comment _ (not_endMark_infix_snoc goesOn closes) script

theorem nextInComment_done {data : List Char} (goesOn : ¬endMark '-' <:+: data)
    (script : inScript = false)
    (h : nextInComment (String.ofList data) (trailing '-' data) c = .done k) :
    Form xml inScript ('<' :: '!' :: '-' :: '-' :: (data ++ [c])) k := by
  unfold nextInComment at h
  split at h
  · cases h
  split at h
  · next closes =>
    obtain ⟨rfl, two⟩ := closes
    obtain rfl := Progress.done.inj h
    obtain ⟨front, rfl⟩ := two_le_trailing.mp two
    have data : ((front ++ ['-', '-']).take ((String.ofList (front ++ ['-', '-'])).length - 2)) =
        front := by
      rw [String.length_ofList, List.length_append]
      exact List.take_left
    rw [String.toList_ofList, data]
    have : Form xml inScript _ (.comment (String.ofList front)) := .comment front goesOn script
    simpa [endMark] using this
  · cases h

theorem nextInCdata_more {body : List Char} (goesOn : ¬endMark ']' <:+: body)
    (script : inScript = false) (h : nextInCdata (trailing ']' body) c = .more v) :
    InConstruct xml inScript v (cdataOpening ++ body ++ [c]) := by
  unfold nextInCdata at h
  split at h
  · next bracket =>
    subst bracket
    obtain rfl := Progress.more.inj h
    rw [← trailing_snoc_self, List.append_assoc]
    exact .cdata _ (not_endMark_infix_snoc goesOn (by simp)) script
  split at h
  · cases h
  · next bracket closes =>
    obtain rfl := Progress.more.inj h
    rw [← trailing_snoc_of_ne bracket body, List.append_assoc]
    exact .cdata _ (not_endMark_infix_snoc goesOn closes) script

theorem nextInCdata_done {body : List Char} (goesOn : ¬endMark ']' <:+: body)
    (script : inScript = false) (h : nextInCdata (trailing ']' body) c = .done k) :
    Form xml inScript (cdataOpening ++ body ++ [c]) k := by
  unfold nextInCdata at h
  split at h
  · cases h
  split at h
  · next closes =>
    obtain ⟨rfl, two⟩ := closes
    obtain rfl := Progress.done.inj h
    obtain ⟨front, rfl⟩ := two_le_trailing.mp two
    exact .cdata _ ⟨front, by simp [endMark], goesOn⟩ script
  · cases h

theorem nextInDoctype_more {text : List Char} (goesOn : '>' ∉ text) (script : inScript = false)
    (h : nextInDoctype (String.ofList text) c = .more v) :
    InConstruct xml inScript v ('<' :: '!' :: (text ++ [c])) := by
  unfold nextInDoctype at h
  split at h
  · split at h <;> cases h
  · next closes =>
    obtain rfl := Progress.more.inj h
    have : InConstruct xml inScript (.doctype (String.ofList (text ++ [c]))) _ :=
      .doctype (text ++ [c]) (by simp [goesOn, Ne.symm closes]) script
    simpa using this

theorem nextInDoctype_done {text : List Char} (goesOn : '>' ∉ text) (script : inScript = false)
    (h : nextInDoctype (String.ofList text) c = .done k) :
    Form xml inScript ('<' :: '!' :: (text ++ [c])) k := by
  unfold nextInDoctype at h
  split at h
  · next closes =>
    subst closes
    split at h
    · next accepted =>
      obtain rfl := Progress.done.inj h
      exact .doctype text accepted goesOn script
    · cases h
  · cases h

theorem nextAfterEndTagName_more {name sp : List Char} (isName : IsTagName name)
    (spaces : AllSpaces sp) (script : inScript = true → Text.lower (String.ofList name) = "script")
    (h : nextAfterEndTagName (Text.lower (String.ofList name)) c = .more v) :
    InConstruct xml inScript v ('<' :: '/' :: (name ++ sp) ++ [c]) := by
  unfold nextAfterEndTagName at h
  split at h
  · next space =>
    obtain rfl := Progress.more.inj h
    have : InConstruct xml inScript (.afterEndTagName (Text.lower (String.ofList name))) _ :=
      .afterEndTagName name (sp ++ [c]) isName (spaces.snoc space) script
    simpa using this
  · split at h <;> cases h

theorem nextAfterEndTagName_done {name sp : List Char} (isName : IsTagName name)
    (spaces : AllSpaces sp) (script : inScript = true → Text.lower (String.ofList name) = "script")
    (h : nextAfterEndTagName (Text.lower (String.ofList name)) c = .done k) :
    Form xml inScript ('<' :: '/' :: (name ++ sp) ++ [c]) k := by
  unfold nextAfterEndTagName at h
  split at h
  · cases h
  split at h
  · next closes =>
    subst closes
    obtain rfl := Progress.done.inj h
    have : Form xml inScript _ (.endTag (Text.lower (String.ofList name))) :=
      .endTag name sp isName spaces script
    simpa using this
  · cases h

theorem nextInEndTagName_more {name : List Char} (isName : IsTagName name)
    (h : nextInEndTagName inScript (String.ofList name) c = .more v) :
    InConstruct xml inScript v ('<' :: '/' :: name ++ [c]) := by
  unfold nextInEndTagName at h
  split at h
  · next char =>
    obtain rfl := Progress.more.inj h
    have : InConstruct xml inScript (.endTagName (String.ofList (name ++ [c]))) _ :=
      .endTagName (name ++ [c]) (isName.push char)
    simpa using this
  split at h
  · cases h
  · next own =>
    have : InConstruct xml inScript v _ :=
      nextAfterEndTagName_more isName allSpaces_nil (by simpa using own) h
    simpa using this

theorem nextInEndTagName_done {name : List Char} (isName : IsTagName name)
    (h : nextInEndTagName inScript (String.ofList name) c = .done k) :
    Form xml inScript ('<' :: '/' :: name ++ [c]) k := by
  unfold nextInEndTagName at h
  split at h
  · cases h
  split at h
  · cases h
  · next own =>
    have : Form xml inScript _ k :=
      nextAfterEndTagName_done isName allSpaces_nil (by simpa using own) h
    simpa using this

end Next

/-- **Each character keeps what is read of a construct in form.** -/
theorem InConstruct.next_more {u v : Unfinished} {read : List Char}
    (within : InConstruct xml inScript u read) {c : Char}
    (h : u.next xml inScript (String.ofList read) c = .more v) :
    InConstruct xml inScript v (read ++ [c]) := by
  cases within with
  | begun => exact nextBegun_more h
  | tagName name isName script =>
    simp only [Unfinished.next] at h
    split at h
    · next char =>
      obtain rfl := Progress.more.inj h
      have : InConstruct xml inScript (.tagName (String.ofList (name ++ [c]))) _ :=
        .tagName (name ++ [c]) (isName.push char) script
      simpa using this
    · next char =>
      refine .tag name isName script ?_
      have follows : Follows xml (fun c => isNameChar c = false) [] [] c :=
        follows_nil (by simpa using char)
      have : InTag xml (.startTag (Text.lower (String.ofList name))) ('<' :: name) _ v _ :=
        next_tagOf_more allSpaces_nil follows h
      simpa using this
  | tag name isName script within => exact .tag name isName script (within.next_more h)
  | endTagBegun =>
    simp only [Unfinished.next] at h
    split at h
    · next start =>
      obtain rfl := Progress.more.inj h
      exact .endTagName [c] (.singleton start)
    · cases h
  | endTagName name isName => exact nextInEndTagName_more isName h
  | afterEndTagName name sp isName spaces script =>
    exact nextAfterEndTagName_more isName spaces script h
  | declarationBegun script =>
    simp only [Unfinished.next] at h
    split at h
    · next dash =>
      obtain rfl := Progress.more.inj h
      rw [dash]
      exact .commentBegun script
    split at h
    · next bracket =>
      obtain rfl := Progress.more.inj h
      rw [bracket]
      exact .cdataBegun [] _ rfl script
    · exact nextInDoctype_more (List.not_mem_nil : '>' ∉ []) script h
  | commentBegun script =>
    simp only [Unfinished.next] at h
    split at h
    · next dash =>
      obtain rfl := Progress.more.inj h
      rw [dash]
      exact .comment [] (by decide) script
    · cases h
  | comment data goesOn script => exact nextInComment_more goesOn script h
  | cdataBegun done word split script =>
    cases word with
    | nil =>
      rw [List.append_nil] at split
      subst split
      have first : ¬endMark ']' <:+: [] := by decide
      exact nextInCdata_more first script h
    | cons w word =>
      simp only [Unfinished.next] at h
      split at h
      · next same =>
        subst same
        obtain rfl := Progress.more.inj h
        rw [List.append_assoc]
        exact .cdataBegun (done ++ [c]) word (by simpa using split) script
      · cases h
  | cdata body goesOn script => exact nextInCdata_more goesOn script h
  | doctype text goesOn script => exact nextInDoctype_more goesOn script h
  | xmlBegun done word split script =>
    cases word with
    | nil =>
      rw [List.append_nil] at split
      subst split
      have follows : Follows xml (fun _ => True) [] [] c := follows_nil trivial
      have : InTag xml .xmlDeclaration xmlOpening _ v _ := next_tagOf_more allSpaces_nil follows h
      exact .declaration script (by simpa [xmlOpening] using this)
    | cons w word =>
      simp only [Unfinished.next] at h
      split at h
      · next same =>
        subst same
        obtain rfl := Progress.more.inj h
        rw [List.append_assoc]
        exact .xmlBegun (done ++ [c]) word (by simpa using split) script
      · cases h
  | declaration script within => exact .declaration script (within.next_more h)

/-- **Where a construct is complete**, its text has the form of it. -/
theorem InConstruct.next_done {u : Unfinished} {read : List Char}
    (within : InConstruct xml inScript u read) {c : Char} {k : Construct}
    (h : u.next xml inScript (String.ofList read) c = .done k) :
    Form xml inScript (read ++ [c]) k := by
  cases within with
  | begun => exact (nextBegun_ne_done inScript c k h).elim
  | tagName name isName script =>
    simp only [Unfinished.next] at h
    split at h
    · cases h
    · next char =>
      have h : (tagOf (.startTag (Text.lower (String.ofList name))) ('<' :: name) []).next c =
        .done k := h
      obtain ⟨rfl, -, rfl⟩ := next_tagOf_done h
      have ends : isNameChar '>' = false := by decide
      have : Form xml inScript _ _ := .startTag ⟨name, [], [], false⟩ ⟨isName, allSpaces_nil,
        follows_nil ends⟩ script
      rw [← WrittenTag.construct_eq, WrittenTag.raw, attributesRaw_nil, List.append_nil,
        List.append_nil] at this
      exact this
  | tag name isName script within =>
    obtain ⟨as, sp, closer, raw, spaces, follows, suits, rfl⟩ := within.next_done h
    rw [raw]
    cases closer with
    | tag selfClosing =>
      have : Form xml inScript _ _ :=
        .startTag ⟨name, as, sp, selfClosing⟩ ⟨isName, spaces, follows⟩ script
      rwa [← WrittenTag.construct_eq] at this
    | declaration => cases suits
  | endTagBegun =>
    simp only [Unfinished.next] at h
    split at h <;> cases h
  | endTagName name isName => exact nextInEndTagName_done isName h
  | afterEndTagName name sp isName spaces script =>
    exact nextAfterEndTagName_done isName spaces script h
  | declarationBegun script =>
    simp only [Unfinished.next] at h
    split at h
    · cases h
    split at h
    · cases h
    · exact nextInDoctype_done (List.not_mem_nil : '>' ∉ []) script h
  | commentBegun script =>
    simp only [Unfinished.next] at h
    split at h <;> cases h
  | comment data goesOn script => exact nextInComment_done goesOn script h
  | cdataBegun done word split script =>
    cases word with
    | nil =>
      rw [List.append_nil] at split
      subst split
      have first : ¬endMark ']' <:+: [] := by decide
      exact nextInCdata_done first script h
    | cons w word =>
      simp only [Unfinished.next] at h
      split at h <;> cases h
  | cdata body goesOn script => exact nextInCdata_done goesOn script h
  | doctype text goesOn script => exact nextInDoctype_done goesOn script h
  | xmlBegun done word split script =>
    cases word with
    | nil =>
      have h : (tagOf .xmlDeclaration xmlOpening []).next c = .done k := h
      obtain ⟨-, ⟨name, e⟩, -⟩ := next_tagOf_done h
      cases e
    | cons w word =>
      simp only [Unfinished.next] at h
      split at h <;> cases h
  | declaration script within =>
    obtain ⟨as, sp, closer, raw, spaces, follows, suits, rfl⟩ := within.next_done h
    rw [raw]
    cases closer with
    | tag => cases suits
    | declaration => exact .xmlDeclaration _ ⟨as, sp, rfl, spaces, follows.2⟩ script

/-- **The text of a whole construct has the form of it.** -/
theorem Completes.form {raw : List Char} {k : Construct} (h : Completes xml inScript raw k) :
    Form xml inScript raw k := by
  obtain ⟨body, c, u, rfl, fed, done⟩ := h
  have within := Unfinished.feed_keeps (P := InConstruct xml inScript) (fun h => h.next_more)
    .begun fed
  exact within.next_done done

/-! ### Tags that are written are read -/

theorem feed_tagName {cs pre : List Char} (read : List Char)
    (chars : ∀ c ∈ cs, isNameChar c = true) :
    (Unfinished.tagName (String.ofList pre)).feed xml inScript read cs =
      some (.tagName (String.ofList (pre ++ cs))) := by
  refine Unfinished.feed_of_grows read fun xs c ys split read => ?_
  rw [Unfinished.next, if_pos (chars c (by simp [split]))]

theorem WrittenTag.feed_name {w : WrittenTag} (isName : IsTagName w.name) :
    Unfinished.begun.feed xml false ['<'] w.name = some (.tagName (String.ofList w.name)) := by
  obtain ⟨c, cs, split, start⟩ := isName.starts
  have chars := isName.chars
  rw [split] at chars ⊢
  have slash : c ≠ '/' := ne_of_isNameChar (chars c (by simp)) (by decide)
  have more : Unfinished.begun.next xml false (String.ofList ['<']) c =
      .more (.tagName (String.ofList [c])) := by
    simp [Unfinished.next, nextBegun, slash, start]
  rw [Unfinished.feed_cons more]
  exact feed_tagName _ fun d hd => chars d (List.mem_cons_of_mem c hd)

theorem WrittenTag.standsFor_name (w : WrittenTag) :
    StandsFor xml false (fun c => isNameChar c = false) (.tagName (String.ofList w.name)) w.lead
      ⟨.startTag w.key, .empty, .empty⟩ :=
  standsFor_of_next fun c ends => by simp [Unfinished.next, ends, key]

/-- **A start tag that is written as tags are is read** as what it means. -/
theorem WrittenTag.completes {w : WrittenTag} (valid : w.Valid xml) :
    Completes xml false w.raw w.construct := by
  have first : isSpace w.closer.first = false ∧ w.closer.first ≠ '=' := by
    rw [closer]
    cases w.selfClosing <;> decide
  obtain ⟨u, fed, next⟩ :=
    w.standsFor_name.feed_attributes valid.spaces first.1 first.2 valid.follows
  have fed := Unfinished.feed_trans (feed_name valid.name) fed
  have owned : w.openTag.owner = .startTag w.key := by simp [openTag, tagOf]
  have next : ∀ c, w.closer.first = c → u.next xml false (String.ofList ('<' ::
      (w.name ++ (attributesRaw w.attributes ++ w.spaces)))) c = w.openTag.next c := by
    rintro _ rfl
    exact next
  rw [← construct_eq]
  have closer : w.closer = .tag w.selfClosing := rfl
  cases selfClosing : w.selfClosing with
  | false =>
    rw [selfClosing] at closer
    refine ⟨_, '>', u, ?_, fed, (next '>' (by rw [closer]; rfl)).trans ?_⟩
    · simp [raw, closer, Closer.raw, lead]
    · rw [OpenTag.next, owned, closer]
      rfl
  | true =>
    rw [selfClosing] at closer
    have more := next '/' (by rw [closer]; rfl)
    rw [OpenTag.next, owned] at more
    refine ⟨_, '>', .selfClosing w.openTag, ?_,
      Unfinished.feed_trans fed (Unfinished.feed_cons more []), ?_⟩
    · simp [raw, closer, Closer.raw, lead]
    · rw [closer]
      rfl

section EndTag
variable {name sp : List Char} (script : inScript = true → Text.lower (String.ofList name) = "script")

theorem feed_endTagName (isName : IsTagName name) :
    Unfinished.begun.feed xml inScript ['<'] ('/' :: name) =
      some (.endTagName (String.ofList name)) := by
  obtain ⟨c, cs, split, start⟩ := isName.starts
  have chars := isName.chars
  rw [split] at chars ⊢
  have slash : Unfinished.begun.next xml inScript (String.ofList ['<']) '/' = .more .endTagBegun :=
    rfl
  have letter : Unfinished.endTagBegun.next xml inScript (String.ofList ['<', '/']) c =
      .more (.endTagName (String.ofList [c])) := by simp [Unfinished.next, start]
  rw [Unfinished.feed_cons slash, List.singleton_append, Unfinished.feed_cons letter]
  refine Unfinished.feed_of_grows _ fun xs d ys split read => ?_
  rw [Unfinished.next, nextInEndTagName, if_pos (chars d (by simp [split]))]

include script in
/-- After its name an end tag goes on to its end. -/
theorem next_endTagName {c : Char} (ends : isNameChar c = false) (read : String) :
    (Unfinished.endTagName (String.ofList name)).next xml inScript read c =
      nextAfterEndTagName (Text.lower (String.ofList name)) c := by
  have own : ¬(inScript && Text.lower (String.ofList name) ≠ "script") = true := by
    simpa using script
  rw [Unfinished.next, nextInEndTagName, if_neg (by simp [ends]), if_neg own]

include script in
theorem feed_endTagSpaces (spaces : AllSpaces sp) (read : List Char) :
    ∃ u, (Unfinished.endTagName (String.ofList name)).feed xml inScript read sp = some u ∧
      ∀ read c, isNameChar c = false →
        u.next xml inScript read c = nextAfterEndTagName (Text.lower (String.ofList name)) c := by
  match sp, spaces with
  | [], _ => exact ⟨_, rfl, fun read c ends => next_endTagName script ends read⟩
  | s :: sp, spaces =>
    have space : isSpace s = true := spaces s (by simp)
    have ends : isNameChar s = false := by
      rw [Bool.eq_false_iff]
      intro char
      rw [isSpace_of_isNameChar char] at space
      cases space
    have more : (Unfinished.endTagName (String.ofList name)).next xml inScript
        (String.ofList read) s = .more (.afterEndTagName (Text.lower (String.ofList name))) := by
      rw [next_endTagName script ends, nextAfterEndTagName, if_pos space]
    refine ⟨.afterEndTagName (Text.lower (String.ofList name)), ?_, fun _ _ _ => rfl⟩
    rw [Unfinished.feed_cons more]
    refine Unfinished.feed_of_stays _ fun d hd _ => ?_
    rw [Unfinished.next, nextAfterEndTagName, if_pos (spaces d (List.mem_cons_of_mem s hd))]

/-- **An end tag is read**; in a script, if it is its own. -/
theorem completes_endTag (isName : IsTagName name) (spaces : AllSpaces sp)
    (script : inScript = true → Text.lower (String.ofList name) = "script") :
    Completes xml inScript ('<' :: '/' :: (name ++ sp ++ ['>']))
      (.endTag (Text.lower (String.ofList name))) := by
  have named : Unfinished.begun.feed xml inScript ['<'] ('/' :: name) = _ := feed_endTagName isName
  obtain ⟨u, spaced, next⟩ := feed_endTagSpaces script spaces (['<'] ++ '/' :: name)
  refine ⟨'/' :: name ++ sp, '>', u, by simp, Unfinished.feed_trans named spaced, ?_⟩
  rw [next _ '>' (by decide)]
  rfl

end EndTag

end HtmlMend.Markup
