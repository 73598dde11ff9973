import HtmlMend.Proofs.Markup.Writing

/-! # Markup: a start tag is written in one way

A text is that of no more than one start tag in writing (`WrittenTag.eq_of_raw_eq`): spaces, names
and values each go on as far as they can, so that they can be told from what comes after them. So
what holds of the writing of a tag is said of its text (`StartTag.IsTidy`). -/

namespace HtmlMend.Markup

/-! ### Stretches of characters -/

/-- The text does not begin with characters of a kind. -/
def StopsAt (p : Char → Bool) (cs : List Char) : Prop := ∀ c, cs.head? = some c → p c = false

variable {p : Char → Bool} {xs ys r s : List Char}

theorem stopsAt_cons {c : Char} (h : p c = false) (cs : List Char) : StopsAt p (c :: cs) := by
  intro d first
  rwa [← Option.some.inj first]

theorem takeWhile_of_stopsAt (all : ∀ c ∈ xs, p c = true) (stops : StopsAt p r) :
    (xs ++ r).takeWhile p = xs := by
  rw [List.takeWhile_append_of_pos all]
  cases r with
  | nil => simp
  | cons c cs => simp [stops c rfl]

/-- Stretches of a kind that are as long as they can be are the same in the same text. -/
theorem append_inj_of_stopsAt (all : ∀ c ∈ xs, p c = true) (all' : ∀ c ∈ ys, p c = true)
    (stops : StopsAt p r) (stops' : StopsAt p s) (same : xs ++ r = ys ++ s) : xs = ys ∧ r = s := by
  have stretch : xs = ys := by
    rw [← takeWhile_of_stopsAt all stops, same, takeWhile_of_stopsAt all' stops']
  subst stretch
  exact ⟨rfl, List.append_cancel_left same⟩

theorem head?_append_of_head? {c : Char} (h : r.head? = some c) (xs : List Char) :
    (xs ++ r).head? = some (firstOf xs c) := by
  cases xs with
  | nil => exact h
  | cons x xs => rfl

/-! ### What comes after an attribute -/

/-- An attribute begins with the character, or the tag is closed with it. -/
def IsMark (c : Char) : Prop := isNameStart c = true ∨ c = '/' ∨ c = '>'

theorem IsMark.not_isSpace {c : Char} (h : IsMark c) : isSpace c = false := by
  rcases h with start | rfl | rfl
  · exact isSpace_of_isNameChar (isNameChar_of_isNameStart start)
  · decide
  · decide

theorem IsMark.ne {c d : Char} (h : IsMark c) (start : isNameStart d = false) (slash : d ≠ '/')
    (close : d ≠ '>') : c ≠ d := by
  rintro rfl
  rcases h with h | h | h
  · exact nomatch start.symm.trans h
  · exact slash h
  · exact close h

/-- The text of attributes, spaces and what closes a tag. -/
def restOf (as : List WrittenAttribute) (sp : List Char) (selfClosing : Bool) : List Char :=
  attributesRaw as ++ (sp ++ (Closer.tag selfClosing).raw)

variable {xml xml' : Bool} {as bs : List WrittenAttribute} {sp sp' : List Char} {b b' : Bool}

/-- The attributes are written as attributes are before spaces and what closes a tag. -/
structure IsRest (xml : Bool) (as : List WrittenAttribute) (sp : List Char) (b : Bool) : Prop where
  linked : Linked xml as (firstOf sp (Closer.tag b).first)
  spaces : AllSpaces sp

theorem head?_restOf (as : List WrittenAttribute) (sp : List Char) (b : Bool) :
    (restOf as sp b).head? = some (firstOf (attributesRaw as) (firstOf sp (Closer.tag b).first)) := by
  refine head?_append_of_head? (head?_append_of_head? ?_ sp) _
  cases b <;> rfl

/-- After spaces an attribute begins, or the tag is closed. -/
theorem IsRest.exists_mark (h : IsRest xml as sp b) :
    ∃ lead c cs, restOf as sp b = lead ++ c :: cs ∧ AllSpaces lead ∧ IsMark c := by
  cases as with
  | nil =>
    cases b with
    | false => exact ⟨sp, '>', [], rfl, h.spaces, .inr (.inr rfl)⟩
    | true => exact ⟨sp, '/', ['>'], rfl, h.spaces, .inr (.inl rfl)⟩
  | cons a as =>
    obtain ⟨valid, -, -⟩ := h.linked
    obtain ⟨c, cs, name, start⟩ := valid.name.starts
    refine ⟨a.spaces, c, cs ++ ((a.value.map WrittenValue.raw).getD [] ++ restOf as sp b), ?_,
      valid.spaces, .inl start⟩
    simp [restOf, WrittenAttribute.raw, name]

theorem IsRest.head (h : IsRest xml as sp b) {c : Char} (first : (restOf as sp b).head? = some c) :
    isSpace c = true ∨ IsMark c := by
  obtain ⟨lead, d, cs, split, spaces, mark⟩ := h.exists_mark
  rw [split] at first
  cases lead with
  | nil =>
    obtain rfl := Option.some.inj first
    exact .inr mark
  | cons x xs =>
    obtain rfl := Option.some.inj first
    exact .inl (spaces x (by simp))

theorem IsRest.ne_equals (h : IsRest xml as sp b) {before : List Char} (spaces : AllSpaces before)
    (cs : List Char) : restOf as sp b ≠ before ++ '=' :: cs := by
  intro same
  obtain ⟨lead, c, rest, split, spaces', mark⟩ := h.exists_mark
  rw [split] at same
  obtain ⟨-, same⟩ := append_inj_of_stopsAt spaces' spaces (stopsAt_cons mark.not_isSpace _)
    (stopsAt_cons (by decide) _) same
  exact mark.ne (by decide) (by decide) (by decide) (List.cons.inj same).1

/-! ### Names and values -/

/-- The character may stand in the name of an attribute. -/
def inName (c : Char) : Bool := isNameChar c || c = ':'

theorem WrittenAttribute.Valid.inName {a : WrittenAttribute} (valid : a.Valid xml) :
    ∀ c ∈ a.name, inName c = true := fun c mem => by
  simpa [Markup.inName] using valid.name.chars c mem

/-- The text of the value of an attribute, if it has one, and a rest. -/
def WrittenAttribute.afterName (a : WrittenAttribute) (rest : List Char) : List Char :=
  (a.value.map WrittenValue.raw).getD [] ++ rest

theorem IsRest.stopsAt_afterName {a : WrittenAttribute} (h : IsRest xml (a :: as) sp b) :
    StopsAt inName (a.afterName (restOf as sp b)) := by
  obtain ⟨valid, ends, linked⟩ := h.linked
  intro c first
  unfold WrittenAttribute.afterName at first
  cases value : a.value with
  | none =>
    rw [value] at first
    have rest : IsRest xml as sp b := ⟨linked, h.spaces⟩
    have head := rest.head first
    rw [WrittenAttribute.EndsBefore, value] at ends
    obtain rfl := Option.some.inj ((head?_restOf as sp b).symm.trans first)
    have char := (Bool.or_eq_false_iff.mp ends).1
    refine Bool.or_eq_false_iff.mpr ⟨char, decide_eq_false fun colon => ?_⟩
    rw [colon] at head
    rcases head with space | mark
    · exact absurd space (by decide)
    · exact mark.ne (by decide) (by decide) (by decide) rfl
  | some v =>
    rw [value] at first
    cases before : v.before with
    | nil =>
      obtain rfl : '=' = c := by simpa [WrittenValue.raw, before] using first
      decide
    | cons x xs =>
      obtain rfl : x = c := by simpa [WrittenValue.raw, before] using first
      have space := (valid.value v value).before x (by simp [before])
      refine Bool.eq_false_iff.mpr fun char => ?_
      rcases Bool.or_eq_true_iff.mp char with char | colon
      · rw [isSpace_of_isNameChar char] at space
        cases space
      · rw [of_decide_eq_true colon] at space
        exact absurd space (by decide)

namespace WrittenValue

/-- The value in its quotes. -/
def body (v : WrittenValue) : List Char := v.quote.toList ++ v.text ++ v.quote.toList

/-- A value without quotes ends before the text. -/
def EndsBefore (v : WrittenValue) (rest : List Char) : Prop :=
  v.quote = none → ∃ c cs, rest = c :: cs ∧ endsUnquoted c = true ∧
    (v.text = [] → isSpace c = false ∧ c ≠ '"' ∧ c ≠ '\'')

variable {v v' : WrittenValue} {rest rest' : List Char}

theorem Valid.not_isSpace_quote (valid : v.Valid) {q : Char} (quote : v.quote = some q) :
    isSpace q = false := by
  rcases (valid.quoted q quote).1 with rfl | rfl <;> decide

theorem Valid.stopsAt_body (valid : v.Valid) (ends : v.EndsBefore rest) :
    StopsAt isSpace (v.body ++ rest) := by
  cases quote : v.quote with
  | some q =>
    rw [body, quote]
    exact stopsAt_cons (valid.not_isSpace_quote quote) _
  | none =>
    obtain ⟨c, cs, rfl, -, empty⟩ := ends quote
    cases text : v.text with
    | nil =>
      rw [body, quote, text]
      exact stopsAt_cons (empty text).1 _
    | cons x xs =>
      rw [body, quote, text]
      exact stopsAt_cons ((valid.unquoted quote).2 x (by rw [text]; rfl)) _

theorem Valid.body_ne (valid : v.Valid) (ends : v.EndsBefore rest) (quote : v.quote = none)
    {q : Char} (isQuote : q = '"' ∨ q = '\'') (cs : List Char) : v.body ++ rest ≠ q :: cs := by
  intro same
  obtain ⟨c, rest, rfl, -, empty⟩ := ends quote
  cases text : v.text with
  | nil =>
    obtain ⟨-, double, single⟩ := empty text
    have first : c = q := by
      rw [body, quote, text] at same
      exact (List.cons.inj same).1
    rcases isQuote with rfl | rfl
    · exact double first
    · exact single first
  | cons x xs =>
    have first : x = q := by
      rw [body, quote, text] at same
      exact (List.cons.inj same).1
    have goesOn := (valid.unquoted quote).1 x (by simp [text])
    rw [first] at goesOn
    rcases isQuote with rfl | rfl <;> exact absurd goesOn (by decide)

theorem Valid.body_inj (valid : v.Valid) (valid' : v'.Valid) (ends : v.EndsBefore rest)
    (ends' : v'.EndsBefore rest') (same : v.body ++ rest = v'.body ++ rest') :
    v.quote = v'.quote ∧ v.text = v'.text ∧ rest = rest' := by
  cases quote : v.quote with
  | none =>
    cases quote' : v'.quote with
    | none =>
      obtain ⟨c, cs, rfl, stop, -⟩ := ends quote
      obtain ⟨c', cs', rfl, stop', -⟩ := ends' quote'
      simp only [body, quote, quote', Option.toList_none, List.nil_append, List.append_nil] at same
      have goesOn {v : WrittenValue} (valid : v.Valid) (quote : v.quote = none) :
          ∀ c ∈ v.text, (!endsUnquoted c) = true := fun c mem => by
        simp [(valid.unquoted quote).1 c mem]
      exact ⟨rfl, append_inj_of_stopsAt (goesOn valid quote) (goesOn valid' quote')
        (stopsAt_cons (by simp [stop]) cs) (stopsAt_cons (by simp [stop']) cs') same⟩
    | some q =>
      refine (valid.body_ne ends quote (valid'.quoted q quote').1
        (v'.text ++ q :: rest') ?_).elim
      simpa [body, quote'] using same
  | some q =>
    have split : v.body ++ rest = q :: (v.text ++ q :: rest) := by simp [body, quote]
    cases quote' : v'.quote with
    | none =>
      exact (valid'.body_ne ends' quote' (valid.quoted q quote).1 _ (same.symm.trans split)).elim
    | some q' =>
      have split' : v'.body ++ rest' = q' :: (v'.text ++ q' :: rest') := by simp [body, quote']
      rw [split, split'] at same
      obtain ⟨rfl, same⟩ := List.cons.inj same
      have goesOn {v : WrittenValue} (valid : v.Valid) (quote : v.quote = some q) :
          ∀ c ∈ v.text, (c != q) = true := fun c mem => by
        simpa using fun same : c = q => (valid.quoted q quote).2 (same ▸ mem)
      obtain ⟨text, after⟩ := append_inj_of_stopsAt (goesOn valid quote) (goesOn valid' quote')
        (stopsAt_cons (by simp) rest) (stopsAt_cons (by simp) rest') same
      exact ⟨rfl, text, (List.cons.inj after).2⟩

/-- A text begins with no more than one value. -/
theorem Valid.raw_inj (valid : v.Valid) (valid' : v'.Valid) (ends : v.EndsBefore rest)
    (ends' : v'.EndsBefore rest') (same : v.raw ++ rest = v'.raw ++ rest') :
    v = v' ∧ rest = rest' := by
  have split (v : WrittenValue) (rest : List Char) :
      v.raw ++ rest = v.before ++ '=' :: (v.after ++ (v.body ++ rest)) := by simp [raw, body]
  rw [split, split] at same
  obtain ⟨before, same⟩ := append_inj_of_stopsAt valid.before valid'.before
    (stopsAt_cons (by decide) _) (stopsAt_cons (by decide) _) same
  obtain ⟨after, same⟩ := append_inj_of_stopsAt valid.after valid'.after
    (valid.stopsAt_body ends) (valid'.stopsAt_body ends') (List.cons.inj same).2
  obtain ⟨quote, text, rest⟩ := valid.body_inj valid' ends ends' same
  refine ⟨?_, rest⟩
  cases v
  cases v'
  simp only at before after quote text
  rw [before, after, quote, text]

end WrittenValue

/-! ### Tags -/

theorem IsRest.endsBefore {a : WrittenAttribute} {v : WrittenValue} (h : IsRest xml (a :: as) sp b)
    (value : a.value = some v) : v.EndsBefore (restOf as sp b) := by
  obtain ⟨-, ends, -⟩ := h.linked
  rw [WrittenAttribute.EndsBefore, value] at ends
  obtain ⟨cs, split⟩ := List.head?_eq_some_iff.mp (head?_restOf as sp b)
  exact fun quote => ⟨_, cs, split, ends quote⟩

/-- The text after the name of an attribute has no more than one value, and one rest. -/
theorem IsRest.afterName_inj {a a' : WrittenAttribute} (h : IsRest xml (a :: as) sp b)
    (h' : IsRest xml' (a' :: bs) sp' b')
    (same : a.afterName (restOf as sp b) = a'.afterName (restOf bs sp' b')) :
    a.value = a'.value ∧ restOf as sp b = restOf bs sp' b' := by
  obtain ⟨valid, -, linked⟩ := h.linked
  obtain ⟨valid', -, linked'⟩ := h'.linked
  have rest : IsRest xml as sp b := ⟨linked, h.spaces⟩
  have rest' : IsRest xml' bs sp' b' := ⟨linked', h'.spaces⟩
  unfold WrittenAttribute.afterName at same
  cases value : a.value with
  | none =>
    cases value' : a'.value with
    | none =>
      rw [value, value'] at same
      exact ⟨rfl, same⟩
    | some v' =>
      refine (rest.ne_equals (valid'.value v' value').before
        (v'.after ++ (v'.body ++ restOf bs sp' b')) ?_).elim
      simpa [value, value', WrittenValue.raw, WrittenValue.body] using same
  | some v =>
    cases value' : a'.value with
    | none =>
      refine (rest'.ne_equals (valid.value v value).before
        (v.after ++ (v.body ++ restOf as sp b)) ?_).elim
      simpa [value, value', WrittenValue.raw, WrittenValue.body] using same.symm
    | some v' =>
      rw [value, value'] at same
      obtain ⟨rfl, sameRest⟩ := (valid.value v value).raw_inj (valid'.value v' value')
        (h.endsBefore value) (h'.endsBefore value') same
      exact ⟨rfl, sameRest⟩

theorem restOf_cons (a : WrittenAttribute) (as : List WrittenAttribute) (sp : List Char) (b : Bool) :
    restOf (a :: as) sp b = a.spaces ++ (a.name ++ a.afterName (restOf as sp b)) := by
  simp [restOf, WrittenAttribute.afterName, WrittenAttribute.raw]

theorem restOf_nil (sp : List Char) (b : Bool) :
    restOf [] sp b = sp ++ (Closer.tag b).raw := rfl

theorem stopsAt_closer (b : Bool) : StopsAt isSpace (Closer.tag b).raw := by
  cases b <;> exact stopsAt_cons (by decide) _

theorem IsAttributeName.stopsAt {name : List Char} (h : IsAttributeName xml name) (cs : List Char) :
    StopsAt isSpace (name ++ cs) := by
  obtain ⟨c, rest, rfl, start⟩ := h.starts
  exact stopsAt_cons (isSpace_of_isNameChar (isNameChar_of_isNameStart start)) _

theorem IsRest.nil_ne_cons {a : WrittenAttribute} (spaces : AllSpaces sp)
    (h : IsRest xml (a :: as) sp' b') : restOf [] sp b ≠ restOf (a :: as) sp' b' := by
  intro same
  obtain ⟨valid, -, -⟩ := h.linked
  rw [restOf_nil, restOf_cons] at same
  obtain ⟨-, same⟩ := append_inj_of_stopsAt spaces valid.spaces (stopsAt_closer b)
    (valid.name.stopsAt _) same
  obtain ⟨c, rest, name, start⟩ := valid.name.starts
  rw [name] at same
  cases b with
  | false =>
    rw [← (List.cons.inj same).1] at start
    exact absurd start (by decide)
  | true =>
    rw [← (List.cons.inj same).1] at start
    exact absurd start (by decide)

/-- **A text is that of attributes in one way.** -/
theorem IsRest.restOf_inj : ∀ {as bs : List WrittenAttribute}, IsRest xml as sp b →
    IsRest xml' bs sp' b' → restOf as sp b = restOf bs sp' b' → as = bs ∧ sp = sp' ∧ b = b'
  | [], [], h, h', same => by
    obtain ⟨spaces, closer⟩ :=
      append_inj_of_stopsAt h.spaces h'.spaces (stopsAt_closer b) (stopsAt_closer b') same
    refine ⟨rfl, spaces, ?_⟩
    cases b <;> cases b' <;> first | rfl | exact absurd closer (by decide)
  | [], a :: bs, h, h', same => (h'.nil_ne_cons h.spaces same).elim
  | a :: as, [], h, h', same => (h.nil_ne_cons h'.spaces same.symm).elim
  | a :: as, a' :: bs, h, h', same => by
    obtain ⟨valid, -, linked⟩ := h.linked
    obtain ⟨valid', -, linked'⟩ := h'.linked
    rw [restOf_cons, restOf_cons] at same
    obtain ⟨spaces, same⟩ := append_inj_of_stopsAt valid.spaces valid'.spaces
      (valid.name.stopsAt _) (valid'.name.stopsAt _) same
    obtain ⟨name, same⟩ := append_inj_of_stopsAt valid.inName valid'.inName
      h.stopsAt_afterName h'.stopsAt_afterName same
    obtain ⟨value, same⟩ := h.afterName_inj h' same
    obtain ⟨rfl, rfl, rfl⟩ := restOf_inj ⟨linked, h.spaces⟩ ⟨linked', h'.spaces⟩ same
    refine ⟨?_, rfl, rfl⟩
    cases a
    cases a'
    simp only at spaces name value
    rw [spaces, name, value]

namespace WrittenTag

variable {w w' : WrittenTag}

theorem raw_eq_restOf (w : WrittenTag) :
    w.raw = '<' :: (w.name ++ restOf w.attributes w.spaces w.selfClosing) := by
  simp [raw, lead, closer, restOf]

theorem Valid.isRest (valid : w.Valid xml) : IsRest xml w.attributes w.spaces w.selfClosing :=
  ⟨valid.follows.2, valid.spaces⟩

theorem Valid.stopsAt_name (valid : w.Valid xml) :
    StopsAt isNameChar (restOf w.attributes w.spaces w.selfClosing) := by
  obtain ⟨cs, split⟩ := List.head?_eq_some_iff.mp
    (head?_restOf w.attributes w.spaces w.selfClosing)
  rw [split]
  have first := valid.follows.1
  rw [firstOf_append] at first
  exact stopsAt_cons first cs

/-- **A start tag is written in one way.** -/
theorem eq_of_raw_eq (valid : w.Valid xml) (valid' : w'.Valid xml') (same : w.raw = w'.raw) :
    w = w' := by
  rw [raw_eq_restOf, raw_eq_restOf] at same
  obtain ⟨name, same⟩ := append_inj_of_stopsAt valid.name.chars valid'.name.chars
    valid.stopsAt_name valid'.stopsAt_name (List.cons.inj same).2
  obtain ⟨attributes, spaces, selfClosing⟩ := valid.isRest.restOf_inj valid'.isRest same
  cases w
  cases w'
  simp only at name attributes spaces selfClosing
  rw [name, attributes, spaces, selfClosing]

end WrittenTag

/-- The text of the tag has no attribute with an empty value without quotes or with a dotted
capital I in its name. -/
def StartTag.IsTidy (tag : StartTag) : Prop :=
  ∃ (w : WrittenTag) (xml : Bool), w.Valid xml ∧ tag.raw = String.ofList w.raw ∧ w.IsTidy

theorem StartTag.IsTidy.of_valid {w : WrittenTag} {line : Option Int}
    (tidy : (w.startTag line).IsTidy) (valid : w.Valid xml) : w.IsTidy := by
  obtain ⟨w', xml', valid', raw, tidy⟩ := tidy
  obtain rfl := WrittenTag.eq_of_raw_eq valid valid' (String.ofList_inj.mp raw)
  exact tidy

end HtmlMend.Markup
