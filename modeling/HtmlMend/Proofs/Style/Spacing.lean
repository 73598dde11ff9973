import HtmlMend.Proofs.Markup.References
import HtmlMend.Proofs.Style.Added

/-! # Inline styles: references in a style that is merged

The semicolon of a reference ends a declaration, as any other does. Merging puts one space after it,
and takes the blanks and the semicolons away that are there. So what a style adds can be read after
the merging as before just if each reference has that one space after it, or nothing
(`readReferences_added_iff`). -/

namespace HtmlMend.Style

open Text Markup

/-- What comes after a semicolon stays as it is when declarations are put together: blanks alone, or
one space and then a declaration. -/
def GoesOn (cs : List Char) : Prop := AllBlank cs ∨ ∃ c rest, cs = ' ' :: c :: rest ∧ IsVisible c

/-- A semicolon after the stem of a reference has no blanks before it, and the style goes on after
it as declarations do that are put together. -/
def Spaced (cs : List Char) : Prop :=
  ∀ (r : Reference) (front blanks after : List Char),
    cs = front ++ r.stem ++ blanks ++ ';' :: after → AllBlank blanks → blanks = [] ∧ GoesOn after

variable {c : Char} {cs field front blanks rest : List Char} {r : Reference}

/-! ### Styles with spaces after their references -/

theorem spaced_of_not_mem (absent : ';' ∉ cs) : Spaced cs := fun _ _ _ _ split _ =>
  absurd (by simp [split]) absent

theorem spaced_append (absent : ';' ∉ field) : Spaced (field ++ ';' :: rest) ↔
    (∀ (r : Reference) front blanks, field = front ++ r.stem ++ blanks → AllBlank blanks →
      blanks = [] ∧ GoesOn rest) ∧ Spaced rest := by
  constructor
  · refine fun h => ⟨fun r front blanks split blank => ?_, fun r front blanks after split blank => ?_⟩
    · exact h r front blanks rest (by rw [split]) blank
    · exact h r (field ++ ';' :: front) blanks after (by simp [split]) blank
  · rintro ⟨here, later⟩ r front blanks after split blank
    have plain : ';' ∉ r.stem ++ blanks := by
      simp [r.semicolon_not_mem_stem, semicolon_not_mem_of_allBlank blank]
    by_cases first : ';' ∈ front
    · -- The semicolon is one of the rest.
      obtain ⟨field', front', rfl, absent'⟩ := List.eq_append_cons_of_mem first
      obtain ⟨-, rfl⟩ := eq_of_append_cons absent absent' (by simpa using split)
      exact later r front' blanks after (by simp) blank
    · have absent' : ';' ∉ front ++ r.stem ++ blanks := by simpa [first] using plain
      obtain ⟨rfl, rfl⟩ := eq_of_append_cons absent absent' split
      exact here r front blanks rfl blank

theorem spaced_cons (ne : c ≠ '&') : Spaced (c :: cs) ↔ Spaced cs := by
  constructor
  · intro h r front blanks after split blank
    exact h r (c :: front) blanks after (by simp [split]) blank
  · intro h r front blanks after split blank
    cases front with
    | nil =>
      obtain ⟨word, stem, -⟩ := r.exists_stem_eq
      rw [stem] at split
      exact absurd (List.cons.inj split).1 ne
    | cons d front =>
      obtain ⟨rfl, rfl⟩ := List.cons.inj split
      exact h r front blanks after (by simp) blank

/-! ### What is read keeps its blanks -/

theorem readReferences_space (cs : List Char) :
    readReferences (' ' :: cs) = ' ' :: readReferences cs :=
  readReferences_cons_of_ne (by decide) cs

theorem readReferences_separator (cs : List Char) :
    readReferences (';' :: ' ' :: cs) = ';' :: ' ' :: readReferences cs := by
  rw [readReferences_cons_of_ne (by decide), readReferences_space]

theorem isVisible_char (r : Reference) : IsVisible r.char := by cases r <;> decide

theorem allBlank_readReferences_iff : AllBlank (readReferences cs) ↔ AllBlank cs := by
  induction cs using references_induction with
  | nil => rfl
  | stem r rest _ =>
    obtain ⟨word, stem, -⟩ := r.exists_stem_eq
    have ampersand : isBlank '&' = false := by decide
    have char : isBlank r.char = false := (isVisible_char r).1
    rw [readReferences_stem, stem]
    simp [allBlank_cons, ampersand, char]
  | cons c rest plain ih =>
    rw [readReferences_cons plain]
    exact allBlank_cons.trans ((and_congr_right' ih).trans allBlank_cons.symm)

/-- A character that is visible is read as one. -/
theorem exists_readReferences_cons (visible : IsVisible c) (cs : List Char) :
    ∃ d ds, readReferences (c :: cs) = d :: ds ∧ IsVisible d := by
  by_cases begins : ∃ (r : Reference) (rest : List Char), c :: cs = r.stem ++ ';' :: rest
  · obtain ⟨r, rest, split⟩ := begins
    exact ⟨r.char, readReferences rest, by rw [split, readReferences_stem], isVisible_char r⟩
  · exact ⟨c, _, readReferences_cons fun r rest split => begins ⟨r, rest, split⟩, visible⟩

theorem exists_of_readReferences_eq (visible : IsVisible c) (h : readReferences cs = c :: rest) :
    ∃ d ds, cs = d :: ds ∧ IsVisible d := by
  rcases exists_of_readReferences_eq_cons h with ⟨r, tail, rfl, -⟩ | ⟨tail, rfl, -⟩
  · obtain ⟨word, stem, -⟩ := r.exists_stem_eq
    exact ⟨'&', word ++ ';' :: tail, by rw [stem]; rfl, by decide⟩
  · exact ⟨c, tail, rfl, visible⟩

theorem goesOn_of_readReferences (h : readReferences cs = ' ' :: c :: rest) (visible : IsVisible c) :
    GoesOn cs := by
  rcases exists_of_readReferences_eq_cons h with ⟨r, tail, -, char⟩ | ⟨tail, rfl, later⟩
  · exact absurd char (by cases r <;> decide)
  · obtain ⟨d, ds, rfl, visible'⟩ := exists_of_readReferences_eq visible later.symm
    exact .inr ⟨d, ds, rfl, visible'⟩

/-! ### Fields -/

/-- What a field adds is nothing, or its text, with which what is left of it ends. -/
theorem added_field_cases (absent : ';' ∉ field) :
    added field = [] ∨
      ∃ text, added field = ';' :: ' ' :: text ∧ ';' ∉ text ∧ text <:+ stripEndChars field := by
  by_cases all : AllBlank field
  · exact .inl (added_of_allBlank all)
  · obtain ⟨lead, c, rest, rfl, blank, visible⟩ := exists_visible all
    have left : stripEndChars (lead ++ c :: rest) = lead ++ c :: stripEndChars rest :=
      stripEndChars_append_cons visible lead rest
    obtain ⟨blanks, split, -⟩ := exists_blanks (lead ++ c :: rest)
    refine .inr ⟨c :: stripEndChars rest, ?_, fun mem => absent ?_, ?_⟩
    · rw [added_append_cons absent visible, dropWhile_of_allBlank blank, List.nil_append]
    · rw [split, left]
      exact List.mem_append_left blanks (List.mem_append_right lead mem)
    · rw [left]
      exact List.suffix_append _ _

theorem readReferences_added_append (absent : ';' ∉ field)
    (ends : EndsPlain (stripEndChars field)) (rest : List Char) :
    readReferences (added field ++ ';' :: rest) = added field ++ ';' :: readReferences rest := by
  rcases added_field_cases absent with eq | ⟨text, eq, plain, suffix⟩
  · rw [eq]
    exact readReferences_cons_of_ne (by decide) rest
  · have ends' : EndsPlain text := fun r h => ends r (h.trans suffix)
    rw [eq, List.cons_append, List.cons_append, readReferences_separator,
      readReferences_append_semicolon plain ends']
    rfl

theorem readReferences_added_of_not_mem (absent : ';' ∉ field) :
    readReferences (added field) = added field := by
  rcases added_field_cases absent with eq | ⟨text, eq, plain, -⟩
  · rw [eq]
    rfl
  · rw [eq, readReferences_separator, readReferences_of_semicolon plain]

theorem field_cases (field : List Char) :
    EndsPlain (stripEndChars field) ∨
      ∃ (r : Reference) (front blanks : List Char),
        field = front ++ r.stem ++ blanks ∧ AllBlank blanks := by
  by_cases h : ∃ r : Reference, r.stem <:+ stripEndChars field
  · obtain ⟨r, front, ends⟩ := h
    obtain ⟨blanks, split, blank⟩ := exists_blanks field
    exact .inr ⟨r, front, blanks, by rw [ends]; exact split, blank⟩
  · exact .inl fun r suffix => h ⟨r, suffix⟩

theorem stripEndChars_stem (front : List Char) (r : Reference) :
    stripEndChars (front ++ r.stem) = front ++ r.stem := by
  cases r <;> simp [stripEndChars, Reference.stem, isBlank, blankRanges, inRanges]

theorem stripEndChars_append_stem (blank : AllBlank blanks) (front : List Char) (r : Reference) :
    stripEndChars (front ++ r.stem ++ blanks) = front ++ r.stem := by
  rw [stripEndChars_append_blanks blank, stripEndChars_stem]

theorem stripChars_append_stem (blank : AllBlank blanks) (front : List Char) (r : Reference) :
    stripChars (front ++ r.stem ++ blanks) = front.dropWhile isBlank ++ r.stem := by
  obtain ⟨word, stem, -⟩ := r.exists_stem_eq
  have visible : isBlank '&' = false := by decide
  have left := stripEndChars_append_stem blank [] r
  have assoc (xs : List Char) : xs ++ r.stem ++ blanks = xs ++ '&' :: (word ++ blanks) := by
    simp [stem]
  rw [assoc, stripEndChars_append_cons visible] at left
  rw [assoc, stripChars_append_cons visible]
  exact congrArg (front.dropWhile isBlank ++ ·) left

theorem not_allBlank_append_stem (front blanks : List Char) (r : Reference) :
    ¬AllBlank (front ++ r.stem ++ blanks) := by
  obtain ⟨word, stem, -⟩ := r.exists_stem_eq
  exact not_allBlank_of_mem (c := '&') (by decide) (by simp [stem])

theorem semicolon_not_mem_append_stem (plain : ';' ∉ front) (blank : AllBlank blanks)
    (r : Reference) : ';' ∉ front ++ r.stem ++ blanks := by
  simp [plain, r.semicolon_not_mem_stem, semicolon_not_mem_of_allBlank blank]

theorem added_append_stem (plain : ';' ∉ front) (blank : AllBlank blanks) (r : Reference) :
    added (front ++ r.stem ++ blanks) =
      ';' :: ' ' :: (front.dropWhile isBlank ++ r.stem) := by
  rw [added_of_not_mem (semicolon_not_mem_append_stem plain blank r)
    (not_allBlank_append_stem front blanks r), stripChars_append_stem blank]

/-! ### What is added is read -/

section Tail
variable {tail : List Char} (after : addedAfter rest = ';' :: tail)
include after

theorem readReferences_tail_of_allBlank (blank : AllBlank rest) :
    readReferences tail = addedOn (readReferences rest) := by
  rw [addedAfter, if_pos blank] at after
  obtain rfl : [] = tail := (List.cons.inj after).2
  exact (addedOn_eq_nil_iff.mpr (allBlank_readReferences_iff.mpr blank)).symm

/-- The space before a declaration stays as it is after a reference. -/
theorem readReferences_tail_iff_of_space (visible : IsVisible c) (split : rest = ' ' :: c :: cs) :
    readReferences tail = addedOn (readReferences rest) ↔
      readReferences (added (c :: cs)) = added (readReferences (c :: cs)) := by
  subst split
  have some_visible : ¬AllBlank (' ' :: c :: cs) := not_allBlank_of_mem visible.1 (by simp)
  rw [addedAfter, if_neg some_visible, added_cons_of_isBlank (by decide), added_cons visible] at after
  obtain rfl : ' ' :: c :: addedOn cs = tail := (List.cons.inj after).2
  obtain ⟨d, ds, read, visible'⟩ := exists_readReferences_cons visible cs
  have on : addedOn (' ' :: d :: ds) = ' ' :: d :: addedOn ds :=
    addedOn_append_cons visible' (by decide : ';' ∉ [' ']) ds
  rw [added_cons visible, readReferences_separator, readReferences_space, readReferences_space, read,
    on, added_cons visible']
  simp only [List.cons.injEq, true_and]

/-- Only so does what comes after a reference stay as it is. -/
theorem goesOn_of_readReferences_tail (same : readReferences tail = addedOn (readReferences rest)) :
    GoesOn rest := by
  rcases exists_addedAfter_eq rest with eq | ⟨c, cs, eq, visible⟩
  · obtain rfl : [] = tail := (List.cons.inj (eq.symm.trans after)).2
    exact .inl (allBlank_readReferences_iff.mp (addedOn_eq_nil_iff.mp same.symm))
  · obtain rfl : ' ' :: c :: cs = tail := (List.cons.inj (eq.symm.trans after)).2
    obtain ⟨d, ds, read, visible'⟩ := exists_readReferences_cons visible cs
    rw [readReferences_space, read] at same
    obtain ⟨more, begins⟩ := eq_cons_of_addedOn_eq visible' same.symm
    exact goesOn_of_readReferences begins visible'

theorem readReferences_tail_iff (ih : ∀ c cs, rest = ' ' :: c :: cs →
      (readReferences (added (c :: cs)) = added (readReferences (c :: cs)) ↔ Spaced (c :: cs))) :
    readReferences tail = addedOn (readReferences rest) ↔ GoesOn rest ∧ Spaced rest := by
  by_cases goesOn : GoesOn rest
  · rw [and_iff_right goesOn]
    rcases goesOn with blank | ⟨c, cs, split, visible⟩
    · exact iff_of_true (readReferences_tail_of_allBlank after blank)
        (spaced_of_not_mem (semicolon_not_mem_of_allBlank blank))
    · rw [readReferences_tail_iff_of_space after visible split, ih c cs split, split]
      exact (spaced_cons (by decide)).symm
  · exact iff_of_false (fun same => goesOn (goesOn_of_readReferences_tail after same))
      fun h => goesOn h.1

end Tail

theorem readReferences_addedAfter_iff
    (ih : readReferences (added rest) = added (readReferences rest) ↔ Spaced rest) :
    readReferences (addedAfter rest) = addedAfter (readReferences rest) ↔ Spaced rest := by
  by_cases blank : AllBlank rest
  · rw [addedAfter, if_pos blank, addedAfter, if_pos (allBlank_readReferences_iff.mpr blank)]
    exact iff_of_true rfl (spaced_of_not_mem (semicolon_not_mem_of_allBlank blank))
  · rw [addedAfter, if_neg blank, addedAfter, if_neg (mt allBlank_readReferences_iff.mp blank), ih]

/-- What a stem stands for does not begin as the stem does, with what is added after it. -/
theorem char_cons_ne (r : Reference) {tail : List Char} (after : addedAfter rest = ';' :: tail)
    (cs : List Char) : r.char :: readReferences tail ≠ r.stem ++ cs := by
  intro same
  cases r with
  | less => cases same
  | greater => cases same
  | ampersand =>
    have letter : readReferences tail = 'a' :: _ := (List.cons.inj same).2
    rcases exists_addedAfter_eq rest with none | ⟨c, more, some, -⟩
    · obtain rfl : [] = tail := (List.cons.inj (none.symm.trans after)).2
      cases letter
    · obtain rfl : ' ' :: c :: more = tail := (List.cons.inj (some.symm.trans after)).2
      rw [readReferences_space] at letter
      exact absurd (List.cons.inj letter).1 (by decide)

theorem readReferences_added_iff_of_ends (absent : ';' ∉ field)
    (ends : EndsPlain (stripEndChars field))
    (ih : readReferences (added rest) = added (readReferences rest) ↔ Spaced rest) :
    readReferences (added (field ++ ';' :: rest)) = added (readReferences (field ++ ';' :: rest)) ↔
      Spaced (field ++ ';' :: rest) := by
  obtain ⟨tail, after⟩ := exists_addedAfter_cons rest
  have noStem : EndsPlain field := by
    rintro r ⟨front, rfl⟩
    exact ends r (by rw [stripEndChars_stem]; exact List.suffix_append _ _)
  have vacuous (r : Reference) (front blanks : List Char) (split : field = front ++ r.stem ++ blanks)
      (blank : AllBlank blanks) : blanks = [] ∧ GoesOn rest := by
    refine absurd ⟨front, ?_⟩ (ends r)
    rw [split, stripEndChars_append_stem blank]
  rw [spaced_append absent, and_iff_right vacuous, ← readReferences_addedAfter_iff ih,
    readReferences_append_semicolon absent noStem, added_append absent, added_append absent, after,
    readReferences_added_append absent ends, List.append_cancel_left_eq,
    readReferences_cons_of_ne (by decide)]

section Stem
variable (plain : ';' ∉ front)
include plain

theorem readReferences_added_append_stem (blank : AllBlank blanks) (r : Reference)
    {tail : List Char} (after : addedAfter rest = ';' :: tail) :
    readReferences (added (front ++ r.stem ++ blanks ++ ';' :: rest)) =
      ';' :: ' ' :: (front.dropWhile isBlank ++ r.char :: readReferences tail) := by
  have absent := semicolon_not_mem_append_stem plain blank r
  have plain' : ';' ∉ front.dropWhile isBlank := fun mem =>
    plain ((List.dropWhile_suffix _).subset mem)
  rw [added_append absent, after, added_append_stem plain blank, List.cons_append, List.cons_append,
    readReferences_separator, readReferences_append_stem plain']

theorem readReferences_added_iff_of_stem (r : Reference)
    (ih : ∀ c cs, rest = ' ' :: c :: cs →
      (readReferences (added (c :: cs)) = added (readReferences (c :: cs)) ↔ Spaced (c :: cs))) :
    readReferences (added (front ++ r.stem ++ ';' :: rest)) =
        added (readReferences (front ++ r.stem ++ ';' :: rest)) ↔
      Spaced (front ++ r.stem ++ ';' :: rest) := by
  obtain ⟨tail, after⟩ := exists_addedAfter_cons rest
  have absent : ';' ∉ front ++ r.stem := by simp [plain, r.semicolon_not_mem_stem]
  have here : (∀ (r' : Reference) front' blanks, front ++ r.stem = front' ++ r'.stem ++ blanks →
      AllBlank blanks → blanks = [] ∧ GoesOn rest) ↔ GoesOn rest := by
    refine ⟨fun h => (h r front [] (List.append_nil _).symm allBlank_nil).2,
      fun h r' front' blanks split blank => ⟨?_, h⟩⟩
    -- Neither stem ends with a blank.
    have left := stripEndChars_stem front r
    rw [split, stripEndChars_append_stem blank] at left
    exact List.self_eq_append_right.mp left
  have added_left := readReferences_added_append_stem plain allBlank_nil r after
  rw [List.append_nil] at added_left
  rw [spaced_append absent, here, added_left, readReferences_append_stem plain,
    added_eq_addedOn plain (isVisible_char r), ← readReferences_tail_iff after ih]
  simp

/-- A style whose first field ends with a stem and blanks. -/
theorem readReferences_added_ne (blank : AllBlank blanks) (some_blank : blanks ≠ [])
    (r : Reference) : readReferences (added (front ++ r.stem ++ blanks ++ ';' :: rest)) ≠
      added (readReferences (front ++ r.stem ++ blanks ++ ';' :: rest)) := by
  obtain ⟨tail, after⟩ := exists_addedAfter_cons rest
  have absent := semicolon_not_mem_append_stem plain blank r
  have noStem : EndsPlain (front ++ r.stem ++ blanks) := by
    rintro r' ⟨front', ends⟩
    have left := stripEndChars_stem front' r'
    rw [ends, stripEndChars_append_stem blank] at left
    exact some_blank (List.self_eq_append_right.mp left)
  rw [readReferences_added_append_stem plain blank r after,
    readReferences_append_semicolon absent noStem, added_append absent,
    added_append_stem plain blank]
  simpa using char_cons_ne r after _

end Stem

/-- **What a style adds is read as what is added once it is read** just if there is one space, or
nothing, after each of its references. -/
theorem readReferences_added_iff (cs : List Char) :
    readReferences (added cs) = added (readReferences cs) ↔ Spaced cs := by
  induction h : cs.length using Nat.strongRecOn generalizing cs with
  | ind n ih =>
    subst h
    rcases exists_field cs with absent | ⟨field, rest, rfl, absent⟩
    · rw [readReferences_added_of_not_mem absent, readReferences_of_semicolon absent]
      exact iff_of_true rfl (spaced_of_not_mem absent)
    have shorter : rest.length < (field ++ ';' :: rest).length := by
      rw [List.length_append, List.length_cons]
      omega
    rcases field_cases field with ends | ⟨r, front, blanks, rfl, blank⟩
    · exact readReferences_added_iff_of_ends absent ends (ih _ shorter rest rfl)
    · have plain : ';' ∉ front := fun mem => absent (by simp [mem])
      by_cases none : blanks = []
      · subst none
        rw [List.append_nil]
        refine readReferences_added_iff_of_stem plain r fun c cs split => ih _ ?_ _ rfl
        exact Nat.lt_trans (by simp [split]) shorter
      · refine iff_of_false (readReferences_added_ne plain blank none r) fun spaced => none ?_
        exact (spaced r front blanks rest rfl blank).1

/-! ### The first declarations -/

theorem exists_texts_append_cons (absent : ';' ∉ front) (visible : IsVisible c) (cs : List Char) :
    ∃ text ts, texts (front ++ c :: cs) = text :: ts ∧ c ∈ text := by
  have field {rest : List Char} (absentRest : ';' ∉ rest) :
      ∃ text, texts (front ++ c :: rest) = [text] ∧ c ∈ text := by
    refine ⟨stripChars (front ++ c :: rest), ?_, ?_⟩
    · rw [texts_of_not_mem (by simp [absent, absentRest, Ne.symm visible.2]),
        if_neg (not_allBlank_of_mem visible.1 (by simp))]
    · rw [stripChars_append_cons visible.1]
      simp
  rcases exists_field cs with absentCs | ⟨rest, after, rfl, absentRest⟩
  · obtain ⟨text, only, mem⟩ := field absentCs
    exact ⟨text, [], only, mem⟩
  · obtain ⟨text, first, mem⟩ := field absentRest
    have assoc : front ++ c :: (rest ++ ';' :: after) = (front ++ c :: rest) ++ ';' :: after := by
      simp
    rw [assoc, texts_append (by simp [absent, absentRest, Ne.symm visible.2]), first]
    exact ⟨text, texts after, rfl, mem⟩

theorem not_prefix_texts {text : List Char} {ts : List (List Char)} (absent : ';' ∉ front)
    (visible : IsVisible c) (without : c ∉ text) (cs : List Char) :
    ¬text :: ts <+: texts (front ++ c :: cs) := by
  obtain ⟨first, more, eq, mem⟩ := exists_texts_append_cons absent visible cs
  rw [eq, List.cons_prefix_cons]
  rintro ⟨rfl, -⟩
  exact without mem

/-- **The declarations that a style begins with** are those that it begins with when it is read, if
no reference stands for a character of them. -/
theorem prefix_texts_readReferences_iff : ∀ (cs : List Char) {ts : List (List Char)},
    (∀ text ∈ ts, ∀ r : Reference, r.char ∉ text) →
    (ts <+: texts (readReferences cs) ↔ ts <+: texts cs) := by
  intro cs
  induction cs using fields_induction with
  | last field absent =>
    rw [readReferences_of_semicolon absent]
    exact fun _ => Iff.rfl
  | more field rest absent ih =>
    intro ts without
    by_cases ends : EndsPlain field
    · rw [readReferences_append_semicolon absent ends, texts_append absent, texts_append absent,
        texts_of_not_mem absent]
      split
      · exact ih without
      · cases ts with
        | nil => simp
        | cons text ts =>
          rw [List.singleton_append, List.singleton_append, List.cons_prefix_cons,
            List.cons_prefix_cons, ih fun t mem => without t (List.mem_cons_of_mem text mem)]
    · -- The first declaration has a reference in it, and the character it stands for when it is read.
      simp only [EndsPlain, not_forall, not_not] at ends
      obtain ⟨r, front, rfl⟩ := ends
      have plain : ';' ∉ front := fun mem => absent (List.mem_append_left _ mem)
      cases ts with
      | nil => simp
      | cons text ts =>
        obtain ⟨word, stem, -⟩ := r.exists_stem_eq
        have apart := without text List.mem_cons_self
        have unread : ¬text :: ts <+: texts (front ++ '&' :: (word ++ ';' :: rest)) :=
          not_prefix_texts plain (by decide) (apart .ampersand) _
        rw [readReferences_append_stem plain]
        refine iff_of_false (not_prefix_texts plain (isVisible_char r) (apart r) _) ?_
        rw [stem]
        simpa using unread

/-! ### Styles without references -/

/-- A style has no references if no declaration of it ends with the stem of one. -/
theorem readReferences_of_texts (plain : ∀ text ∈ texts cs, EndsPlain text) :
    readReferences cs = cs := by
  induction cs using fields_induction with
  | last cs absent => exact readReferences_of_semicolon absent
  | more field rest absent ih =>
    rw [texts_append absent] at plain
    have noStem : EndsPlain field := by
      rintro r ⟨front, rfl⟩
      rw [← List.append_nil (front ++ r.stem)] at plain absent
      refine plain (front.dropWhile isBlank ++ r.stem) ?_ r (List.suffix_append _ _)
      rw [texts_of_not_mem absent, if_neg (not_allBlank_append_stem front [] r),
        stripChars_append_stem allBlank_nil]
      simp
    rw [readReferences_append_semicolon absent noStem,
      ih fun text mem => plain text (List.mem_append_right _ mem)]

/-- Texts that are put together have no references if none of them ends with the stem of one. -/
theorem readReferences_flatMap {ending : List Char} (isEnding : ending = [] ∨ ending = [';']) :
    ∀ {ts : List (List Char)}, (∀ text ∈ ts, ';' ∉ text ∧ EndsPlain text) →
    readReferences (ts.flatMap (';' :: ' ' :: ·) ++ ending) = ts.flatMap (';' :: ' ' :: ·) ++ ending
  | [], _ => by rcases isEnding with rfl | rfl <;> rfl
  | text :: ts, plain => by
    obtain ⟨absent, ends⟩ := plain text (by simp)
    have later := readReferences_flatMap isEnding fun t mem => plain t (List.mem_cons_of_mem text mem)
    rw [List.flatMap_cons, List.append_assoc, List.cons_append, List.cons_append,
      readReferences_separator]
    have shape : ts.flatMap (';' :: ' ' :: ·) ++ ending = [] ∨
        ∃ rest, ts.flatMap (';' :: ' ' :: ·) ++ ending = ';' :: rest := by
      cases ts with
      | nil => exact isEnding.imp id fun e => ⟨[], e⟩
      | cons t ts => exact .inr ⟨_, rfl⟩
    rcases shape with none | ⟨rest, some⟩
    · rw [none, List.append_nil, readReferences_of_semicolon absent]
    · rw [some, readReferences_cons_of_ne (by decide)] at later
      rw [some, readReferences_append_semicolon absent ends, (List.cons.inj later).2]

/-- **A merged style has no references** if no declaration of it ends with the stem of one. -/
theorem readReferences_merge {style : String} {leading defaults : List String}
    (plain : ∀ d ∈ mergedDeclarations style leading defaults, EndsPlain d.text.toList) :
    readReferences (merge style leading defaults).toList =
      (merge style leading defaults).toList := by
  have absent {d : Declaration} (mem : d ∈ mergedDeclarations style leading defaults) :
      ';' ∉ d.text.toList := by
    rcases mem_of_mem_mergedDeclarations mem with mem | mem | mem
    all_goals exact semicolon_not_mem_of_mem_declarations mem
  rw [toList_merge, joined]
  cases merged : mergedDeclarations style leading defaults with
  | nil => rfl
  | cons d ds =>
    -- With a separator before the first declaration too, they are all alike.
    let ending : List Char := if d :: ds ≠ [] ∧ closed style.toList = true then [';'] else []
    have isEnding : ending = [] ∨ ending = [';'] := by
      unfold ending
      split <;> simp
    have each : ∀ text ∈ (d :: ds).map (·.text.toList), ';' ∉ text ∧ EndsPlain text := by
      intro text isText
      obtain ⟨e, mem, rfl⟩ := List.mem_map.mp isText
      rw [← merged] at mem
      exact ⟨absent mem, plain e mem⟩
    have separated := readReferences_flatMap isEnding each
    rw [List.map_cons, List.flatMap_cons, List.append_assoc, List.cons_append, List.cons_append,
      readReferences_separator] at separated
    rw [List.map_cons, intercalate_cons, List.append_assoc]
    exact (List.cons.inj (List.cons.inj separated).2).2

end HtmlMend.Style
