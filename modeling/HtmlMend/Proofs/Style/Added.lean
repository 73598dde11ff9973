import HtmlMend.Proofs.Style.Characters
import Mathlib.Data.List.TakeWhile

/-! # Inline styles: what a style adds to declarations before it

The declarations of a style, each with a separator before it, and the semicolon at its end make up
what the style adds where it is merged (`added`). It is found field by field: a field without
semicolons adds its text without the blanks at its ends (`added_of_not_mem`), and then comes what
the rest adds (`added_append`). -/

namespace HtmlMend

/-! ### Blanks at the ends of a text -/

namespace Text

/-- All characters of a text are blanks. -/
def AllBlank (cs : List Char) : Prop := ∀ c ∈ cs, isBlank c = true

instance (cs : List Char) : Decidable (AllBlank cs) := List.decidableBAll _ cs

variable {c : Char} {cs xs ys : List Char}

theorem allBlank_nil : AllBlank [] := List.forall_mem_nil _

theorem allBlank_cons : AllBlank (c :: cs) ↔ isBlank c = true ∧ AllBlank cs := List.forall_mem_cons

theorem semicolon_not_mem_of_allBlank (h : AllBlank cs) : ';' ∉ cs := fun mem =>
  absurd (h ';' mem) (by decide)

theorem dropWhile_of_allBlank (h : AllBlank xs) : xs.dropWhile isBlank = [] :=
  List.dropWhile_eq_nil_iff.mpr h

theorem dropWhile_append_cons (visible : isBlank c = false) (xs ys : List Char) :
    (xs ++ c :: ys).dropWhile isBlank = xs.dropWhile isBlank ++ c :: ys := by
  rw [List.dropWhile_append]
  split
  · next empty => simp [List.isEmpty_iff.mp empty, visible]
  · rfl

theorem stripEndChars_append_cons (visible : isBlank c = false) (xs ys : List Char) :
    stripEndChars (xs ++ c :: ys) = xs ++ c :: stripEndChars ys := by
  have reversed : (xs ++ c :: ys).reverse = ys.reverse ++ c :: xs.reverse := by simp
  rw [stripEndChars, reversed, dropWhile_append_cons visible, stripEndChars]
  simp

theorem stripEndChars_append_blanks (blank : AllBlank ys) (xs : List Char) :
    stripEndChars (xs ++ ys) = stripEndChars xs := by
  have blank' : AllBlank ys.reverse := fun c mem => blank c (List.mem_reverse.mp mem)
  rw [stripEndChars, List.reverse_append, List.dropWhile_append, dropWhile_of_allBlank blank']
  rfl

theorem stripEndChars_eq_nil_iff : stripEndChars cs = [] ↔ AllBlank cs := by
  rw [stripEndChars, List.reverse_eq_nil_iff, List.dropWhile_eq_nil_iff]
  simp [AllBlank]

theorem exists_blanks (cs : List Char) :
    ∃ blanks, cs = stripEndChars cs ++ blanks ∧ AllBlank blanks := by
  refine ⟨(cs.reverse.takeWhile isBlank).reverse, ?_, fun c mem => ?_⟩
  · rw [stripEndChars, ← List.reverse_append, List.takeWhile_append_dropWhile, List.reverse_reverse]
  · exact List.mem_takeWhile_imp (List.mem_reverse.mp mem)

/-- A text of blanks alone, or blanks and then another character. -/
theorem exists_visible : ∀ {cs : List Char}, ¬AllBlank cs →
    ∃ lead c rest, cs = lead ++ c :: rest ∧ AllBlank lead ∧ isBlank c = false
  | [], h => absurd allBlank_nil h
  | c :: cs, h => by
    by_cases blank : isBlank c = true
    · obtain ⟨lead, d, rest, rfl, allBlank, visible⟩ :=
        exists_visible fun all => h (allBlank_cons.mpr ⟨blank, all⟩)
      exact ⟨c :: lead, d, rest, rfl, allBlank_cons.mpr ⟨blank, allBlank⟩, visible⟩
    · exact ⟨[], c, cs, rfl, allBlank_nil, by simpa using blank⟩

theorem stripChars_eq_nil_iff : stripChars cs = [] ↔ AllBlank cs := by
  constructor
  · intro h
    by_contra some_visible
    obtain ⟨lead, c, rest, rfl, -, visible⟩ := exists_visible some_visible
    rw [stripChars, dropWhile_append_cons visible, stripEndChars_append_cons visible] at h
    simp at h
  · intro blank
    rw [stripChars, dropWhile_of_allBlank blank]
    rfl

theorem stripChars_append_cons (visible : isBlank c = false) (xs ys : List Char) :
    stripChars (xs ++ c :: ys) = xs.dropWhile isBlank ++ c :: stripEndChars ys := by
  rw [stripChars, dropWhile_append_cons visible, stripEndChars_append_cons visible]

/-! ### Fields -/

variable {sep : Char} {field : List Char}

theorem splitChars_of_not_mem (absent : sep ∉ field) : splitChars sep field = [field] := by
  induction field with
  | nil => rfl
  | cons c cs ih =>
    rw [List.mem_cons, not_or] at absent
    rw [splitChars, if_neg (Ne.symm absent.1), ih absent.2]

theorem splitChars_append (absent : sep ∉ field) (rest : List Char) :
    splitChars sep (field ++ sep :: rest) = field :: splitChars sep rest := by
  induction field with
  | nil => rw [List.nil_append, splitChars, if_pos rfl]
  | cons c cs ih =>
    rw [List.mem_cons, not_or] at absent
    rw [List.cons_append, splitChars, if_neg (Ne.symm absent.1), ih absent.2]

end Text

namespace Style

open Text

/-! ### What a style adds -/

/-- The texts of the declarations of a style. -/
def texts (cs : List Char) : List (List Char) :=
  ((splitChars ';' cs).map stripChars).filter (· ≠ [])

/-- Whether a style ends with a semicolon. -/
def closed (cs : List Char) : Bool := (stripEndChars cs).getLast? == some ';'

/-- What a style adds to declarations before it. -/
def added (cs : List Char) : List Char :=
  (texts cs).flatMap (fun text => ';' :: ' ' :: text) ++ if closed cs then [';'] else []

/-- What is added by what comes after a field and its semicolon. -/
def addedAfter (cs : List Char) : List Char := if AllBlank cs then [';'] else added cs

/-- What is added by text that goes on with a declaration. -/
def addedOn (cs : List Char) : List Char :=
  stripEndChars (cs.takeWhile (· ≠ ';')) ++
    match cs.dropWhile (· ≠ ';') with
    | [] => []
    | _ :: rest => addedAfter rest

/-- A character that is in a declaration wherever it stands. -/
def IsVisible (c : Char) : Prop := isBlank c = false ∧ c ≠ ';'

instance (c : Char) : Decidable (IsVisible c) := inferInstanceAs (Decidable (_ ∧ _))

variable {c : Char} {cs field xs ys rest : List Char}

theorem exists_field (cs : List Char) :
    ';' ∉ cs ∨ ∃ field rest, cs = field ++ ';' :: rest ∧ ';' ∉ field := by
  by_cases mem : ';' ∈ cs
  · obtain ⟨field, rest, split, absent⟩ := List.eq_append_cons_of_mem mem
    exact .inr ⟨field, rest, split, absent⟩
  · exact .inl mem

/-- What holds of a field, and of a style if it does of what comes after its first field. -/
@[elab_as_elim]
theorem fields_induction {P : List Char → Prop} (cs : List Char)
    (last : ∀ field, ';' ∉ field → P field)
    (more : ∀ field rest, ';' ∉ field → P rest → P (field ++ ';' :: rest)) : P cs := by
  induction h : cs.length using Nat.strongRecOn generalizing cs with
  | ind n ih =>
    subst h
    rcases exists_field cs with absent | ⟨field, rest, rfl, absent⟩
    · exact last cs absent
    · have shorter : rest.length < (field ++ ';' :: rest).length := by
        rw [List.length_append, List.length_cons]
        omega
      exact more field rest absent (ih _ shorter rest rfl)

theorem texts_of_not_mem (absent : ';' ∉ cs) :
    texts cs = if AllBlank cs then [] else [stripChars cs] := by
  rw [texts, splitChars_of_not_mem absent]
  by_cases blank : AllBlank cs
  · simp [blank, stripChars_eq_nil_iff.mpr blank]
  · simp [blank, mt stripChars_eq_nil_iff.mp blank]

theorem texts_append (absent : ';' ∉ field) (rest : List Char) :
    texts (field ++ ';' :: rest) = texts field ++ texts rest := by
  rw [texts, texts, splitChars_append absent, splitChars_of_not_mem absent]
  exact List.filter_append [stripChars field] ((splitChars ';' rest).map stripChars)

theorem semicolon_not_mem_of_mem_splitChars (mem : field ∈ splitChars ';' cs) : ';' ∉ field := by
  induction cs using fields_induction with
  | last cs absent =>
    rw [splitChars_of_not_mem absent, List.mem_singleton] at mem
    rwa [mem]
  | more first rest absent ih =>
    rw [splitChars_append absent, List.mem_cons] at mem
    rcases mem with rfl | later
    · exact absent
    · exact ih later

theorem semicolon_not_mem_of_mem_texts {text : List Char} (mem : text ∈ texts cs) : ';' ∉ text := by
  obtain ⟨field, isField, rfl⟩ := List.mem_map.mp (List.mem_filter.mp mem).1
  exact fun inside => semicolon_not_mem_of_mem_splitChars isField (mem_of_mem_stripChars inside)

theorem closed_of_not_mem (absent : ';' ∉ cs) : closed cs = false := by
  obtain ⟨blanks, split, -⟩ := exists_blanks cs
  rw [closed, beq_eq_false_iff_ne]
  intro last
  exact absent (by rw [split]; exact List.mem_append_left _ (List.mem_of_getLast? last))

theorem closed_append (field rest : List Char) :
    closed (field ++ ';' :: rest) = (decide (AllBlank rest) || closed rest) := by
  have visible : isBlank ';' = false := by decide
  rw [closed, stripEndChars_append_cons visible, closed]
  by_cases blank : AllBlank rest
  · simp [stripEndChars_eq_nil_iff.mpr blank, blank]
  · obtain ⟨d, ds, left⟩ := List.exists_cons_of_ne_nil (mt stripEndChars_eq_nil_iff.mp blank)
    simp [left, blank, List.getLast?_cons]

theorem added_of_allBlank (blank : AllBlank cs) : added cs = [] := by
  have absent := semicolon_not_mem_of_allBlank blank
  rw [added, texts_of_not_mem absent, if_pos blank, closed_of_not_mem absent]
  rfl

/-- **A field** adds its text. -/
theorem added_of_not_mem (absent : ';' ∉ cs) (some_visible : ¬AllBlank cs) :
    added cs = ';' :: ' ' :: stripChars cs := by
  rw [added, texts_of_not_mem absent, if_neg some_visible, closed_of_not_mem absent]
  simp

theorem not_allBlank_of_mem (visible : isBlank c = false) (mem : c ∈ cs) : ¬AllBlank cs := fun blank =>
  absurd (blank c mem) (by simp [visible])

theorem added_append_cons (absent : ';' ∉ xs ++ c :: ys) (visible : isBlank c = false) :
    added (xs ++ c :: ys) = ';' :: ' ' :: (xs.dropWhile isBlank ++ c :: stripEndChars ys) := by
  rw [added_of_not_mem absent (not_allBlank_of_mem visible (by simp)),
    stripChars_append_cons visible]

/-- **After a field** and its semicolon comes what the rest adds. -/
theorem added_append (absent : ';' ∉ field) (rest : List Char) :
    added (field ++ ';' :: rest) = added field ++ addedAfter rest := by
  rw [added, texts_append absent, closed_append, added, closed_of_not_mem absent, addedAfter]
  by_cases blank : AllBlank rest
  · simp [blank, texts_of_not_mem (semicolon_not_mem_of_allBlank blank)]
  · simp [blank, added]

theorem added_cons_of_isBlank (blank : isBlank c = true) (cs : List Char) :
    added (c :: cs) = added cs := by
  have ne : ';' ≠ c := by
    rintro rfl
    exact absurd blank (by decide)
  have one {field : List Char} (absent : ';' ∉ field) : added (c :: field) = added field := by
    by_cases all : AllBlank field
    · rw [added_of_allBlank all, added_of_allBlank (allBlank_cons.mpr ⟨blank, all⟩)]
    · obtain ⟨lead, d, rest, rfl, -, visible⟩ := exists_visible all
      rw [added_append_cons absent visible, ← List.cons_append,
        added_append_cons (by simpa [ne] using absent) visible, List.dropWhile_cons, if_pos blank]
  rcases exists_field cs with absent | ⟨field, rest, rfl, absent⟩
  · exact one absent
  · rw [← List.cons_append, added_append (by simp [ne, absent]), one absent, added_append absent]

theorem addedOn_of_not_mem (absent : ';' ∉ cs) : addedOn cs = stripEndChars cs := by
  have all : ∀ c ∈ cs, decide (c ≠ ';') = true := fun c mem => by
    simpa using ne_of_mem_of_not_mem mem absent
  rw [addedOn, List.takeWhile_eq_self_iff.mpr all, List.dropWhile_eq_nil_iff.mpr all]
  simp

theorem addedOn_append (absent : ';' ∉ field) (rest : List Char) :
    addedOn (field ++ ';' :: rest) = stripEndChars field ++ addedAfter rest := by
  have all : ∀ c ∈ field, decide (c ≠ ';') = true := fun c mem => by
    simpa using ne_of_mem_of_not_mem mem absent
  rw [addedOn, List.takeWhile_append_of_pos all, List.dropWhile_append_of_pos all]
  simp

/-- **What goes on with a declaration** is added behind what there is of it. -/
theorem added_eq_addedOn (absent : ';' ∉ xs) (visible : IsVisible c) (cs : List Char) :
    added (xs ++ c :: cs) = ';' :: ' ' :: (xs.dropWhile isBlank ++ c :: addedOn cs) := by
  have absent' {field : List Char} (absentField : ';' ∉ field) : ';' ∉ xs ++ c :: field := by
    simp [absent, absentField, Ne.symm visible.2]
  rcases exists_field cs with absentCs | ⟨field, rest, rfl, absentField⟩
  · rw [added_append_cons (absent' absentCs) visible.1, addedOn_of_not_mem absentCs]
  · have assoc : xs ++ c :: (field ++ ';' :: rest) = (xs ++ c :: field) ++ ';' :: rest := by simp
    rw [assoc, added_append (absent' absentField), added_append_cons (absent' absentField) visible.1,
      addedOn_append absentField]
    simp

theorem added_cons (visible : IsVisible c) (cs : List Char) :
    added (c :: cs) = ';' :: ' ' :: c :: addedOn cs :=
  added_eq_addedOn (List.not_mem_nil : ';' ∉ []) visible cs

theorem addedOn_append_cons (visible : IsVisible c) (absent : ';' ∉ xs) (cs : List Char) :
    addedOn (xs ++ c :: cs) = xs ++ c :: addedOn cs := by
  rcases exists_field cs with absentCs | ⟨field, rest, rfl, absentField⟩
  · have : ';' ∉ xs ++ c :: cs := by simp [absent, absentCs, Ne.symm visible.2]
    rw [addedOn_of_not_mem this, addedOn_of_not_mem absentCs, stripEndChars_append_cons visible.1]
  · have assoc : xs ++ c :: (field ++ ';' :: rest) = (xs ++ c :: field) ++ ';' :: rest := by simp
    have : ';' ∉ xs ++ c :: field := by simp [absent, absentField, Ne.symm visible.2]
    rw [assoc, addedOn_append this, addedOn_append absentField, stripEndChars_append_cons visible.1]
    simp

/-- After a semicolon more is added: another semicolon at the end, or a space and a declaration. -/
theorem exists_addedAfter_eq (rest : List Char) :
    addedAfter rest = [';'] ∨ ∃ c cs, addedAfter rest = ';' :: ' ' :: c :: cs ∧ IsVisible c := by
  induction h : rest.length using Nat.strongRecOn generalizing rest with
  | ind n ih =>
    subst h
    rw [addedAfter]
    by_cases all : AllBlank rest
    · exact .inl (if_pos all)
    rw [if_neg all]
    obtain ⟨lead, c, tail, rfl, blank, visible⟩ := exists_visible all
    have absent := semicolon_not_mem_of_allBlank blank
    by_cases semicolon : c = ';'
    · subst semicolon
      have shorter : tail.length < (lead ++ ';' :: tail).length := by
        rw [List.length_append, List.length_cons]
        omega
      rw [added_append absent, added_of_allBlank blank, List.nil_append]
      exact ih _ shorter tail rfl
    · rw [added_eq_addedOn absent ⟨visible, semicolon⟩, dropWhile_of_allBlank blank]
      exact .inr ⟨c, addedOn tail, rfl, visible, semicolon⟩

theorem exists_addedAfter_cons (rest : List Char) : ∃ cs, addedAfter rest = ';' :: cs := by
  rcases exists_addedAfter_eq rest with eq | ⟨c, cs, eq, -⟩
  · exact ⟨[], eq⟩
  · exact ⟨' ' :: c :: cs, eq⟩

theorem addedOn_eq_nil_iff : addedOn cs = [] ↔ AllBlank cs := by
  rcases exists_field cs with absent | ⟨field, rest, rfl, absent⟩
  · rw [addedOn_of_not_mem absent, stripEndChars_eq_nil_iff]
  · obtain ⟨tail, eq⟩ := exists_addedAfter_cons rest
    rw [addedOn_append absent, eq]
    refine iff_of_false (by simp) fun blank => ?_
    exact semicolon_not_mem_of_allBlank blank (by simp)

/-- What goes on with a space and a declaration began so. -/
theorem eq_cons_of_addedOn_eq (visible : IsVisible c) (h : addedOn cs = ' ' :: c :: ys) :
    ∃ rest, cs = ' ' :: c :: rest := by
  have begins {field : List Char} {rest : List Char} (left : stripEndChars field = ' ' :: c :: rest) :
      ∃ rest', field = ' ' :: c :: rest' := by
    obtain ⟨blanks, split, -⟩ := exists_blanks field
    exact ⟨rest ++ blanks, by rw [split, left]; rfl⟩
  rcases exists_field cs with absent | ⟨field, rest, rfl, absent⟩
  · rw [addedOn_of_not_mem absent] at h
    exact begins h
  · obtain ⟨tail, eq⟩ := exists_addedAfter_cons rest
    rw [addedOn_append absent, eq] at h
    match left : stripEndChars field, h with
    | [], h => exact absurd (List.cons.inj h).1 (by decide)
    | [a], h => exact absurd (List.cons.inj (List.cons.inj h).2).1.symm visible.2
    | a :: b :: more, h =>
      simp only [List.cons_append, List.cons.injEq] at h
      obtain ⟨rfl, rfl, -⟩ := h
      obtain ⟨rest', rfl⟩ := begins left
      exact ⟨rest' ++ ';' :: rest, rfl⟩

/-! ### Merged styles -/

theorem map_text_declarations (style : String) :
    (declarations style).map (·.text.toList) = texts style.toList := by
  rw [declarations, fields, texts]
  induction splitChars ';' style.toList with
  | nil => rfl
  | cons field fields ih =>
    have read : readField (String.ofList field) = if stripChars field = [] then none else
        some ⟨lower (strip (before ':' (strip (String.ofList field)))),
          strip (String.ofList field)⟩ := by
      simp [readField, strip]
    rw [List.map_cons, List.filterMap_cons, read]
    by_cases blank : stripChars field = []
    · simpa [blank] using ih
    · simpa [blank] using ih

theorem semicolon_not_mem_of_mem_declarations {d : Declaration} {style : String}
    (mem : d ∈ declarations style) : ';' ∉ d.text.toList := by
  have isText : d.text.toList ∈ texts style.toList := by
    rw [← map_text_declarations]
    exact List.mem_map_of_mem mem
  exact semicolon_not_mem_of_mem_texts isText

theorem firstOfEach_of_nodup : ∀ {ds : List Declaration} {seen : List String},
    (ds.map Declaration.property).Nodup → (∀ d ∈ ds, d.property ∉ seen) → firstOfEach seen ds = ds
  | [], _, _, _ => rfl
  | d :: ds, seen, nodup, fresh => by
    rw [List.map_cons, List.nodup_cons] at nodup
    have unseen : seen.contains d.property = false := by simpa using fresh d (by simp)
    rw [firstOfEach, unseen, if_neg (by simp), firstOfEach_of_nodup nodup.2]
    intro e mem
    rw [List.mem_cons, not_or]
    refine ⟨fun same => nodup.1 ?_, fresh e (List.mem_cons_of_mem d mem)⟩
    rw [← same]
    exact List.mem_map_of_mem mem

theorem intercalate_cons (sep : List Char) : ∀ (text : List Char) (texts : List (List Char)),
    sep.intercalate (text :: texts) = text ++ texts.flatMap (sep ++ ·)
  | text, [] => by simp
  | text, next :: texts => by
    rw [List.intercalate_cons_cons, intercalate_cons sep next texts]
    simp

theorem intercalate_append (sep : List Char) {xs : List (List Char)} (ne : xs ≠ [])
    (ys : List (List Char)) :
    sep.intercalate (xs ++ ys) = sep.intercalate xs ++ ys.flatMap (sep ++ ·) := by
  obtain ⟨text, xs, rfl⟩ := List.exists_cons_of_ne_nil ne
  rw [List.cons_append, intercalate_cons, intercalate_cons, List.flatMap_append, List.append_assoc]

/-- The text of declarations that are put together. -/
def joined (ds : List Declaration) : List Char :=
  "; ".toList.intercalate (ds.map (·.text.toList))

theorem toList_merge (style : String) (leading defaults : List String) :
    (merge style leading defaults).toList =
      joined (mergedDeclarations style leading defaults) ++
        if mergedDeclarations style leading defaults ≠ [] ∧ closed style.toList = true then [';']
        else [] := by
  rw [merge, String.toList_append, String.toList_intercalate, List.map_map, joined, closed]
  refine congrArg (List.append _) ?_
  by_cases none : mergedDeclarations style leading defaults = []
  · simp [none]
  · by_cases ends : (stripEndChars style.toList).getLast? = some ';'
    · simp [none, ends]
    · simp [none, ends]

end Style

end HtmlMend
