import HtmlMend.Proofs.Style.Added

/-! # Inline styles: what a merged style sets

Declarations that are put together are read again as they were (`declarations_joined`), since none
of them has a semicolon or a blank at its ends. So a merged style has the declarations that were
merged, of each property the first (`firstOfEach_eq`), and what is merged into it once more is there
already, in its place (`firstOfEach_again`). -/

namespace HtmlMend

namespace Text

variable {c : Char} {cs : List Char}

theorem stripChars_cons_of_isBlank (blank : isBlank c = true) (cs : List Char) :
    stripChars (c :: cs) = stripChars cs := by
  rw [stripChars, List.dropWhile_cons_of_pos blank, stripChars]

theorem stripEndChars_stripEndChars (cs : List Char) :
    stripEndChars (stripEndChars cs) = stripEndChars cs := by
  obtain ⟨blanks, split, blank⟩ := exists_blanks cs
  exact (stripEndChars_append_blanks blank _).symm.trans (congrArg stripEndChars split.symm)

theorem stripChars_stripChars (cs : List Char) : stripChars (stripChars cs) = stripChars cs := by
  by_cases blank : AllBlank cs
  · rw [stripChars_eq_nil_iff.mpr blank]
    rfl
  · obtain ⟨lead, c, rest, rfl, allBlank, visible⟩ := exists_visible blank
    have again := stripChars_append_cons visible [] (stripEndChars rest)
    rw [stripEndChars_stripEndChars] at again
    rw [stripChars_append_cons visible, dropWhile_of_allBlank allBlank]
    exact again

end Text

namespace Style

open Text

/-! ### The first of each property -/

/-- Of each property the first declaration. -/
def distinct (ds : List Declaration) : List Declaration :=
  ds.eraseDupsBy fun d e => d.property == e.property

theorem firstOfEach_eq_filter : ∀ (ds : List Declaration) (seen : List String),
    firstOfEach seen ds = distinct (ds.filter fun d => !seen.contains d.property)
  | [], _ => rfl
  | d :: ds, seen => by
    rw [firstOfEach]
    by_cases known : seen.contains d.property = true
    · rw [if_pos known, List.filter_cons_of_neg (by simpa using known), firstOfEach_eq_filter ds]
    · rw [if_neg known, List.filter_cons_of_pos (by simpa using known), distinct,
        List.eraseDupsBy_cons, List.filter_filter, firstOfEach_eq_filter ds, distinct]
      simp

/-- **What is kept** is the first declaration of each property. -/
theorem firstOfEach_eq (ds : List Declaration) : firstOfEach [] ds = distinct ds := by
  have all : ds.filter (fun d => !([] : List String).contains d.property) = ds := by simp
  rw [firstOfEach_eq_filter, all]

variable {seen : List String} {d : Declaration}

/-- A declaration of a property that is set goes, wherever it stands. -/
theorem firstOfEach_append_cons (ys : List Declaration) :
    ∀ {xs : List Declaration} {seen : List String}, d.property ∈ seen →
      firstOfEach seen (xs ++ d :: ys) = firstOfEach seen (xs ++ ys)
  | [], seen, known => by
    rw [List.nil_append, firstOfEach, if_pos (by simpa using known), List.nil_append]
  | x :: xs, seen, known => by
    rw [List.cons_append, List.cons_append, firstOfEach, firstOfEach]
    split
    · exact firstOfEach_append_cons ys known
    · rw [firstOfEach_append_cons ys (List.mem_cons_of_mem _ known)]

/-- What is kept sets different properties, and none that was set. -/
theorem nodup_firstOfEach : ∀ (ds : List Declaration) (seen : List String),
    ((firstOfEach seen ds).map Declaration.property).Nodup ∧
      ∀ d ∈ firstOfEach seen ds, d.property ∉ seen
  | [], _ => ⟨List.nodup_nil, by simp [firstOfEach]⟩
  | d :: ds, seen => by
    rw [firstOfEach]
    split
    · exact nodup_firstOfEach ds seen
    · next unknown =>
      obtain ⟨nodup, fresh⟩ := nodup_firstOfEach ds (d.property :: seen)
      refine ⟨?_, fun e mem => ?_⟩
      · rw [List.map_cons, List.nodup_cons]
        refine ⟨fun mem => ?_, nodup⟩
        obtain ⟨e, kept, same⟩ := List.mem_map.mp mem
        exact fresh e kept (by simp [same])
      · rcases List.mem_cons.mp mem with rfl | mem
        · simpa using unknown
        · exact fun known => fresh e mem (List.mem_cons_of_mem _ known)

/-- Each property is set by what is kept, if it was not set before. -/
theorem property_mem_firstOfEach : ∀ {ds : List Declaration} {seen : List String}, d ∈ ds →
    d.property ∉ seen → d.property ∈ (firstOfEach seen ds).map Declaration.property
  | e :: ds, seen, mem, unknown => by
    rw [firstOfEach]
    split
    · next known =>
      rcases List.mem_cons.mp mem with rfl | mem
      · exact absurd (by simpa using known) unknown
      · exact property_mem_firstOfEach mem unknown
    · rw [List.map_cons, List.mem_cons]
      by_cases same : d.property = e.property
      · exact .inl same
      · have later : d ∈ ds := (List.mem_cons.mp mem).resolve_left fun here => same (by rw [here])
        exact .inr (property_mem_firstOfEach later (by simp [same, unknown]))

/-- **What is put before the declarations that are kept** of it and others is among them already. -/
theorem firstOfEach_again (ys : List Declaration) : ∀ (xs : List Declaration) (seen : List String),
    firstOfEach seen (xs ++ firstOfEach seen (xs ++ ys)) = firstOfEach seen (xs ++ ys)
  | [], seen => by
    obtain ⟨nodup, fresh⟩ := nodup_firstOfEach ys seen
    exact firstOfEach_of_nodup nodup fresh
  | x :: xs, seen => by
    rw [List.cons_append, List.cons_append]
    by_cases known : seen.contains x.property = true
    · rw [firstOfEach, if_pos known, firstOfEach, if_pos known, firstOfEach_again ys xs]
    · have set : x.property ∈ x.property :: seen := List.mem_cons_self
      rw [firstOfEach.eq_2 seen x (xs ++ ys), if_neg known, firstOfEach, if_neg known,
        firstOfEach_append_cons _ set, firstOfEach_again ys xs]

/-! ### What is put together is read again -/

/-- A declaration is read as itself. -/
structure IsRead (d : Declaration) : Prop where
  read : readField d.text = some d
  plain : ';' ∉ d.text.toList

theorem readField_congr {field field' : String} (h : strip field = strip field') :
    readField field = readField field' := by
  rw [readField, readField, h]

theorem isRead_of_mem_declarations {style : String} (mem : d ∈ declarations style) : IsRead d where
  read := by
    obtain ⟨field, -, read⟩ := List.mem_filterMap.mp mem
    have text : d.text = strip field := by
      rw [readField] at read
      split at read
      · cases read
      · obtain rfl := Option.some.inj read
        rfl
    have again : strip d.text = strip field := by
      rw [text, strip, toList_strip, stripChars_stripChars, strip]
    rw [readField_congr again, read]
  plain := semicolon_not_mem_of_mem_declarations mem

theorem isRead_of_mem_mergedDeclarations {style : String} {leading defaults : List String}
    (mem : d ∈ mergedDeclarations style leading defaults) : IsRead d := by
  rcases mem_of_mem_mergedDeclarations mem with mem | mem | mem
  all_goals exact isRead_of_mem_declarations mem

theorem IsRead.not_allBlank (h : IsRead d) : ¬AllBlank d.text.toList := by
  intro blank
  have read := h.read
  have empty : strip d.text = "" := by
    rw [strip, stripChars_eq_nil_iff.mpr blank]
  rw [readField] at read
  simp [empty] at read

variable {field rest : List Char}

theorem declarations_of_not_mem (absent : ';' ∉ field) :
    declarations (String.ofList field) = (readField (String.ofList field)).toList := by
  rw [declarations, fields, String.toList_ofList, splitChars_of_not_mem absent]
  cases read : readField (String.ofList field) <;> simp [read]

theorem declarations_append (absent : ';' ∉ field) (rest : List Char) :
    declarations (String.ofList (field ++ ';' :: rest)) =
      (readField (String.ofList field)).toList ++ declarations (String.ofList rest) := by
  rw [declarations, declarations, fields, fields, String.toList_ofList, String.toList_ofList,
    splitChars_append absent]
  cases read : readField (String.ofList field) <;> simp [read]

theorem declarations_cons_of_isBlank {c : Char} (blank : isBlank c = true) (cs : List Char) :
    declarations (String.ofList (c :: cs)) = declarations (String.ofList cs) := by
  have ne : ';' ≠ c := by
    rintro rfl
    exact absurd blank (by decide)
  have same (field : List Char) :
      readField (String.ofList (c :: field)) = readField (String.ofList field) := by
    refine readField_congr ?_
    rw [strip, strip, String.toList_ofList, String.toList_ofList,
      stripChars_cons_of_isBlank blank]
  rcases exists_field cs with absent | ⟨field, rest, rfl, absent⟩
  · rw [declarations_of_not_mem (by simp [ne, absent]), declarations_of_not_mem absent, same]
  · rw [← List.cons_append, declarations_append (by simp [ne, absent]), same,
      declarations_append absent]

theorem joined_cons_cons (d e : Declaration) (ds : List Declaration) :
    joined (d :: e :: ds) = d.text.toList ++ [';', ' '] ++ joined (e :: ds) := by
  rw [joined, List.map_cons, List.map_cons, List.intercalate_cons_cons, joined, List.map_cons]
  rfl

/-- **Declarations that are put together** are read again, whether or not a semicolon ends them. -/
theorem declarations_joined {ending : List Char} (isEnding : ending = [] ∨ ending = [';']) :
    ∀ {ds : List Declaration}, (∀ d ∈ ds, IsRead d) →
      declarations (String.ofList (joined ds ++ ending)) = ds
  | [], _ => by rcases isEnding with rfl | rfl <;> rfl
  | [d], areRead => by
    obtain ⟨read, plain⟩ := areRead d (by simp)
    have one : joined [d] = d.text.toList := by simp [joined]
    rw [one]
    rcases isEnding with rfl | rfl
    · rw [List.append_nil, declarations_of_not_mem plain, String.ofList_toList, read]
      rfl
    · rw [declarations_append plain, String.ofList_toList, read]
      rfl
  | d :: e :: ds, areRead => by
    obtain ⟨read, plain⟩ := areRead d (by simp)
    have later := declarations_joined isEnding fun f mem => areRead f (List.mem_cons_of_mem d mem)
    have split : joined (d :: e :: ds) ++ ending =
        d.text.toList ++ ';' :: ' ' :: (joined (e :: ds) ++ ending) := by simp [joined_cons_cons]
    rw [split, declarations_append plain, declarations_cons_of_isBlank (by decide), later,
      String.ofList_toList, read]
    rfl

/-! ### The semicolon at the end -/

/-- Whether a style ends with a semicolon is seen from the end on. -/
theorem closed_append_of_not_allBlank {ys : List Char} (h : ¬AllBlank ys) (xs : List Char) :
    closed (xs ++ ys) = closed ys := by
  obtain ⟨lead, c, rest, rfl, -, visible⟩ := exists_visible h
  rw [closed, closed, ← List.append_assoc, stripEndChars_append_cons visible,
    stripEndChars_append_cons visible, List.append_assoc, List.getLast?_append]
  cases last : (lead ++ c :: stripEndChars rest).getLast? with
  | none => simp at last
  | some d => rfl

theorem not_allBlank_joined {ds : List Declaration} (h : IsRead d) :
    ¬AllBlank (joined (d :: ds)) := by
  intro blank
  refine h.not_allBlank fun c mem => blank c ?_
  rw [joined, List.map_cons, intercalate_cons]
  exact List.mem_append_left _ mem

theorem closed_joined : ∀ {ds : List Declaration}, (∀ d ∈ ds, IsRead d) → closed (joined ds) = false
  | [], _ => rfl
  | [d], areRead => by
    have one : joined [d] = d.text.toList := by simp [joined]
    rw [one, closed_of_not_mem (areRead d (by simp)).plain]
  | d :: e :: ds, areRead => by
    have later := closed_joined fun f mem => areRead f (List.mem_cons_of_mem d mem)
    rw [joined_cons_cons, closed_append_of_not_allBlank (not_allBlank_joined (areRead e (by simp))),
      later]

theorem closed_of_getLast? {cs : List Char} (last : cs.getLast? = some ';') : closed cs = true := by
  obtain ⟨front, rfl⟩ := List.getLast?_eq_some_iff.mp last
  have visible : isBlank ';' = false := by decide
  rw [closed, stripEndChars_append_cons visible]
  simp [stripEndChars]

/-! ### Merged styles -/

variable {style : String} {leading defaults : List String}

/-- **A merged style is read** as the declarations that were merged. -/
theorem declarations_merged (style : String) (leading defaults : List String) :
    declarations (merge style leading defaults) = mergedDeclarations style leading defaults := by
  have merged := toList_merge style leading defaults
  rw [← String.ofList_toList (s := merge style leading defaults), merged]
  refine declarations_joined ?_ fun d mem => isRead_of_mem_mergedDeclarations mem
  split <;> simp

theorem closed_merge (style : String) (leading defaults : List String) :
    closed (merge style leading defaults).toList = true ↔
      mergedDeclarations style leading defaults ≠ [] ∧ closed style.toList = true := by
  rw [toList_merge]
  split
  · next ends => exact iff_of_true (closed_of_getLast? (by simp)) ends
  · next ends =>
    have areRead : ∀ d ∈ mergedDeclarations style leading defaults, IsRead d :=
      fun d mem => isRead_of_mem_mergedDeclarations mem
    rw [List.append_nil, closed_joined areRead]
    exact iff_of_false (by simp) ends

theorem getLast?_merge (style : String) (leading defaults : List String) :
    (merge style leading defaults).toList.getLast? = some ';' ↔
      mergedDeclarations style leading defaults ≠ [] ∧ closed style.toList = true := by
  constructor
  · exact fun last => (closed_merge style leading defaults).mp (closed_of_getLast? last)
  · intro ends
    rw [toList_merge, if_pos ends, List.getLast?_concat]

theorem property_mem_mergedDeclarations
    (mem : d ∈ declarations ("; ".intercalate defaults)) :
    d.property ∈ (mergedDeclarations style leading defaults).map Declaration.property := by
  rw [mergedDeclarations]
  by_cases set : d.property ∈ (declarations style).map Declaration.property
  · obtain ⟨e, own, same⟩ := List.mem_map.mp set
    rw [← same]
    exact property_mem_firstOfEach (by simp [own]) List.not_mem_nil
  · refine property_mem_firstOfEach (List.mem_append_left _ (List.mem_append_right _ ?_))
      List.not_mem_nil
    exact List.mem_filter.mpr ⟨mem, by simpa using set⟩

/-- What is merged into a merged style is there already. -/
theorem mergedDeclarations_merge (style : String) (leading defaults : List String) :
    mergedDeclarations (merge style leading defaults) leading defaults =
      mergedDeclarations style leading defaults := by
  have missing : (declarations ("; ".intercalate defaults)).filter (fun d =>
      !((mergedDeclarations style leading defaults).map Declaration.property).contains d.property) =
      [] := by
    rw [List.filter_eq_nil_iff]
    intro d mem
    have set : d.property ∈
        (mergedDeclarations style leading defaults).map Declaration.property :=
      property_mem_mergedDeclarations mem
    simpa using set
  rw [mergedDeclarations, declarations_merged, missing, List.append_nil, mergedDeclarations,
    List.append_assoc]
  exact firstOfEach_again _ _ []

/-- **A style that is merged once more** stays as it is. -/
theorem merge_merge (style : String) (leading defaults : List String) :
    merge (merge style leading defaults) leading defaults = merge style leading defaults := by
  rw [← String.toList_inj, toList_merge, mergedDeclarations_merge,
    if_congr (and_congr_right' (closed_merge style leading defaults)) rfl rfl,
    if_congr and_self_left rfl rfl, toList_merge]

/-- The declarations that a merged style is to set: the leading ones, those of the defaults whose
property the style does not set, and its own, of each property the first. -/
def toBeMerged (style : String) (leading defaults : List String) : List Declaration :=
  let own := declarations style
  distinct (declarations ("; ".intercalate leading) ++
    (declarations ("; ".intercalate defaults)).filter
      (fun d => d.property ∉ own.map Declaration.property) ++ own)

theorem mergedDeclarations_eq (style : String) (leading defaults : List String) :
    mergedDeclarations style leading defaults = toBeMerged style leading defaults := by
  rw [mergedDeclarations, firstOfEach_eq, toBeMerged]
  congr 3
  refine List.filter_congr fun d _ => ?_
  rw [List.contains_eq_mem, decide_not]

/-- What is merged of a style and lists of declarations. -/
structure Merges (style : String) (leading defaults : List String) (merged : String) : Prop where
  sets : declarations merged = toBeMerged style leading defaults
  /-- A semicolon ends it if it sets anything and one ends the style, blanks apart. -/
  ends_iff : merged.toList.getLast? = some ';' ↔
    toBeMerged style leading defaults ≠ [] ∧ (stripEnd style).toList.getLast? = some ';'
  /-- Merging once more changes nothing. -/
  again : merge merged leading defaults = merged

/-- **What a merged style is**, of any style or none. -/
theorem merges_merge (style : Option String) (leading defaults : List String) :
    Merges (style.getD "") leading defaults (merge (style.getD "") leading defaults) where
  sets := by rw [declarations_merged, mergedDeclarations_eq]
  ends_iff := by rw [getLast?_merge, mergedDeclarations_eq, closed, beq_iff_eq, toList_stripEnd]
  again := merge_merge (style.getD "") leading defaults

end Style

end HtmlMend
