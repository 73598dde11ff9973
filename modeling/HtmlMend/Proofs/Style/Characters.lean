import HtmlMend.Markup.Written

/-! # Inline styles: the characters of a merged style

A declaration is a part of the style that it is read from. So all characters of a merged style are
those of the style and of the declarations merged into it, less semicolons and spaces
(`mem_merge`). -/

namespace HtmlMend

namespace Text

theorem mem_of_mem_splitChars {sep c : Char} : ∀ {cs field : List Char},
    field ∈ splitChars sep cs → c ∈ field → c ∈ cs
  | [], field, mem, inside => by
    rw [splitChars, List.mem_singleton] at mem
    rwa [mem] at inside
  | d :: ds, field, mem, inside => by
    rw [splitChars] at mem
    split at mem
    · rcases List.mem_cons.mp mem with rfl | mem
      · cases inside
      · exact List.mem_cons_of_mem d (mem_of_mem_splitChars mem inside)
    cases fields : splitChars sep ds with
    | nil => exact absurd fields (splitChars_ne_nil sep ds)
    | cons first rest =>
      rw [fields] at mem
      rcases List.mem_cons.mp mem with rfl | mem
      · rcases List.mem_cons.mp inside with rfl | inside
        · exact List.mem_cons_self
        · exact List.mem_cons_of_mem d (mem_of_mem_splitChars (by rw [fields]; simp) inside)
      · exact List.mem_cons_of_mem d (mem_of_mem_splitChars (by rw [fields]; simp [mem]) inside)

theorem mem_of_mem_stripChars {c : Char} {cs : List Char} (mem : c ∈ stripChars cs) : c ∈ cs := by
  rw [stripChars, stripEndChars, List.mem_reverse] at mem
  have inside := (List.dropWhile_suffix _).subset mem
  exact (List.dropWhile_suffix _).subset (List.mem_reverse.mp inside)

theorem mem_of_mem_intercalate {sep : List Char} {c : Char} : ∀ {texts : List (List Char)},
    c ∈ sep.intercalate texts → c ∈ sep ∨ ∃ text ∈ texts, c ∈ text
  | [], mem => by simp at mem
  | [text], mem => .inr ⟨text, by simp, by simpa using mem⟩
  | text :: next :: rest, mem => by
    rw [List.intercalate_cons_cons, List.append_assoc, List.mem_append, List.mem_append] at mem
    rcases mem with here | between | later
    · exact .inr ⟨text, by simp, here⟩
    · exact .inl between
    · refine (mem_of_mem_intercalate later).imp_right ?_
      rintro ⟨other, mem, inside⟩
      exact ⟨other, List.mem_cons_of_mem text mem, inside⟩

/-- What texts are put together with is in one of them, or stands between them. -/
theorem mem_of_mem_toList_intercalate {sep : String} {texts : List String} {c : Char}
    (mem : c ∈ (sep.intercalate texts).toList) :
    c ∈ sep.toList ∨ ∃ text ∈ texts, c ∈ text.toList := by
  rw [String.toList_intercalate] at mem
  refine (mem_of_mem_intercalate mem).imp_right ?_
  rintro ⟨_, isText, inside⟩
  obtain ⟨text, mem, rfl⟩ := List.mem_map.mp isText
  exact ⟨text, mem, inside⟩

end Text

namespace Style

variable {c : Char} {style : String}

theorem mem_of_mem_declarations {d : Declaration} (mem : d ∈ declarations style)
    (inside : c ∈ d.text.toList) : c ∈ style.toList := by
  obtain ⟨field, isField, read⟩ := List.mem_filterMap.mp mem
  obtain ⟨cs, split, rfl⟩ := List.mem_map.mp isField
  unfold readField at read
  dsimp only at read
  split at read
  · cases read
  · obtain rfl := Option.some.inj read
    rw [Text.toList_strip, String.toList_ofList] at inside
    exact Text.mem_of_mem_splitChars split (Text.mem_of_mem_stripChars inside)

theorem mem_of_mem_firstOfEach {d : Declaration} : ∀ {ds : List Declaration} {seen : List String},
    d ∈ firstOfEach seen ds → d ∈ ds
  | [], _, mem => mem
  | e :: ds, seen, mem => by
    rw [firstOfEach] at mem
    split at mem
    · exact List.mem_cons_of_mem e (mem_of_mem_firstOfEach mem)
    · rcases List.mem_cons.mp mem with rfl | mem
      · exact List.mem_cons_self
      · exact List.mem_cons_of_mem e (mem_of_mem_firstOfEach mem)

theorem mem_of_mem_mergedDeclarations {d : Declaration} {leading defaults : List String}
    (mem : d ∈ mergedDeclarations style leading defaults) :
    d ∈ declarations ("; ".intercalate leading) ∨ d ∈ declarations ("; ".intercalate defaults) ∨
      d ∈ declarations style := by
  have among := mem_of_mem_firstOfEach mem
  rw [List.mem_append, List.mem_append, List.mem_filter] at among
  rcases among with (lead | ⟨missing, -⟩) | existing
  · exact .inl lead
  · exact .inr (.inl missing)
  · exact .inr (.inr existing)

/-- **The characters of a merged style** are those of the style, of what is merged into it, and
those that separate declarations. -/
theorem mem_merge {leading defaults : List String}
    (mem : c ∈ (merge style leading defaults).toList) :
    c ∈ style.toList ∨ (∃ text ∈ leading ++ defaults, c ∈ text.toList) ∨ c = ';' ∨ c = ' ' := by
  have separator (inside : c ∈ "; ".toList) : c = ';' ∨ c = ' ' := by simpa using inside
  -- Declarations are parts of a style or of texts that are put together.
  have joined {texts : List String} {d : Declaration}
      (mem : d ∈ declarations ("; ".intercalate texts)) (inside : c ∈ d.text.toList) :
      (∃ text ∈ texts, c ∈ text.toList) ∨ c = ';' ∨ c = ' ' :=
    (Text.mem_of_mem_toList_intercalate (mem_of_mem_declarations mem inside)).elim
      (fun between => .inr (separator between)) .inl
  rw [merge, String.toList_append, List.mem_append] at mem
  rcases mem with mem | closing
  · rcases Text.mem_of_mem_toList_intercalate mem with between | ⟨text, isText, inside⟩
    · exact .inr (.inr (separator between))
    obtain ⟨d, isMerged, rfl⟩ := List.mem_map.mp isText
    rcases mem_of_mem_mergedDeclarations isMerged with lead | missing | existing
    · refine .inr ((joined lead inside).imp_left ?_)
      rintro ⟨text, mem, inside⟩
      exact ⟨text, List.mem_append_left defaults mem, inside⟩
    · refine .inr ((joined missing inside).imp_left ?_)
      rintro ⟨text, mem, inside⟩
      exact ⟨text, List.mem_append_right leading mem, inside⟩
    · exact .inl (mem_of_mem_declarations existing inside)
  · split at closing
    · exact .inr (.inr (.inl (by simpa using closing)))
    · simp at closing

end Style

end HtmlMend
