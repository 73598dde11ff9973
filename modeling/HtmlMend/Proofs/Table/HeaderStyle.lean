import HtmlMend.Proofs.Style.Merging
import HtmlMend.Proofs.Style.Spacing
import HtmlMend.Table

/-! # Tables: the style of a row header

A row header takes the style of its data cell over as it is written, of each property the first
declaration, and none of the property that it sets itself (`takenOver`). So its style is its own
declarations and what is added by a style that has no others than those (`toList_headerStyle`).

What the style of a row header says is what is merged into what the data cell's says, if no
declaration ends with an unfinished reference. Of a style from which the same declarations are taken
over before and after it is read, that holds just if one space or nothing comes after each
reference, and the alignment of texts is set before and after or neither (`decode_headerStyle`). -/

namespace HtmlMend.Table

open Markup Style

/-- The style of a row header whose data cell has a style. -/
def headerStyle (style : String) : String := merge style headerLeading headerDefaults

/-- The declaration that a row header begins with. -/
def headerWeight : Declaration := ⟨"font-weight", "font-weight: normal"⟩

/-- The declaration that a row header has unless its style sets the property. -/
def headerAlignment : Declaration := ⟨"text-align", "text-align: left"⟩

/-- The declarations that a row header takes over from a style: of each property the first, and none
of the one that it begins with. -/
def takenOver (style : String) : List Declaration :=
  firstOfEach [headerWeight.property] (declarations style)

/-- A style sets how texts are aligned. -/
def SetsAlignment (style : String) : Prop :=
  headerAlignment.property ∈ (declarations style).map Declaration.property

instance (style : String) : Decidable (SetsAlignment style) := inferInstanceAs (Decidable (_ ∈ _))

/-- The declarations that a row header has of its own. -/
def headerFront (style : String) : List Declaration :=
  headerWeight :: if SetsAlignment style then [] else [headerAlignment]

/-- What is left of a style without the declarations that a row header does not take over. -/
structure Keeps (style kept : String) : Prop where
  declarations_eq : declarations kept = takenOver style
  closed_eq : closed kept.toList = closed style.toList

theorem keeps_iff {style kept : String} : Keeps style kept ↔
    declarations kept = takenOver style ∧ closed kept.toList = closed style.toList :=
  ⟨fun h => ⟨h.declarations_eq, h.closed_eq⟩, fun h => ⟨h.1, h.2⟩⟩

instance (style kept : String) : Decidable (Keeps style kept) := decidable_of_iff _ keeps_iff.symm

/-- A style sets no property twice, and not the one that a row header sets itself. -/
def IsOwn (style : String) : Prop :=
  (headerWeight.property :: (declarations style).map Declaration.property).Nodup

instance (style : String) : Decidable (IsOwn style) := inferInstanceAs (Decidable (List.Nodup _))

/-! ### The declarations of a row header -/

variable {style kept : String}

theorem keeps_self (own : IsOwn style) : Keeps style style where
  declarations_eq := by
    obtain ⟨fresh, nodup⟩ := List.nodup_cons.mp own
    refine (firstOfEach_of_nodup nodup fun d mem => ?_).symm
    rw [List.mem_singleton]
    exact fun same => fresh (same ▸ List.mem_map_of_mem mem)
  closed_eq := rfl

theorem declarations_header :
    declarations ("; ".intercalate headerLeading) = [headerWeight] ∧
      declarations ("; ".intercalate headerDefaults) = [headerAlignment] := by
  decide +kernel

theorem firstOfEach_cons_of_unset {property : String} {ds : List Declaration} {seen : List String}
    (unset : property ∉ ds.map Declaration.property) :
    firstOfEach (property :: seen) ds = firstOfEach seen ds := by
  rw [firstOfEach_eq_filter, firstOfEach_eq_filter]
  refine congrArg distinct (List.filter_congr fun d mem => ?_)
  have ne : d.property ≠ property := fun same => unset (same ▸ List.mem_map_of_mem mem)
  simp [ne]

theorem mergedDeclarations_header (style : String) :
    mergedDeclarations style headerLeading headerDefaults =
      headerFront style ++ takenOver style := by
  obtain ⟨leading, defaults⟩ := declarations_header
  have known : ((declarations style).map Declaration.property).contains headerAlignment.property =
      decide (SetsAlignment style) := List.contains_eq_mem _ _
  rw [mergedDeclarations, leading, defaults, headerFront]
  by_cases sets : SetsAlignment style
  · rw [if_pos sets, List.filter_cons_of_neg (by rw [known]; simp [sets])]
    rfl
  · rw [if_neg sets, List.filter_cons_of_pos (by rw [known]; simp [sets]), takenOver,
      ← firstOfEach_cons_of_unset sets]
    rfl

/-- **The style of a row header** is its own declarations, and what is added by what it keeps of the
style of its data cell. -/
theorem toList_headerStyle (keeps : Keeps style kept) :
    (headerStyle style).toList = joined (headerFront style) ++ added kept.toList := by
  have front : (headerFront style).map (·.text.toList) ≠ [] := by simp [headerFront]
  have merged : mergedDeclarations style headerLeading headerDefaults ≠ [] := by
    simp [mergedDeclarations_header, headerFront]
  rw [headerStyle, toList_merge, if_congr (and_iff_right merged) rfl rfl, mergedDeclarations_header,
    joined, List.map_append, intercalate_append _ front, ← keeps.declarations_eq,
    map_text_declarations, ← keeps.closed_eq, added, joined, List.append_assoc]
  rfl

theorem ampersand_not_mem_joined_headerFront (style : String) :
    '&' ∉ joined (headerFront style) := by
  rw [headerFront]
  split <;> decide

/-! ### Reading the style of a row header -/

/-- Where the row header has the same declarations of its own. -/
theorem decode_headerStyle_iff_spaced (keeps : Keeps style kept)
    (keeps' : Keeps (decode style) (decode kept))
    (alike : SetsAlignment style ↔ SetsAlignment (decode style)) :
    decode (headerStyle style) = headerStyle (decode style) ↔ Spaced kept.toList := by
  have front : headerFront (decode style) = headerFront style := by
    rw [headerFront, headerFront, if_congr alike rfl rfl]
  rw [← readReferences_added_iff, ← String.toList_inj, toList_decode, toList_headerStyle keeps,
    toList_headerStyle keeps', front,
    readReferences_append_of_ampersand (ampersand_not_mem_joined_headerFront style), toList_decode,
    List.append_cancel_left_eq]

theorem char_not_mem_own (r : Reference) :
    ∀ text ∈ [headerWeight.text.toList, headerAlignment.text.toList], r.char ∉ text := by
  cases r <;> decide

theorem setsAlignment_of_prefix (keeps : Keeps style kept)
    (begins : [headerAlignment.text.toList] <+: texts kept.toList) : SetsAlignment style := by
  have isText := begins.subset (List.mem_singleton_self headerAlignment.text.toList)
  rw [← map_text_declarations] at isText
  obtain ⟨d, mem, text⟩ := List.mem_map.mp isText
  have property : d.property = headerAlignment.property := by
    have read := (isRead_of_mem_declarations mem).read
    have left : readField headerAlignment.text = some headerAlignment := by decide +kernel
    rw [String.toList_inj.mp text, left] at read
    rw [← Option.some.inj read]
  rw [keeps.declarations_eq] at mem
  exact List.mem_map.mpr ⟨d, mem_of_mem_firstOfEach mem, property⟩

/-- Whether the style of a row header begins with both declarations of its own. -/
theorem prefix_texts_headerStyle_iff (keeps : Keeps style kept) :
    [headerWeight.text.toList, headerAlignment.text.toList] <+: texts (headerStyle style).toList ↔
      (SetsAlignment style → [headerAlignment.text.toList] <+: texts kept.toList) := by
  rw [← map_text_declarations, headerStyle, declarations_merged, mergedDeclarations_header,
    ← keeps.declarations_eq, List.map_append, map_text_declarations, headerFront]
  split
  · next sets => simp [sets]
  · next sets => simp [sets]

/-- Only so does a row header set the alignment itself before and after its style is read. -/
theorem setsAlignment_iff_of_decode (keeps : Keeps style kept)
    (keeps' : Keeps (decode style) (decode kept))
    (same : decode (headerStyle style) = headerStyle (decode style)) :
    SetsAlignment style ↔ SetsAlignment (decode style) := by
  have header := prefix_texts_readReferences_iff (headerStyle style).toList
    fun text mem r => char_not_mem_own r text mem
  have part := prefix_texts_readReferences_iff kept.toList
    fun text mem r => char_not_mem_own r text (List.mem_cons_of_mem _ mem)
  rw [← toList_decode, same, prefix_texts_headerStyle_iff keeps, prefix_texts_headerStyle_iff keeps',
    toList_decode, part] at header
  have sets := setsAlignment_of_prefix keeps
  have sets' := setsAlignment_of_prefix keeps'
  rw [toList_decode, part] at sets'
  constructor
  · intro set
    by_contra unset
    exact unset (sets' (header.mp (fun set' => absurd set' unset) set))
  · intro set'
    by_contra unset
    exact unset (sets (header.mpr (fun set => absurd set unset) set'))

/-- A style without references is the same before and after they are read, and so is that of the row
header. -/
theorem decode_headerStyle_of_endsPlain
    (plain : ∀ d ∈ declarations style, EndsPlain d.text.toList) :
    decode (headerStyle style) = headerStyle (decode style) := by
  have same : decode style = style := by
    rw [decode_eq, readReferences_of_texts, String.ofList_toList]
    rw [← map_text_declarations]
    exact fun text isText => by
      obtain ⟨d, mem, rfl⟩ := List.mem_map.mp isText
      exact plain d mem
  rw [same, headerStyle, decode_eq, readReferences_merge, String.ofList_toList]
  obtain ⟨leading, defaults⟩ := declarations_header
  intro d mem
  rcases mem_of_mem_mergedDeclarations mem with mem | mem | mem
  · rw [leading, List.mem_singleton] at mem
    subst mem
    decide
  · rw [defaults, List.mem_singleton] at mem
    subst mem
    decide
  · exact plain d mem

theorem decode_headerStyle_iff (keeps : Keeps style kept)
    (keeps' : Keeps (decode style) (decode kept)) :
    decode (headerStyle style) = headerStyle (decode style) ↔
      Spaced kept.toList ∧ (SetsAlignment style ↔ SetsAlignment (decode style)) := by
  constructor
  · intro same
    have alike := setsAlignment_iff_of_decode keeps keeps' same
    exact ⟨(decode_headerStyle_iff_spaced keeps keeps' alike).mp same, alike⟩
  · rintro ⟨spaced, alike⟩
    exact (decode_headerStyle_iff_spaced keeps keeps' alike).mpr spaced

/-- **What the style of a row header says** is what is merged into what the data cell's style says.
That holds of a style with no declaration that ends with the stem of a reference. Of one that sets
no property twice, nor that of a row header, it holds just if one space, or nothing, comes after
each reference, and the alignment of texts is set before and after the references are read, or
neither time. Of any other style it holds just if that is so of what is kept of it, as long as that,
read, is what is kept of the style that is read. -/
theorem decode_headerStyle (style : String) :
    ((∀ d ∈ declarations style, EndsPlain d.text.toList) →
      decode (headerStyle style) = headerStyle (decode style)) ∧
    (IsOwn style → IsOwn (decode style) →
      (decode (headerStyle style) = headerStyle (decode style) ↔
        Spaced style.toList ∧ (SetsAlignment style ↔ SetsAlignment (decode style)))) ∧
    ∀ kept, Keeps style kept → Keeps (decode style) (decode kept) →
      (decode (headerStyle style) = headerStyle (decode style) ↔
        Spaced kept.toList ∧ (SetsAlignment style ↔ SetsAlignment (decode style))) :=
  ⟨decode_headerStyle_of_endsPlain,
    fun own own' => decode_headerStyle_iff (keeps_self own) (keeps_self own'),
    fun _ => decode_headerStyle_iff⟩

/-- A style that repeats a property and has no semicolon after a stem; one that sets the alignment
and has a space after its reference; and one of which a row header takes one declaration over. -/
theorem decode_headerStyle_content :
    let plain := "x: '&lt'; x: b"
    let own := "text-align: right; x: a &lt; b;"
    let style := "font-weight: bold; x: a &lt; b; x: c"
    let kept := "x: a &lt; b"
    ((∀ d ∈ declarations plain, EndsPlain d.text.toList) ∧ (IsOwn own ∧ IsOwn (decode own)) ∧
      Keeps style kept ∧ Keeps (decode style) (decode kept)) ∧
    decode (headerStyle plain) = headerStyle (decode plain) ∧
    (decode (headerStyle own) = headerStyle (decode own) ↔
      Spaced own.toList ∧ (SetsAlignment own ↔ SetsAlignment (decode own))) ∧
    (decode (headerStyle style) = headerStyle (decode style) ↔
      Spaced kept.toList ∧ (SetsAlignment style ↔ SetsAlignment (decode style))) := by
  intro plain own style kept
  have ends : ∀ d ∈ declarations plain, EndsPlain d.text.toList := by decide +kernel
  have isOwn : IsOwn own := by decide +kernel
  have isOwn' : IsOwn (decode own) := by decide +kernel
  have keeps : Keeps style kept := by decide +kernel
  have keeps' : Keeps (decode style) (decode kept) := by decide +kernel
  exact ⟨⟨ends, ⟨isOwn, isOwn'⟩, keeps, keeps'⟩, (decode_headerStyle plain).1 ends,
    (decode_headerStyle own).2.1 isOwn isOwn', (decode_headerStyle style).2.2 kept keeps keeps'⟩

/-- A style with a reference in the middle of a word. -/
theorem decode_headerStyle_ne :
    decode (headerStyle "color&lt;red") ≠ headerStyle (decode "color&lt;red") := by decide +kernel

end HtmlMend.Table
