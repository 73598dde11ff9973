import HtmlMend.Proofs.Markup.Attribute
import HtmlMend.Proofs.Markup.References

/-! # Markup: what attributes mean

Of several attributes of one name the last decides (`attrs_get?_addAll`, `spans_get?_addAll`); the
place of its value is known if it has one. A text that begins with a comma and holds no references
may be put at the end of a value before or after its references are read (`decode_append`). -/

namespace HtmlMend

/-! ### Maps -/

namespace NameMap

variable {α : Type}

theorem lookup_map_set (name key : String) (value : α) : ∀ pairs : List (String × α),
    (pairs.map fun e => if e.1 = name then (name, value) else e).lookup key =
      if key = name then (pairs.lookup name).map (fun _ => value) else pairs.lookup key
  | [] => by simp
  | (other, old) :: rest => by
    have ih := lookup_map_set name key value rest
    rw [List.map_cons]
    by_cases here : other = name
    · subst here
      by_cases asked : key = other
      · simp [asked]
      · have apart : (key == other) = false := beq_eq_false_iff_ne.mpr asked
        simp [List.lookup_cons, apart, asked, ih]
    · rw [if_neg here, List.lookup_cons, List.lookup_cons, List.lookup_cons, ih]
      by_cases asked : key = name
      · subst asked
        have apart : (key == other) = false := beq_eq_false_iff_ne.mpr (Ne.symm here)
        simp [apart]
      · simp [asked]

theorem lookup_insertPairs (pairs : List (String × α)) (name key : String) (value : α) :
    (insertPairs pairs name value).lookup key =
      if key = name then some value else pairs.lookup key := by
  unfold insertPairs
  split
  · next mem =>
    have found : (pairs.lookup name).isSome = true := by
      rw [List.lookup_isSome_iff]
      simpa using mem
    obtain ⟨old, found⟩ := Option.isSome_iff_exists.mp found
    rw [lookup_map_set, found]
    rfl
  · next absent =>
    have none : pairs.lookup name = none := by
      rw [List.lookup_eq_none_iff]
      rintro ⟨other, old⟩ mem
      rw [bne_iff_ne]
      rintro rfl
      exact absent (by simpa using ⟨old, mem⟩)
    rw [List.lookup_append]
    by_cases asked : key = name
    · simp [asked, none]
    · have apart : (key == name) = false := beq_eq_false_iff_ne.mpr asked
      simp [List.lookup_cons, apart, asked]

theorem get?_insert (m : NameMap α) (name key : String) (value : α) :
    (m.insert name value).get? key = if key = name then some value else m.get? key :=
  lookup_insertPairs m.toList name key value

theorem get?_erase_of_ne (m : NameMap α) {name key : String} (h : key ≠ name) :
    (m.erase name).get? key = m.get? key := by
  change (m.toList.filter fun e => e.1 ≠ name).lookup key = m.toList.lookup key
  induction m.toList with
  | nil => rfl
  | cons e rest ih =>
    obtain ⟨other, value⟩ := e
    by_cases here : other = name
    · subst here
      have apart : (key == other) = false := beq_eq_false_iff_ne.mpr h
      rw [List.filter_cons_of_neg (by simp), ih, List.lookup_cons, apart]
    · rw [List.filter_cons_of_pos (by simpa using here), List.lookup_cons, List.lookup_cons, ih]

theorem toList_insert_of_not_mem {m : NameMap α} {name : String} (absent : name ∉ m.names)
    (value : α) : (m.insert name value).toList = m.toList ++ [(name, value)] :=
  if_neg (by simpa [names] using absent)

theorem mem_names_insert {m : NameMap α} {name key : String} {value : α} :
    key ∈ (m.insert name value).names ↔ key ∈ m.names ∨ key = name := by
  rw [names_insert]
  split
  · next mem => exact ⟨.inl, fun h => h.elim id fun e => e ▸ mem⟩
  · simp

theorem mem_names_ofList {name : String} (pairs : List (String × α)) :
    name ∈ (ofList pairs).names ↔ name ∈ pairs.map Prod.fst := by
  have insertAll : ∀ (pairs : List (String × α)) (m : NameMap α),
      name ∈ (pairs.foldl (fun m e => m.insert e.1 e.2) m).names ↔
        name ∈ m.names ∨ name ∈ pairs.map Prod.fst := by
    intro pairs
    induction pairs with
    | nil => simp
    | cons e rest ih =>
      intro m
      rw [List.foldl_cons, ih, mem_names_insert, List.map_cons, List.mem_cons, or_assoc]
  rw [ofList, insertAll]
  simp

theorem toList_ofList {pairs : List (String × α)} (nodup : (pairs.map Prod.fst).Nodup) :
    (ofList pairs).toList = pairs := by
  have insertAll : ∀ (pairs : List (String × α)) (m : NameMap α),
      (m.names ++ pairs.map Prod.fst).Nodup →
      (pairs.foldl (fun m e => m.insert e.1 e.2) m).toList = m.toList ++ pairs := by
    intro pairs
    induction pairs with
    | nil => simp
    | cons e rest ih =>
      intro m nodup
      rw [List.map_cons, ← List.singleton_append, ← List.append_assoc] at nodup
      have apart := (List.nodup_append.mp (List.nodup_append.mp nodup).1).2.2
      have fresh : e.1 ∉ m.names := fun mem => apart e.1 mem e.1 (by simp) rfl
      rw [List.foldl_cons, ih, toList_insert_of_not_mem fresh, List.append_assoc]
      · rfl
      · rwa [names_insert, if_neg fresh]
  rw [ofList, insertAll pairs empty nodup]
  rfl

end NameMap

namespace Markup

/-! ### Lookups -/

/-- The value of the attribute that is meant; an attribute may have none. -/
def WrittenAttribute.meaning (a : WrittenAttribute) : Option String :=
  a.value.map WrittenValue.meaning

/-- The names of attributes. -/
def keys (as : List WrittenAttribute) : List String := as.map WrittenAttribute.key

namespace OpenTag

variable {key : String}

theorem attrs_addWritten (tag : OpenTag) (offset : Nat) (a : WrittenAttribute) :
    (tag.addWritten offset a).attrs = tag.attrs.insert a.key a.meaning := by
  unfold addWritten WrittenAttribute.meaning
  cases a.value <;> rfl

/-- The meaning of a name before attributes decides what it means after them, if anything does. -/
theorem attrs_get?_congr : ∀ (as : List WrittenAttribute) {tag tag' : OpenTag}
    (offset offset' : Nat), tag.attrs.get? key = tag'.attrs.get? key →
    (tag.addAll offset as).attrs.get? key = (tag'.addAll offset' as).attrs.get? key
  | [], _, _, _, _, h => h
  | a :: as, tag, tag', offset, offset', h => by
    refine attrs_get?_congr as _ _ ?_
    rw [attrs_addWritten, attrs_addWritten, NameMap.get?_insert, NameMap.get?_insert, h]

theorem attrs_get?_addAll_of_not_mem : ∀ {as : List WrittenAttribute} (tag : OpenTag)
    (offset : Nat), key ∉ keys as → (tag.addAll offset as).attrs.get? key = tag.attrs.get? key
  | [], _, _, _ => rfl
  | a :: as, tag, offset, absent => by
    rw [keys, List.map_cons, List.mem_cons, not_or] at absent
    rw [addAll, attrs_get?_addAll_of_not_mem _ _ absent.2, attrs_addWritten, NameMap.get?_insert,
      if_neg absent.1]

theorem spans_get?_addAll_of_not_mem : ∀ {as : List WrittenAttribute} (tag : OpenTag)
    (offset : Nat), key ∉ keys as → (tag.addAll offset as).spans.get? key = tag.spans.get? key
  | [], _, _, _ => rfl
  | a :: as, tag, offset, absent => by
    rw [keys, List.map_cons, List.mem_cons, not_or] at absent
    rw [addAll, spans_get?_addAll_of_not_mem _ _ absent.2, addWritten]
    split
    · exact NameMap.get?_erase_of_ne _ absent.1
    · rw [addValue, NameMap.get?_insert, if_neg absent.1]

/-- **The last attribute of a name decides** what the name means. -/
theorem attrs_get?_addAll (tag : OpenTag) (offset : Nat) {as bs : List WrittenAttribute}
    {a : WrittenAttribute} (last : a.key ∉ keys bs) :
    (tag.addAll offset (as ++ a :: bs)).attrs.get? a.key = some a.meaning := by
  rw [addAll_append, addAll, attrs_get?_addAll_of_not_mem _ _ last, attrs_addWritten,
    NameMap.get?_insert, if_pos rfl]

/-- **The last attribute of a name decides** where the value of the name is. -/
theorem spans_get?_addAll (tag : OpenTag) (offset : Nat) {as bs : List WrittenAttribute}
    {a : WrittenAttribute} {v : WrittenValue} (value : a.value = some v) (last : a.key ∉ keys bs) :
    (tag.addAll offset (as ++ a :: bs)).spans.get? a.key =
      some (v.span (a.nameStop (offset + (attributesRaw as).length))) := by
  rw [addAll_append, addAll, spans_get?_addAll_of_not_mem _ _ last, addWritten, value]
  exact (NameMap.get?_insert ..).trans (if_pos rfl)

theorem mem_names_addAll : ∀ (as : List WrittenAttribute) (tag : OpenTag) (offset : Nat),
    key ∈ (tag.addAll offset as).attrs.names ↔ key ∈ tag.attrs.names ∨ key ∈ keys as
  | [], _, _ => by simp [addAll, keys]
  | a :: as, tag, offset => by
    rw [addAll, mem_names_addAll as, attrs_addWritten, NameMap.mem_names_insert, keys, keys,
      List.map_cons, List.mem_cons, or_assoc]

end OpenTag

theorem exists_last {key : String} : ∀ {as : List WrittenAttribute}, key ∈ keys as →
    ∃ before a after, as = before ++ a :: after ∧ a.key = key ∧ key ∉ keys after
  | [], mem => by cases mem
  | a :: as, mem => by
    by_cases later : key ∈ keys as
    · obtain ⟨before, b, after, rfl, last⟩ := exists_last later
      exact ⟨a :: before, b, after, rfl, last⟩
    · refine ⟨[], a, as, rfl, ?_, later⟩
      rcases List.mem_cons.mp mem with rfl | mem
      · rfl
      · exact absurd mem later

/-! ### References -/

/-- A comma is in no reference, so that none goes beyond it. -/
theorem decode_append (cs more : List Char) :
    (decode (String.ofList (cs ++ ',' :: more))).toList =
      (decode (String.ofList cs)).toList ++ ',' :: (decode (String.ofList more)).toList := by
  have apart : StartsApart (',' :: more) := by
    rintro _ ⟨⟩
    decide
  simp only [toList_decode, String.toList_ofList]
  rw [readReferences_append apart, readReferences_cons_of_ne (by decide)]

end Markup

end HtmlMend
