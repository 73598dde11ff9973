/-! # Maps of names in order

A map from names to values that keeps the order in which the names came. A name that comes again
keeps its place and takes the new value. No name occurs twice, so a map is determined by its list
of pairs. -/

namespace HtmlMend

/-- A map from names to values, in the order in which the names first came. -/
structure NameMap (α : Type) where
  /-- The pairs in order. -/
  toList : List (String × α) := []
  nodup : (toList.map Prod.fst).Nodup := by simp
deriving DecidableEq

namespace NameMap

variable {α β : Type}

theorem ext {m n : NameMap α} (h : m.toList = n.toList) : m = n := by
  cases m; cases n; cases h; rfl

/-- The empty map. -/
def empty : NameMap α := {}

instance : Inhabited (NameMap α) := ⟨empty⟩

/-- The names in order. -/
def names (m : NameMap α) : List String := m.toList.map Prod.fst

/-- Whether a name is in the map. -/
def contains (m : NameMap α) (name : String) : Bool := m.names.contains name

/-- The value of a name. -/
def get? (m : NameMap α) (name : String) : Option α := m.toList.lookup name

/-- Each value replaced by one computed from its name and itself. -/
def mapWithName (m : NameMap α) (f : String → α → β) : NameMap β where
  toList := m.toList.map fun e => (e.1, f e.1 e.2)
  nodup := by simpa [Function.comp_def] using m.nodup

/-- The pairs after a name has got a value: in its place, or at the end. -/
def insertPairs (pairs : List (String × α)) (name : String) (value : α) : List (String × α) :=
  if (pairs.map Prod.fst).contains name then
    pairs.map fun e => if e.1 = name then (name, value) else e
  else pairs ++ [(name, value)]

theorem insertPairs_names (pairs : List (String × α)) (name : String) (value : α) :
    (insertPairs pairs name value).map Prod.fst =
      if name ∈ pairs.map Prod.fst then pairs.map Prod.fst else pairs.map Prod.fst ++ [name] := by
  unfold insertPairs
  by_cases h : name ∈ pairs.map Prod.fst
  · rw [if_pos h, if_pos (by simpa using h), List.map_map]
    apply List.map_congr_left
    intro e _
    by_cases he : e.1 = name <;> simp [he]
  · rw [if_neg h, if_neg (by simpa using h)]
    simp

/-- The map with a value for a name. -/
def insert (m : NameMap α) (name : String) (value : α) : NameMap α where
  toList := insertPairs m.toList name value
  nodup := by
    rw [insertPairs_names]
    split
    · exact m.nodup
    · next h =>
      rw [List.nodup_append]
      exact ⟨m.nodup, by simp, fun a ha b hb hab => h (by simp_all)⟩

/-- The map without a name. -/
def erase (m : NameMap α) (name : String) : NameMap α where
  toList := m.toList.filter fun e => e.1 ≠ name
  nodup := m.nodup.sublist (List.filter_sublist.map _)

/-- The map of a list of pairs, of which the last with a name decides. -/
def ofList (pairs : List (String × α)) : NameMap α :=
  pairs.foldl (fun m e => m.insert e.1 e.2) empty

theorem names_insert (m : NameMap α) (name : String) (value : α) :
    (m.insert name value).names = if name ∈ m.names then m.names else m.names ++ [name] :=
  insertPairs_names m.toList name value

@[simp] theorem names_empty : (empty : NameMap α).names = [] := rfl

@[simp] theorem names_mapWithName (m : NameMap α) (f : String → α → β) :
    (m.mapWithName f).names = m.names := by
  simp [names, mapWithName, Function.comp_def]

@[simp] theorem contains_iff (m : NameMap α) (name : String) :
    m.contains name = true ↔ name ∈ m.names := by
  simp [contains]

end NameMap

end HtmlMend
