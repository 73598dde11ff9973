import HtmlMend.Markup.Token

/-! # Markup: names of elements and their roles

A cell has one of two names, and a role that one element plays is that of its name
(`ofName_eq_cell_iff`, `ofName_eq_iff`). -/

namespace HtmlMend.Markup.Element

theorem ofTagName?_eq_some_iff {name : String} {kind : CellKind} :
    CellKind.ofTagName? name = some kind ↔ name = kind.tagName := by
  unfold CellKind.ofTagName?
  cases kind with
  | data => grind [CellKind.tagName]
  | header => grind [CellKind.tagName]

theorem ne_of_mem_roles {e : String × Element} (mem : e ∈ roles) :
    e.2 ≠ .other ∧ ∀ kind, e.2 ≠ .cell kind := by
  revert mem
  revert e
  simp [roles]

/-- A name in the list is not that of a cell, and is in it once. -/
theorem ofName_of_mem_roles {name : String} {role : Element} (mem : (name, role) ∈ roles) :
    ofName name = role := by
  have each : ∀ e ∈ roles, ofName e.1 = e.2 := by decide
  exact each (name, role) mem

theorem mem_roles_of_ofName {name : String} {role : Element} (h : ofName name = role)
    (cell : ∀ kind, role ≠ .cell kind) (other : role ≠ .other) : (name, role) ∈ roles := by
  unfold ofName at h
  split at h
  · next kind _ => exact absurd h.symm (cell kind)
  · cases found : roles.lookup name with
    | none => exact absurd (by rw [← h, found]; rfl) other
    | some role' =>
      obtain rfl : role' = role := by rw [← h, found]; rfl
      obtain ⟨before, after, split, -⟩ := List.lookup_eq_some_iff.mp found
      rw [split]
      simp

/-- **A role that only one element plays is that of its name.** -/
theorem ofName_eq_iff {key : String} {role : Element} (mem : (key, role) ∈ roles)
    (single : ∀ e ∈ roles, e.2 = role → e.1 = key) {name : String} :
    ofName name = role ↔ name = key := by
  refine ⟨fun h => ?_, fun h => h ▸ ofName_of_mem_roles mem⟩
  obtain ⟨other, cell⟩ := ne_of_mem_roles mem
  exact single (name, role) (mem_roles_of_ofName h cell other) rfl

/-- **The role of a cell is that of its name.** -/
theorem ofName_eq_cell_iff {name : String} {kind : CellKind} :
    ofName name = .cell kind ↔ name = kind.tagName := by
  rw [← ofTagName?_eq_some_iff]
  unfold ofName
  cases found : CellKind.ofTagName? name with
  | some kind' => simp
  | none =>
    refine ⟨fun h => ?_, fun h => nomatch h⟩
    cases listed : roles.lookup name with
    | none => simp [listed] at h
    | some role =>
      obtain ⟨before, after, split, -⟩ := List.lookup_eq_some_iff.mp listed
      have mem : (name, role) ∈ roles := by
        rw [split]
        simp
      rw [listed, Option.getD_some] at h
      exact absurd h ((ne_of_mem_roles mem).2 kind)

variable {name : String}

theorem ofName_eq_html_iff : ofName name = .html ↔ name = "html" :=
  ofName_eq_iff (by decide) (by decide)

theorem ofName_eq_metadata_iff : ofName name = .metadata ↔ name = "meta" :=
  ofName_eq_iff (by decide) (by decide)

theorem ofName_eq_navigation_iff : ofName name = .navigation ↔ name = "nav" :=
  ofName_eq_iff (by decide) (by decide)

theorem ofName_eq_body_iff : ofName name = .body ↔ name = "body" :=
  ofName_eq_iff (by decide) (by decide)

theorem ofName_eq_main_iff : ofName name = .main ↔ name = "main" :=
  ofName_eq_iff (by decide) (by decide)

theorem ofName_eq_table_iff : ofName name = .table ↔ name = "table" :=
  ofName_eq_iff (by decide) (by decide)

theorem ofName_eq_row_iff : ofName name = .row ↔ name = "tr" :=
  ofName_eq_iff (by decide) (by decide)

theorem ofName_eq_rowGroup_iff : ofName name = .rowGroup ↔ name = "thead" ∨ name = "tbody" := by
  refine ⟨fun h => ?_, ?_⟩
  · have single : ∀ e ∈ roles, e.2 = .rowGroup → e.1 = "thead" ∨ e.1 = "tbody" := by decide
    exact single (name, .rowGroup) (mem_roles_of_ofName h (by simp) (by simp)) rfl
  · rintro (rfl | rfl) <;> decide

end HtmlMend.Markup.Element
