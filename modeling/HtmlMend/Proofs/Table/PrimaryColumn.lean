import HtmlMend.Proofs.Table.Operations

/-! # Tables: the choice of the primary column

The columns are looked at one after another, and the best so far gives way to one with more texts,
and to the column of names if that has as many. So the best is not the greatest in an order: the
column of names may take the place of an earlier one and lose it again. `IsBest` says which of the
columns so far is kept, and `choosesPrimary_after` which one that is in the end. -/

namespace HtmlMend.Table

/-! ### The best of some columns -/

/-- Among columns with these numbers of texts, the best and its number: it has the most, it is the
column of names if that has the most, and the first that has the most if that has not. -/
structure IsBest (names : Option Nat) (counts : List Nat) (best : Nat × Nat) : Prop where
  count : counts[best.1]? = some best.2
  most : ∀ i c : Nat, counts[i]? = some c → c ≤ best.2
  named : ∀ n : Nat, names = some n → counts[n]? = some best.2 → best.1 = n
  first : (∀ n : Nat, names = some n → counts[n]? ≠ some best.2) →
    ∀ i : Nat, counts[i]? = some best.2 → best.1 ≤ i

section Counts
variable {names : Option Nat} {counts : List Nat}

theorem getElem?_snoc {count i c : Nat} :
    (counts ++ [count])[i]? = some c ↔ counts[i]? = some c ∨ i = counts.length ∧ c = count := by
  rcases Nat.lt_trichotomy i counts.length with old | rfl | beyond
  · have : i ≠ counts.length := by omega
    simp [List.getElem?_append_left old, this]
  · simp [eq_comm]
  · have : i ≠ counts.length := by omega
    have none : (counts ++ [count])[i]? = none := by
      rw [List.getElem?_eq_none (by simp; omega)]
    simp [none, List.getElem?_eq_none (show counts.length ≤ i by omega), this]

theorem isBest_singleton (count : Nat) : IsBest names [count] (0, count) := by
  have only : ∀ {i c : Nat}, [count][i]? = some c → i = 0 ∧ c = count := fun {i c} at_ => by
    have split := (@getElem?_snoc [] count i c).mp at_
    simpa using split
  refine ⟨rfl, fun i c at_ => ?_, fun n _ at_ => (only at_).1.symm, fun _ i _ => Nat.zero_le i⟩
  have := (only at_).2
  omega

/-- One more column, which wins: it has more texts than the best, or as many and it is the column of
names. -/
theorem IsBest.snoc_of_wins {best : Nat × Nat} (h : IsBest names counts best) {count : Nat}
    (wins : best.2 < count ∨ (count = best.2 ∧ names = some counts.length)) :
    IsBest names (counts ++ [count]) (counts.length, count) := by
  have last : (counts ++ [count])[counts.length]? = some count :=
    getElem?_snoc.mpr (.inr ⟨rfl, rfl⟩)
  refine ⟨last, fun i c at_ => ?_, fun n isNames at_ => ?_, fun noNames i at_ => ?_⟩
  · rcases getElem?_snoc.mp at_ with old | ⟨-, rfl⟩
    · have : c ≤ best.2 := h.most i c old
      show c ≤ count
      omega
    · exact Nat.le_refl _
  · rcases getElem?_snoc.mp at_ with old | ⟨here, -⟩
    · -- An earlier column has no more than the best so far, so the last one wins by its name.
      have : count ≤ best.2 := h.most n count old
      rcases wins with more | ⟨-, isLast⟩
      · omega
      · exact Option.some.inj (isLast.symm.trans isNames)
    · exact here.symm
  · rcases getElem?_snoc.mp at_ with old | ⟨here, -⟩
    · have : count ≤ best.2 := h.most i count old
      rcases wins with more | ⟨-, isLast⟩
      · omega
      · exact absurd last (noNames _ isLast)
    · exact Nat.le_of_eq here.symm

/-- One more column, which does not win. -/
theorem IsBest.snoc_of_loses {best : Nat × Nat} (h : IsBest names counts best) {count : Nat}
    (loses : ¬(best.2 < count ∨ (count = best.2 ∧ names = some counts.length))) :
    IsBest names (counts ++ [count]) best := by
  refine ⟨getElem?_snoc.mpr (.inl h.count), fun i c at_ => ?_, fun n isNames at_ => ?_,
    fun noNames i at_ => ?_⟩
  · rcases getElem?_snoc.mp at_ with old | ⟨-, rfl⟩
    · exact h.most i c old
    · omega
  · rcases getElem?_snoc.mp at_ with old | ⟨rfl, same⟩
    · exact h.named n isNames old
    · exact absurd (.inr ⟨same.symm, isNames⟩) loses
  · rcases getElem?_snoc.mp at_ with old | ⟨here, -⟩
    · exact h.first (fun n isNames had => noNames n isNames (getElem?_snoc.mpr (.inl had))) i old
    · have : best.1 < counts.length := (List.getElem?_eq_some_iff.mp h.count).1
      omega

theorem IsBest.better {best : Nat × Nat} (h : IsBest names counts best) (count : Nat) :
    ∃ new, betterColumn names (some best) (counts.length, count) = some new ∧
      IsBest names (counts ++ [count]) new := by
  by_cases wins : best.2 < count ∨ (count = best.2 ∧ names = some counts.length)
  · exact ⟨(counts.length, count), if_pos wins, h.snoc_of_wins wins⟩
  · exact ⟨best, if_neg wins, h.snoc_of_loses wins⟩

theorem IsBest.foldl : ∀ (columns : List (List String)) {counts : List Nat} {best : Nat × Nat},
    IsBest names counts best → ∃ last,
      ((columns.zipIdx counts.length).map fun e => (e.2, e.1.length)).foldl (betterColumn names)
        (some best) = some last ∧ IsBest names (counts ++ columns.map List.length) last
  | [], _, best, h => ⟨best, rfl, by simpa using h⟩
  | texts :: rest, counts, _, h => by
    obtain ⟨new, chosen, isBest⟩ := h.better texts.length
    obtain ⟨last, ends, isLast⟩ := isBest.foldl rest
    refine ⟨last, ?_, by simpa using isLast⟩
    rw [List.length_append, List.length_singleton] at ends
    rw [List.zipIdx_cons, List.map_cons, List.foldl_cons, chosen, ends]

end Counts

theorem primaryColumn_isBest (t : Table) : t.columns = [] ∧ t.primaryColumn = none ∨
    ∃ column most, t.primaryColumn = some column ∧
      IsBest t.nameColumn (t.columns.map List.length) (column, most) := by
  unfold primaryColumn
  cases t.columns with
  | nil => exact .inl ⟨rfl, rfl⟩
  | cons texts rest =>
    obtain ⟨⟨column, most⟩, ends, isBest⟩ := (isBest_singleton texts.length).foldl rest
    refine .inr ⟨column, most, ?_, isBest⟩
    exact congrArg (Option.map Prod.fst) ends

/-! ### The fullest columns -/

/-- The number of distinct texts in a column. -/
def distinctCount (t : Table) (column : Nat) : Nat :=
  (t.columns[column]?.getD []).eraseDups.length

/-- A column has the most distinct texts. -/
def IsFullest (t : Table) (column : Nat) : Prop :=
  column < t.columns.length ∧
    ∀ other < t.columns.length, t.distinctCount other ≤ t.distinctCount column

/-- The primary column of a table is one of the fullest: the column of names if that is one of them,
else the first. -/
structure ChoosesPrimary (t : Table) : Prop where
  none_iff : t.primaryColumn = none ↔ t.columns = []
  fullest : ∀ column, t.primaryColumn = some column → t.IsFullest column
  named : ∀ names, t.nameColumn = some names → t.IsFullest names → t.primaryColumn = some names
  first : (∀ names, t.nameColumn = some names → ¬t.IsFullest names) →
    ∀ column, t.primaryColumn = some column → ∀ other, t.IsFullest other → column ≤ other

theorem nodup_eraseDups : ∀ texts : List String, texts.eraseDups.Nodup
  | [] => List.nodup_nil
  | text :: rest => by
    rw [List.eraseDups_cons, List.nodup_cons]
    exact ⟨by simp, nodup_eraseDups _⟩
termination_by texts => texts.length
decreasing_by exact Nat.lt_succ_of_le (List.length_filter_le _ _)

theorem eraseDups_of_nodup : ∀ {texts : List String}, texts.Nodup → texts.eraseDups = texts
  | [], _ => rfl
  | text :: rest, distinct => by
    obtain ⟨new, distinct⟩ := List.nodup_cons.mp distinct
    have others : rest.filter (fun other => !other == text) = rest := by
      refine List.filter_eq_self.mpr fun other mem => ?_
      have : other ≠ text := fun same => new (same ▸ mem)
      simpa using this
    rw [List.eraseDups_cons, others, eraseDups_of_nodup distinct]

theorem nodup_columns_after (line : Option Int) (ops : List Operation) :
    ∀ texts ∈ (after line ops).columns, texts.Nodup := by
  have columns : (after line ops).columns = (kept (cellsOf ops)).1 :=
    congrArg Prod.fst (kept_after line ops)
  rw [columns]
  intro texts mem
  obtain ⟨column, -, rfl⟩ := List.mem_map.mp mem
  exact nodup_eraseDups _

section Distinct
variable {t : Table} (distinct : ∀ texts ∈ t.columns, texts.Nodup)
include distinct

theorem getElem?_counts_iff {column count : Nat} :
    (t.columns.map List.length)[column]? = some count ↔
      column < t.columns.length ∧ t.distinctCount column = count := by
  by_cases inside : column < t.columns.length
  · have same := eraseDups_of_nodup (distinct _ (List.getElem_mem inside))
    simp [distinctCount, inside, same]
  · simp [inside]

/-- The columns that have as many texts as the best are the fullest. -/
theorem IsBest.isFullest_iff {best : Nat × Nat}
    (h : IsBest t.nameColumn (t.columns.map List.length) best) {column : Nat} :
    t.IsFullest column ↔ (t.columns.map List.length)[column]? = some best.2 := by
  obtain ⟨inside, count⟩ := (getElem?_counts_iff distinct).mp h.count
  have most : ∀ other < t.columns.length, t.distinctCount other ≤ best.2 := fun other there =>
    h.most other _ ((getElem?_counts_iff distinct).mpr ⟨there, rfl⟩)
  rw [getElem?_counts_iff distinct]
  constructor
  · rintro ⟨there, full⟩
    have := full best.1 inside
    have := most column there
    exact ⟨there, by omega⟩
  · rintro ⟨there, same⟩
    exact ⟨there, fun other else_ => same ▸ most other else_⟩

theorem choosesPrimary_of_nodup : ChoosesPrimary t := by
  rcases primaryColumn_isBest t with ⟨empty, none⟩ | ⟨column, most, chosen, isBest⟩
  · refine ⟨by simp [empty, none], by simp [none], fun names _ full => ?_, by simp [none]⟩
    exact absurd full.1 (by simp [empty])
  · have iff := @IsBest.isFullest_iff t distinct _ isBest
    have filled : t.columns ≠ [] := by
      rintro empty
      have := isBest.count
      simp [empty] at this
    refine ⟨by simp [chosen, filled], fun _ is => ?_, fun names isNames full => ?_,
      fun noNames _ is other full => ?_⟩
    · obtain rfl := Option.some.inj (chosen.symm.trans is)
      exact iff.mpr isBest.count
    · exact chosen.trans (congrArg some (isBest.named names isNames (iff.mp full)))
    · obtain rfl := Option.some.inj (chosen.symm.trans is)
      exact isBest.first (fun n isNames had => noNames n isNames (iff.mpr had)) other (iff.mp full)

end Distinct

/-- **The primary column after operations.** -/
theorem choosesPrimary_after (line : Option Int) (ops : List Operation) :
    ChoosesPrimary (after line ops) :=
  choosesPrimary_of_nodup (nodup_columns_after line ops)

end HtmlMend.Table
