import HtmlMend.Text.Lowercase

/-! # Text: lower case keeps letters and numbers

The lower-case form of a letter is a letter, and that of a character with a numeric value has one or
is a letter (`isLetter_of_isLower`, `isAlphanumeric_of_isLower`). Only the dotted capital I has a
form of two characters, of which the second is neither; so a word without it keeps its length and
its kind of characters (`lowerAfter_cons`, `forall_mem_lowerAfter`). No form is a capital, so that
lower case is its own lower case (`lower_lower`). A word of ASCII without a `k` is the form of no
word but those that are it in ASCII (`lowerAfter_eq_iff`). -/

namespace HtmlMend.Text

/-! ### Ranges -/

/-- Whether one of the ranges holds all code points from `first` up to `last`. -/
def coversIn : List (Nat × Nat) → Nat → Nat → Bool
  | [], _, _ => false
  | (least, greatest) :: rest, first, last =>
    if first < least then false
    else if last ≤ greatest then true else coversIn rest first last

theorem inRanges_of_coversIn {first last n : Nat} (le : first ≤ n) (le' : n ≤ last) :
    ∀ {ranges : List (Nat × Nat)}, coversIn ranges first last = true → inRanges ranges n = true
  | [], h => by cases h
  | (least, greatest) :: rest, h => by
    unfold coversIn at h
    unfold inRanges
    split at h
    · cases h
    rw [if_neg (by omega)]
    split at h
    · rw [if_pos (by omega)]
    · split
      · rfl
      · exact inRanges_of_coversIn le le' h

theorem letterRanges_valid : (letterRanges.all fun r =>
    Nat.ble 0x80 r.1 && (Nat.blt r.2 0xD800 || Nat.blt 0xDFFF r.1 && Nat.blt r.2 0x110000)) =
      true := by decide +kernel

theorem toNat_ofNat {n : Nat} (h : n.isValidChar) : (Char.ofNat n).toNat = n := by
  rw [Char.ofNat, dif_pos h]
  rfl

theorem isLetter_ofNat {n : Nat} (h : inRanges letterRanges n = true) :
    isLetter (Char.ofNat n) = true := by
  obtain ⟨r, mem, le, le'⟩ := exists_of_inRanges h
  have valid := List.all_eq_true.mp letterRanges_valid r mem
  simp only [Bool.and_eq_true, Bool.or_eq_true, Nat.ble_eq, Nat.blt_eq] at valid
  have char : n.isValidChar := by
    unfold Nat.isValidChar
    omega
  rw [isLetter, toNat_ofNat char, if_neg (by omega), h]

/-! ### The runs of capitals -/

/-- Whether the forms of a run are letters, or are of the kind of its capitals. -/
def CaseRun.keepsKind (run : CaseRun) : Bool :=
  coversIn letterRanges run.image (run.image + (run.last - run.first)) ||
    (List.range' run.first (run.last + 1 - run.first)).all fun n =>
      let image := Char.ofNat (run.image + (n - run.first))
      (!isLetter (Char.ofNat n) || isLetter image) &&
        (!isAlphanumeric (Char.ofNat n) || isAlphanumeric image)

theorem keepsKind_caseRuns : caseRuns.all CaseRun.keepsKind = true := by decide +kernel

/-- Whether a code point is a capital of the run. -/
def CaseRun.has (run : CaseRun) (n : Nat) : Bool :=
  Nat.ble run.first n && Nat.ble n run.last && Nat.beq ((n - run.first) % run.step) 0

/-- The form of a capital of the run. -/
def CaseRun.form (run : CaseRun) (n : Nat) : Nat := run.image + (n - run.first)

theorem CaseRun.has_iff {run : CaseRun} {n : Nat} :
    run.has n = true ↔ run.first ≤ n ∧ n ≤ run.last ∧ (n - run.first) % run.step = 0 := by
  simp [has, and_assoc]

/-- A code point is its own form, or has that of the run to which it belongs. -/
theorem imageIn_eq : ∀ (runs : List CaseRun) (n : Nat), imageIn runs n = n ∨
    ∃ run ∈ runs, run.has n = true ∧ imageIn runs n = run.form n
  | [], _ => .inl rfl
  | run :: rest, n => by
    unfold imageIn
    split
    · exact .inl rfl
    split
    · split
      · next step => exact .inr ⟨run, by simp, CaseRun.has_iff.mpr ⟨by omega, by omega, step⟩, rfl⟩
      · exact .inl rfl
    · refine (imageIn_eq rest n).imp_right ?_
      rintro ⟨run', mem, within⟩
      exact ⟨run', List.mem_cons_of_mem run mem, within⟩

theorem isLetter_toLower_ascii : ∀ n < 0x80,
    (Char.ofNat n).isAlpha = true → isLetter (Char.ofNat n).toLower = true := by decide

theorem isAlphanumeric_toLower_ascii : ∀ n < 0x80,
    (Char.ofNat n).isAlphanum = true → isAlphanumeric (Char.ofNat n).toLower = true := by decide

/-- **The lower-case form of a character is a letter, or of its kind.** -/
theorem kind_lowerChar (c : Char) :
    (isLetter c = true → isLetter (lowerChar c) = true) ∧
      (isAlphanumeric c = true → isAlphanumeric (lowerChar c) = true) := by
  unfold lowerChar
  have same : Char.ofNat c.toNat = c := Char.ofNat_toNat c
  by_cases ascii : c.toNat < 0x80
  · have letter := isLetter_toLower_ascii c.toNat ascii
    have number := isAlphanumeric_toLower_ascii c.toNat ascii
    rw [same] at letter number
    rw [if_pos ascii, isLetter_of_isAlpha ascii]
    exact ⟨letter, fun h => number (by rwa [isAlphanumeric, if_pos ascii] at h)⟩
  · rw [if_neg ascii]
    rcases imageIn_eq caseRuns c.toNat with image | ⟨run, mem, has, image⟩
    · rw [image, same]
      exact ⟨id, id⟩
    obtain ⟨le, le', -⟩ := CaseRun.has_iff.mp has
    rw [image, CaseRun.form]
    have keeps := List.all_eq_true.mp keepsKind_caseRuns run mem
    rcases Bool.or_eq_true_iff.mp keeps with covers | each
    · have letter := isLetter_ofNat (inRanges_of_coversIn (n := run.image + (c.toNat - run.first))
        (by omega) (by omega) covers)
      exact ⟨fun _ => letter, fun _ => isAlphanumeric_of_isLetter letter⟩
    · have kind := List.all_eq_true.mp each c.toNat (List.mem_range'_1.mpr ⟨le, by omega⟩)
      simp only [same, Bool.and_eq_true] at kind
      exact ⟨fun h => by simpa [h] using kind.1, fun h => by simpa [h] using kind.2⟩

/-! ### Words -/

/-- A character may be the form of another in lower case. -/
def IsLower (c d : Char) : Prop := d = lowerChar c ∨ c = 'Σ' ∧ (d = 'ς' ∨ d = 'σ')

theorem isLetter_of_isLower {c d : Char} (h : IsLower c d) (letter : isLetter c = true) :
    isLetter d = true := by
  rcases h with rfl | ⟨-, rfl | rfl⟩
  · exact (kind_lowerChar c).1 letter
  · decide +kernel
  · decide +kernel

theorem isAlphanumeric_of_isLower {c d : Char} (h : IsLower c d)
    (number : isAlphanumeric c = true) : isAlphanumeric d = true := by
  rcases h with rfl | ⟨-, rfl | rfl⟩
  · exact (kind_lowerChar c).2 number
  · decide +kernel
  · decide +kernel

theorem eq_of_isLower {c d : Char} (h : IsLower c d) (ascii : c.toNat < 0x80)
    (small : c.toLower = c) : d = c := by
  rcases h with rfl | ⟨rfl, -⟩
  · rw [lowerChar, if_pos ascii, small]
  · exact absurd ascii (by decide)

/-- A character but the dotted capital I has a form of one character. -/
theorem lowerAfter_cons {c : Char} (single : c ≠ 'İ') (before cs : List Char) :
    ∃ d, IsLower c d ∧ lowerAfter before (c :: cs) = d :: lowerAfter (c :: before) cs := by
  by_cases sigma : c = 'Σ'
  · refine ⟨lowerSigma before cs, .inr ⟨sigma, ?_⟩, by simp [lowerAfter, sigma]⟩
    unfold lowerSigma
    split
    · exact .inl rfl
    · exact .inr rfl
  · exact ⟨lowerChar c, .inl rfl, by simp [lowerAfter, sigma, single]⟩

/-- What holds of the forms of all characters holds in the lower-case form of a word. -/
theorem forall_mem_lowerAfter {P : Char → Prop} : ∀ {cs before : List Char},
    (∀ c ∈ cs, c ≠ 'İ' ∧ ∀ d, IsLower c d → P d) → ∀ d ∈ lowerAfter before cs, P d
  | [], _, _, d, mem => by simp [lowerAfter] at mem
  | c :: cs, before, h, d, mem => by
    obtain ⟨single, forms⟩ := h c (by simp)
    obtain ⟨e, lower, split⟩ := lowerAfter_cons single before cs
    rw [split] at mem
    rcases List.mem_cons.mp mem with rfl | mem
    · exact forms _ lower
    · exact forall_mem_lowerAfter (fun c' mem' => h c' (List.mem_cons_of_mem c mem')) d mem

/-! ### Lower case of lower case -/

/-- The runs of all capitals: with those of ASCII, and with the dotted capital I. -/
def capitalRuns : List CaseRun := ⟨0x41, 0x5A, 1, 0x61⟩ :: ⟨0x130, 0x130, 1, 0x69⟩ :: caseRuns

/-- Whether a form of the run is a capital of another. Runs that are apart are not searched. -/
def CaseRun.meets (run other : CaseRun) : Bool :=
  Nat.ble run.image other.last && Nat.ble other.first (run.form run.last) &&
    (List.range' run.first (run.last + 1 - run.first)).any fun n =>
      run.has n && other.has (run.form n)

theorem CaseRun.meets_of_has {run other : CaseRun} {n : Nat} (has : run.has n = true)
    (has' : other.has (run.form n) = true) : run.meets other = true := by
  obtain ⟨le, le', -⟩ := has_iff.mp has
  obtain ⟨above, below, -⟩ := has_iff.mp has'
  have form : run.image ≤ run.form n ∧ run.form n ≤ run.form run.last := by
    unfold CaseRun.form
    omega
  have mem : n ∈ List.range' run.first (run.last + 1 - run.first) :=
    List.mem_range'_1.mpr ⟨le, by omega⟩
  simp only [meets, Bool.and_eq_true, Nat.ble_eq, List.any_eq_true]
  exact ⟨⟨by omega, by omega⟩, n, mem, has, has'⟩

/-- The forms of all runs are characters, and none is a capital. -/
theorem forms_caseRuns : (caseRuns.all fun run =>
    (Nat.blt (run.form run.last) 0xD800 ||
      Nat.blt 0xDFFF run.image && Nat.blt (run.form run.last) 0x110000) &&
    !capitalRuns.any run.meets) = true := by decide +kernel

/-- The character is its own lower-case form. -/
structure IsLow (c : Char) : Prop where
  same : lowerChar c = c
  sigma : c ≠ 'Σ'
  dotted : c ≠ 'İ'

theorem isLow_toLower_ascii : ∀ n < 0x80, lowerChar (Char.ofNat n).toLower = (Char.ofNat n).toLower ∧
    (Char.ofNat n).toLower ≠ 'Σ' ∧ (Char.ofNat n).toLower ≠ 'İ' := by decide

theorem toLower_of_not_has : ∀ n < 0x80, CaseRun.has ⟨0x41, 0x5A, 1, 0x61⟩ n = false →
    (Char.ofNat n).toLower = Char.ofNat n := by decide

theorem isLow_ofNat {n : Nat} (char : n.isValidChar)
    (plain : ∀ run ∈ capitalRuns, run.has n = false) : IsLow (Char.ofNat n) := by
  have toNat := toNat_ofNat char
  have other {c : Char} (capital : ∃ run ∈ capitalRuns, run.has c.toNat = true) :
      Char.ofNat n ≠ c := by
    rintro rfl
    obtain ⟨run, mem, has⟩ := capital
    rw [toNat, plain run mem] at has
    cases has
  refine ⟨?_, other (by decide +kernel), other (by decide +kernel)⟩
  rw [lowerChar, toNat]
  split
  · next ascii => exact toLower_of_not_has n ascii (plain _ (by simp [capitalRuns]))
  · rcases imageIn_eq caseRuns n with image | ⟨run, mem, has, -⟩
    · rw [image]
    · rw [plain run (by simp [capitalRuns, mem])] at has
      cases has

/-- **A lower-case form is its own lower-case form.** -/
theorem isLow_lowerChar {c : Char} (sigma : c ≠ 'Σ') (dotted : c ≠ 'İ') : IsLow (lowerChar c) := by
  have toNat : Char.ofNat c.toNat = c := Char.ofNat_toNat c
  by_cases ascii : c.toNat < 0x80
  · have low := isLow_toLower_ascii c.toNat ascii
    rw [toNat] at low
    rw [lowerChar, if_pos ascii]
    exact ⟨low.1, low.2.1, low.2.2⟩
  have form : lowerChar c = Char.ofNat (imageIn caseRuns c.toNat) := if_neg ascii
  rcases imageIn_eq caseRuns c.toNat with image | ⟨run, mem, has, image⟩
  · rw [image, toNat] at form
    rw [form]
    exact ⟨form, sigma, dotted⟩
  · rw [form, image]
    have checked := List.all_eq_true.mp forms_caseRuns run mem
    simp only [Bool.and_eq_true, Bool.or_eq_true, Nat.blt_eq, Bool.not_eq_true',
      List.any_eq_false] at checked
    obtain ⟨valid, apart⟩ := checked
    obtain ⟨le, le', -⟩ := CaseRun.has_iff.mp has
    refine isLow_ofNat ?_ fun other mem' => Bool.eq_false_iff.mpr fun has' =>
      apart other mem' (CaseRun.meets_of_has has has')
    unfold CaseRun.form at valid ⊢
    unfold Nat.isValidChar
    omega

theorem isLow_of_mem_lowerAfter : ∀ {cs before : List Char}, ∀ d ∈ lowerAfter before cs, IsLow d
  | [], _, d, mem => by simp [lowerAfter] at mem
  | c :: cs, before, d, mem => by
    rw [lowerAfter, List.mem_append] at mem
    rcases mem with here | later
    · split at here
      · obtain rfl := List.mem_singleton.mp here
        unfold lowerSigma
        split
        · exact ⟨by decide +kernel, by decide, by decide⟩
        · exact ⟨by decide +kernel, by decide, by decide⟩
      next sigma =>
      split at here
      · obtain rfl | rfl : d = 'i' ∨ d = '\u0307' := by simpa using here
        · exact ⟨by decide +kernel, by decide, by decide⟩
        · exact ⟨by decide +kernel, by decide, by decide⟩
      · next dotted =>
        obtain rfl := List.mem_singleton.mp here
        exact isLow_lowerChar sigma dotted
    · exact isLow_of_mem_lowerAfter d later

theorem lowerAfter_of_isLow : ∀ {cs before : List Char}, (∀ c ∈ cs, IsLow c) →
    lowerAfter before cs = cs
  | [], _, _ => rfl
  | c :: cs, before, low => by
    obtain ⟨here, rest⟩ := List.forall_mem_cons.mp low
    rw [lowerAfter, if_neg here.sigma, if_neg here.dotted, here.same, lowerAfter_of_isLow rest]
    rfl

/-- **Lower case is its own lower case.** -/
theorem lower_lower (s : String) : lower (lower s) = lower s := by
  rw [lower, toList_lower, lowerAfter_of_isLow isLow_of_mem_lowerAfter]
  rfl

/-! ### Words of ASCII -/

/-- Beyond ASCII the only capital with a form in ASCII is the sign for degrees Kelvin. -/
theorem images_caseRuns : (caseRuns.all fun run => Nat.ble 0x80 run.image ||
    Nat.beq run.first run.last && Nat.beq run.image 'k'.toNat) = true := by
  decide +kernel

theorem lowerChar_beyond {c : Char} (beyond : 0x80 ≤ c.toNat) :
    0x80 ≤ (lowerChar c).toNat ∨ lowerChar c = 'k' := by
  have form : lowerChar c = Char.ofNat (imageIn caseRuns c.toNat) := if_neg (by omega)
  rcases imageIn_eq caseRuns c.toNat with image | ⟨run, mem, has, image⟩
  · rw [form, image, Char.ofNat_toNat]
    exact .inl beyond
  obtain ⟨le, le', -⟩ := CaseRun.has_iff.mp has
  have checked := List.all_eq_true.mp forms_caseRuns run mem
  have images := List.all_eq_true.mp images_caseRuns run mem
  simp only [Bool.and_eq_true, Bool.or_eq_true, Nat.blt_eq] at checked
  simp only [Bool.and_eq_true, Bool.or_eq_true, Nat.ble_eq, Nat.beq_eq] at images
  obtain ⟨valid, -⟩ := checked
  unfold CaseRun.form at valid image
  rw [form, image]
  rcases images with high | ⟨single, kelvin⟩
  · have char : (run.image + (c.toNat - run.first)).isValidChar := by
      unfold Nat.isValidChar
      omega
    rw [toNat_ofNat char]
    exact .inl (by omega)
  · have : c.toNat - run.first = 0 := by omega
    rw [this, kelvin]
    exact .inr rfl

theorem toLower_of_beyond {c : Char} (beyond : 0x80 ≤ c.toNat) : c.toLower = c := by
  have notCapital : ¬(c.val ≥ 'A'.val ∧ c.val ≤ 'Z'.val) := by
    rintro ⟨-, le⟩
    have : c.toNat ≤ 'Z'.toNat := le
    have : 'Z'.toNat = 0x5A := rfl
    omega
  exact dif_neg notCapital

/-- A character of ASCII that is the form of none beyond ASCII. -/
def IsOwnForm (d : Char) : Prop := d.toNat < 0x80 ∧ d ≠ 'k'

instance : DecidablePred IsOwnForm := fun d =>
  inferInstanceAs (Decidable (d.toNat < 0x80 ∧ d ≠ 'k'))

/-- A form is a given character of ASCII if it is so in ASCII. -/
theorem IsLower.eq_iff {c e d : Char} (h : IsLower c e) (own : IsOwnForm d) :
    e = d ↔ c.toLower = d := by
  by_cases ascii : c.toNat < 0x80
  · rcases h with rfl | ⟨rfl, -⟩
    · rw [lowerChar, if_pos ascii]
    · exact absurd ascii (by decide)
  have high : 0x80 ≤ e.toNat ∨ e = 'k' := by
    rcases h with rfl | ⟨-, rfl | rfl⟩
    · exact lowerChar_beyond (by omega)
    · exact .inl (by decide)
    · exact .inl (by decide)
  rw [toLower_of_beyond (by omega)]
  constructor
  · rintro rfl
    rcases high with high | kelvin
    · exact absurd own.1 (by omega)
    · exact absurd kelvin own.2
  · rintro rfl
    exact absurd own.1 ascii

/-- **The lower-case form of a word is a given one of ASCII** if it is so in ASCII. -/
theorem lowerAfter_eq_iff : ∀ {cs word before : List Char}, (∀ d ∈ word, IsOwnForm d) →
    (lowerAfter before cs = word ↔ cs.map Char.toLower = word)
  | [], _, _, _ => Iff.rfl
  | c :: cs, word, before, own => by
    by_cases dotted : c = 'İ'
    · -- Its form has a mark that is beyond ASCII, and so has it itself.
      constructor
      · intro form
        have mark : '\u0307' ∈ word := by simp [← form, lowerAfter, dotted]
        exact absurd (own _ mark).1 (by decide)
      · intro form
        have mark : 'İ' ∈ word := by simp [← form, dotted]
        exact absurd (own _ mark).1 (by decide)
    obtain ⟨e, lower, split⟩ := lowerAfter_cons dotted before cs
    rw [split, List.map_cons]
    cases word with
    | nil => simp
    | cons d word =>
      obtain ⟨here, rest⟩ := List.forall_mem_cons.mp own
      rw [List.cons_eq_cons, List.cons_eq_cons, lower.eq_iff here, lowerAfter_eq_iff rest]

/-! ## The case of letters of ASCII

A text has the same lower-case form if letters of ASCII in it are written in the other case: they
are cased and no sign that is passed over, whichever case they have, so that not even the form of a
sigma next to them changes (`lower_map_toLower`). -/

/-- What does not depend on the case of letters of ASCII. -/
def IgnoresCase {α : Type} (f : Char → α) : Prop := ∀ c : Char, f c.toLower = f c

variable {α : Type} {f : Char → α}

/-- Only the characters of ASCII are to be checked. -/
theorem ignoresCase_of_ascii
    (ascii : ∀ n < 0x80, f (Char.ofNat n).toLower = f (Char.ofNat n)) : IgnoresCase f := by
  intro c
  by_cases low : c.toNat < 0x80
  · have same := ascii c.toNat low
    rwa [Char.ofNat_toNat] at same
  · rw [toLower_of_beyond (by omega)]

theorem ignoresCase_isLetter : IgnoresCase isLetter := ignoresCase_of_ascii (by decide +kernel)

theorem ignoresCase_isCased : IgnoresCase isCased := ignoresCase_of_ascii (by decide +kernel)

theorem ignoresCase_isCaseIgnorable : IgnoresCase isCaseIgnorable :=
  ignoresCase_of_ascii (by decide +kernel)

theorem ignoresCase_lowerChar : IgnoresCase lowerChar := ignoresCase_of_ascii (by decide +kernel)

theorem map_toLower_map_toLower (cs : List Char) :
    (cs.map Char.toLower).map Char.toLower = cs.map Char.toLower := by
  have twice : IgnoresCase Char.toLower := ignoresCase_of_ascii (by decide +kernel)
  rw [List.map_map, show Char.toLower ∘ Char.toLower = Char.toLower from funext twice]

/-- A character that is no letter of ASCII is told from all others in any case. -/
theorem toLower_eq_iff {d : Char} (sign : ∀ n < 0x80, (Char.ofNat n).toLower = d ↔ Char.ofNat n = d)
    (c : Char) : c.toLower = d ↔ c = d := by
  have ignores : IgnoresCase fun c => decide (c = d) :=
    ignoresCase_of_ascii fun n low => decide_eq_decide.mpr (sign n low)
  exact decide_eq_decide.mp (ignores c)

theorem facesCased_map_toLower (cs : List Char) :
    facesCased (cs.map Char.toLower) = facesCased cs := by
  have drop : (cs.map Char.toLower).dropWhile isCaseIgnorable =
      (cs.dropWhile isCaseIgnorable).map Char.toLower := by
    rw [List.dropWhile_map]
    congr 2
    exact funext ignoresCase_isCaseIgnorable
  rw [facesCased, facesCased, drop]
  cases cs.dropWhile isCaseIgnorable with
  | nil => rfl
  | cons c rest => exact ignoresCase_isCased c

theorem lowerAfter_map_toLower : ∀ cs before : List Char,
    lowerAfter (before.map Char.toLower) (cs.map Char.toLower) = lowerAfter before cs
  | [], _ => rfl
  | c :: cs, before => by
    have sigma : c.toLower = 'Σ' ↔ c = 'Σ' := toLower_eq_iff (by decide) c
    have dotted : c.toLower = 'İ' ↔ c = 'İ' := toLower_eq_iff (by decide) c
    have rest := lowerAfter_map_toLower cs (c :: before)
    rw [List.map_cons] at rest ⊢
    simp only [lowerAfter, sigma, dotted, ignoresCase_lowerChar c, rest, lowerSigma,
      facesCased_map_toLower]

/-- **The case of letters of ASCII does not count** in lower case. -/
theorem lower_map_toLower (cs : List Char) :
    lower (String.ofList (cs.map Char.toLower)) = lower (String.ofList cs) := by
  rw [lower, lower, String.toList_ofList, String.toList_ofList]
  exact congrArg String.ofList (lowerAfter_map_toLower cs [])

end HtmlMend.Text
