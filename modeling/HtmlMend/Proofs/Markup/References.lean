import HtmlMend.Markup.Construct
import Mathlib.Logic.Relation

/-! # Markup: references in a text

Each of the three replacements replaces references of one kind from left to right (`Replaces`). What
it writes is in no reference but as its first character, so that whatever began no reference begins
none after it (`Replaces.ne_stem_append`); and the ampersand, which could begin one, is written
last. So replacing the references one kind after the other is replacing them all in one pass
(`decode_eq`), a pass that never goes back (`decode_eq_iff_passesInto`). A reference is not cut by a
character that is in none (`readReferences_append`), and it ends with the first semicolon after its
stem (`readReferences_append_stem`); any other semicolon stays
(`readReferences_append_semicolon`). -/

namespace HtmlMend.Markup

/-- A character that is read for a reference. -/
inductive Reference
  | less
  | greater
  | ampersand
deriving DecidableEq, Repr

namespace Reference

/-- The character that is meant. -/
def char : Reference → Char
  | .less => '<'
  | .greater => '>'
  | .ampersand => '&'

/-- The reference without its semicolon. -/
def stem : Reference → List Char
  | .less => ['&', 'l', 't']
  | .greater => ['&', 'g', 't']
  | .ampersand => ['&', 'a', 'm', 'p']

theorem semicolon_not_mem_stem (r : Reference) : ';' ∉ r.stem := by cases r <;> decide

/-- The characters that follow in a reference. -/
def letters : List Char := ['l', 'g', 't', 'a', 'm', 'p', ';']

theorem char_not_mem_letters (r : Reference) : r.char ∉ letters := by cases r <;> decide

theorem exists_stem_eq (r : Reference) :
    ∃ word, r.stem = '&' :: word ∧ ∀ c ∈ word ++ [';'], c ∈ letters := by
  cases r
  · exact ⟨['l', 't'], rfl, by simp [letters]⟩
  · exact ⟨['g', 't'], rfl, by simp [letters]⟩
  · exact ⟨['a', 'm', 'p'], rfl, by simp [letters]⟩

end Reference

/-- A text is read from left to right: at its end, at a reference, or at any other character. -/
theorem references_induction {P : List Char → Prop} (nil : P [])
    (stem : ∀ (r : Reference) rest, P rest → P (r.stem ++ ';' :: rest))
    (cons : ∀ c cs, (∀ (r : Reference) rest, c :: cs ≠ r.stem ++ ';' :: rest) → P cs →
      P (c :: cs)) : ∀ cs, P cs
  | [] => nil
  | c :: cs => by
    by_cases begins : ∃ (r : Reference) (rest : List Char), c :: cs = r.stem ++ ';' :: rest
    · obtain ⟨r, rest, split⟩ := begins
      have shorter : rest.length < (c :: cs).length := by
        rw [split, List.length_append, List.length_cons]
        omega
      rw [split]
      exact stem r rest (references_induction nil stem cons rest)
    · exact cons c cs (fun r rest split => begins ⟨r, rest, split⟩)
        (references_induction nil stem cons cs)
termination_by cs => cs.length
decreasing_by
  · exact shorter
  · exact Nat.lt_succ_self _

/-! ### One kind of reference -/

/-- References of one kind are replaced from left to right. -/
structure Replaces (r : Reference) (read : List Char → List Char) : Prop where
  nil : read [] = []
  stem : ∀ rest, read (r.stem ++ ';' :: rest) = r.char :: read rest
  cons : ∀ {c cs}, (∀ rest, c :: cs ≠ r.stem ++ ';' :: rest) → read (c :: cs) = c :: read cs

theorem replaces_readLess : Replaces .less readLess where
  nil := rfl
  stem _ := rfl
  cons plain := readLess.eq_2 _ _ fun rest start later =>
    plain rest (by rw [start, later]; rfl)

theorem replaces_readGreater : Replaces .greater readGreater where
  nil := rfl
  stem _ := rfl
  cons plain := readGreater.eq_2 _ _ fun rest start later =>
    plain rest (by rw [start, later]; rfl)

theorem replaces_readAmpersand : Replaces .ampersand readAmpersand where
  nil := rfl
  stem _ := rfl
  cons plain := readAmpersand.eq_2 _ _ fun rest start later =>
    plain rest (by rw [start, later]; rfl)

section Replaces
variable {r : Reference} {read : List Char → List Char} (h : Replaces r read)
include h

/-- A word without the character that is written begins a text only if it did before. -/
theorem Replaces.prefix_of_prefix : ∀ {word cs : List Char}, r.char ∉ word → word <+: read cs →
    word <+: cs
  | [], _, _, _ => List.nil_prefix
  | _ :: _, [], _, begins => h.nil ▸ begins
  | d :: word, c :: cs, absent, begins => by
    rw [List.mem_cons, not_or] at absent
    by_cases reference : ∃ rest, c :: cs = r.stem ++ ';' :: rest
    · obtain ⟨rest, split⟩ := reference
      rw [split, h.stem] at begins
      exact absurd (List.cons_prefix_cons.mp begins).1.symm absent.1
    · rw [h.cons fun rest split => reference ⟨rest, split⟩] at begins
      obtain ⟨rfl, later⟩ := List.cons_prefix_cons.mp begins
      exact List.cons_prefix_cons.mpr ⟨rfl, Replaces.prefix_of_prefix absent.2 later⟩

/-- A character that begins no reference begins none after the replacement. -/
theorem Replaces.ne_stem_append {other : Reference} {c : Char} {cs : List Char}
    (plain : ∀ rest, c :: cs ≠ other.stem ++ ';' :: rest) (rest : List Char) :
    c :: read cs ≠ other.stem ++ ';' :: rest := by
  intro split
  obtain ⟨word, stem, areLetters⟩ := other.exists_stem_eq
  rw [stem] at split
  obtain ⟨rfl, later⟩ := List.cons.inj split
  have begins : word ++ [';'] <+: read cs := ⟨rest, by rw [later]; simp⟩
  have absent : r.char ∉ word ++ [';'] := fun mem => r.char_not_mem_letters (areLetters _ mem)
  obtain ⟨rest', rfl⟩ := h.prefix_of_prefix absent begins
  exact plain rest' (by rw [stem]; simp)

end Replaces

/-! ### One pass -/

/-- A text with its references replaced. -/
def readReferences : List Char → List Char
  | '&' :: 'l' :: 't' :: ';' :: rest => '<' :: readReferences rest
  | '&' :: 'g' :: 't' :: ';' :: rest => '>' :: readReferences rest
  | '&' :: 'a' :: 'm' :: 'p' :: ';' :: rest => '&' :: readReferences rest
  | c :: rest => c :: readReferences rest
  | [] => []

@[simp] theorem readReferences_nil : readReferences [] = [] := rfl

theorem readReferences_stem (r : Reference) (rest : List Char) :
    readReferences (r.stem ++ ';' :: rest) = r.char :: readReferences rest := by
  cases r <;> rfl

theorem readReferences_cons {c : Char} {cs : List Char}
    (plain : ∀ (r : Reference) rest, c :: cs ≠ r.stem ++ ';' :: rest) :
    readReferences (c :: cs) = c :: readReferences cs := by
  refine readReferences.eq_4 _ _ ?_ ?_ ?_
  · rintro rest rfl rfl
    exact plain .less rest rfl
  · rintro rest rfl rfl
    exact plain .greater rest rfl
  · rintro rest rfl rfl
    exact plain .ampersand rest rfl

/-- **The references are read in one pass.** -/
theorem decode_eq (value : String) :
    decode value = String.ofList (readReferences value.toList) := by
  rw [decode]
  congr 1
  induction value.toList using references_induction with
  | nil => rfl
  | stem r rest ih =>
    -- the replacements of the other two kinds copy the reference, or what is written for it
    rw [readReferences_stem, ← ih]
    cases r <;> rfl
  | cons c cs plain ih =>
    rw [replaces_readLess.cons (plain .less),
      replaces_readGreater.cons (replaces_readLess.ne_stem_append (plain .greater)),
      replaces_readAmpersand.cons (replaces_readGreater.ne_stem_append
        (replaces_readLess.ne_stem_append (plain .ampersand))),
      ih, readReferences_cons plain]

theorem toList_decode (value : String) : (decode value).toList = readReferences value.toList := by
  rw [decode_eq, String.toList_ofList]

theorem readReferences_cons_of_ne {c : Char} (ne : c ≠ '&') (cs : List Char) :
    readReferences (c :: cs) = c :: readReferences cs := by
  refine readReferences_cons fun r rest split => ?_
  obtain ⟨letters, stem, -⟩ := r.exists_stem_eq
  rw [stem] at split
  exact ne (List.cons.inj split).1

/-- What is read begins with what a reference stands for, or as the text does. -/
theorem exists_of_readReferences_eq_cons {d : Char} {cs ds : List Char}
    (h : readReferences cs = d :: ds) :
    (∃ (r : Reference) (rest : List Char), cs = r.stem ++ ';' :: rest ∧ d = r.char) ∨
      ∃ rest, cs = d :: rest ∧ ds = readReferences rest := by
  cases cs with
  | nil => cases h
  | cons c cs =>
    by_cases begins : ∃ (r : Reference) (rest : List Char), c :: cs = r.stem ++ ';' :: rest
    · obtain ⟨r, rest, split⟩ := begins
      rw [split, readReferences_stem] at h
      exact .inl ⟨r, rest, split, (List.cons.inj h).1.symm⟩
    · rw [readReferences_cons fun r rest split => begins ⟨r, rest, split⟩] at h
      obtain ⟨rfl, rfl⟩ := List.cons.inj h
      exact .inr ⟨cs, rfl, rfl⟩

/-! ### Parts of a text -/

/-- A text with which no reference goes on. -/
def StartsApart (cs : List Char) : Prop := ∀ c, cs.head? = some c → c ∉ Reference.letters

/-- No reference is begun in one text and ended in the next. -/
theorem exists_of_stem_append {r : Reference} {cs more rest : List Char} {c : Char}
    (apart : StartsApart more) (split : c :: (cs ++ more) = r.stem ++ ';' :: rest) :
    ∃ rest', c :: cs = r.stem ++ ';' :: rest' := by
  obtain ⟨word, stem, areLetters⟩ := r.exists_stem_eq
  rw [stem] at split ⊢
  obtain ⟨rfl, split⟩ := List.cons.inj split
  replace split : cs ++ more = (word ++ [';']) ++ rest := by simpa using split
  rcases List.append_eq_append_iff.mp split with ⟨cut, isWord, rfl⟩ | ⟨cut, rfl, -⟩
  · cases cut with
    | nil => exact ⟨[], by simpa using isWord.symm⟩
    | cons d cut => exact absurd (areLetters d (by simp [isWord])) (apart d rfl)
  · exact ⟨cut, by simp⟩

/-- **References are read part by part.** -/
theorem readReferences_append {more : List Char} (apart : StartsApart more) (cs : List Char) :
    readReferences (cs ++ more) = readReferences cs ++ readReferences more := by
  induction cs using references_induction with
  | nil => rfl
  | stem r rest ih =>
    rw [List.append_assoc, List.cons_append, readReferences_stem, readReferences_stem, ih,
      List.cons_append]
  | cons c cs plain ih =>
    rw [List.cons_append, readReferences_cons, ih, readReferences_cons plain, List.cons_append]
    intro r tail split
    obtain ⟨tail', begins⟩ := exists_of_stem_append apart split
    exact plain r tail' begins

theorem readReferences_of_semicolon {cs : List Char} (plain : ';' ∉ cs) :
    readReferences cs = cs := by
  induction cs with
  | nil => rfl
  | cons c cs ih =>
    rw [readReferences_cons, ih fun mem => plain (List.mem_cons_of_mem c mem)]
    intro r rest split
    exact plain (by simp [split])

theorem readReferences_append_of_ampersand {front : List Char} (plain : '&' ∉ front)
    (rest : List Char) : readReferences (front ++ rest) = front ++ readReferences rest := by
  induction front with
  | nil => rfl
  | cons c front ih =>
    rw [List.mem_cons, not_or] at plain
    rw [List.cons_append, readReferences_cons_of_ne (Ne.symm plain.1), ih plain.2, List.cons_append]

/-- The semicolon after a stem ends the reference. -/
theorem readReferences_append_stem {front : List Char} (plain : ';' ∉ front) (r : Reference)
    (rest : List Char) :
    readReferences (front ++ r.stem ++ ';' :: rest) = front ++ r.char :: readReferences rest := by
  have apart : StartsApart (r.stem ++ ';' :: rest) := by
    obtain ⟨word, stem, -⟩ := r.exists_stem_eq
    rw [stem]
    rintro _ ⟨⟩
    decide
  rw [List.append_assoc, readReferences_append apart, readReferences_of_semicolon plain,
    readReferences_stem]

theorem eq_of_append_cons {d : Char} {xs ys rest rest' : List Char} (before : d ∉ xs)
    (before' : d ∉ ys) (h : xs ++ d :: rest = ys ++ d :: rest') : xs = ys ∧ rest = rest' := by
  rcases List.append_eq_append_iff.mp h with ⟨cut, rfl, later⟩ | ⟨cut, rfl, later⟩
  · cases cut with
    | nil => exact ⟨(List.append_nil xs).symm, (List.cons.inj later).2⟩
    | cons e cut => exact absurd (by simp [(List.cons.inj later).1]) before'
  · cases cut with
    | nil => exact ⟨List.append_nil ys, (List.cons.inj later).2.symm⟩
    | cons e cut => exact absurd (by simp [(List.cons.inj later).1]) before

/-- A text ends with no stem. -/
def EndsPlain (cs : List Char) : Prop := ∀ r : Reference, ¬r.stem <:+ cs

theorem endsPlain_iff {cs : List Char} :
    EndsPlain cs ↔ ∀ r ∈ [Reference.less, .greater, .ampersand], ¬r.stem <:+ cs :=
  ⟨fun h r _ => h r, fun h r => h r (by cases r <;> decide)⟩

instance (cs : List Char) : Decidable (EndsPlain cs) := decidable_of_iff _ endsPlain_iff.symm

/-- A semicolon that comes after no stem stays. -/
theorem readReferences_append_semicolon : ∀ {front : List Char}, ';' ∉ front →
    EndsPlain front → ∀ rest : List Char,
    readReferences (front ++ ';' :: rest) = front ++ ';' :: readReferences rest
  | [], _, _, rest => readReferences_cons_of_ne (by decide) rest
  | c :: front, plain, ends, rest => by
    have plain' : ';' ∉ front := fun mem => plain (List.mem_cons_of_mem c mem)
    have ends' : EndsPlain front := fun r suffix =>
      ends r (suffix.trans (List.suffix_cons c front))
    rw [List.cons_append, readReferences_cons, readReferences_append_semicolon plain' ends',
      List.cons_append]
    intro r rest' split
    obtain ⟨same, -⟩ := eq_of_append_cons plain r.semicolon_not_mem_stem split
    exact ends r (same ▸ List.suffix_refl _)

/-! ## The single pass

A pass goes over a text from left to right and never back: a reference that is ahead is replaced by
the character it stands for, any other character is copied (`Pass.Step`). What a step does depends
on what is ahead alone, so nothing that has been written is read again.

No step changes what the pass writes in all (`Pass.Step.outcome_eq`), and every pass can be carried
to the end of its text (`Pass.run`). -/

/-- A pass over a text: what it has written, and what of the text is ahead. -/
structure Pass where
  written : List Char
  ahead : List Char

namespace Pass

/-- One step of a pass. -/
inductive Step : Pass → Pass → Prop
  | replace (written rest : List Char) (r : Reference) :
      Step ⟨written, r.stem ++ ';' :: rest⟩ ⟨written ++ [r.char], rest⟩
  | copy (written rest : List Char) {c : Char}
      (plain : ∀ (r : Reference) tail, c :: rest ≠ r.stem ++ ';' :: tail) :
      Step ⟨written, c :: rest⟩ ⟨written ++ [c], rest⟩

/-- What a pass writes in all. -/
def outcome (p : Pass) : List Char := p.written ++ readReferences p.ahead

@[simp] theorem outcome_done (text : List Char) : outcome ⟨text, []⟩ = text :=
  List.append_nil text

@[simp] theorem outcome_start (value : String) :
    outcome ⟨[], value.toList⟩ = (decode value).toList := by
  simp [outcome, toList_decode]

variable {p q : Pass}

theorem Step.outcome_eq (step : p.Step q) : q.outcome = p.outcome := by
  cases step with
  | replace written rest r => simp [outcome, readReferences_stem]
  | copy written rest plain => simp [outcome, readReferences_cons plain]

theorem outcome_eq_of_run (run : Relation.ReflTransGen Step p q) : q.outcome = p.outcome := by
  induction run with
  | refl => rfl
  | tail _ step ih => rw [step.outcome_eq, ih]

/-- Every pass can be carried to the end of its text. -/
theorem run (written cs : List Char) :
    Relation.ReflTransGen Step ⟨written, cs⟩ ⟨outcome ⟨written, cs⟩, []⟩ := by
  induction cs using references_induction generalizing written with
  | nil => rw [outcome_done]
  | stem r rest ih =>
    have step := Step.replace written rest r
    rw [← step.outcome_eq]
    exact .head step (ih (written ++ [r.char]))
  | cons c cs plain ih =>
    have step := Step.copy written cs plain
    rw [← step.outcome_eq]
    exact .head step (ih (written ++ [c]))

end Pass

/-- A pass over the value writes the text. -/
def PassesInto (value text : String) : Prop :=
  Relation.ReflTransGen Pass.Step ⟨[], value.toList⟩ ⟨text.toList, []⟩

/-- **The references of a value are replaced in a single pass.** -/
theorem decode_eq_iff_passesInto {value text : String} :
    decode value = text ↔ PassesInto value text := by
  constructor
  · rintro rfl
    have run := Pass.run [] value.toList
    rwa [Pass.outcome_start] at run
  · intro run
    have written := Pass.outcome_eq_of_run run
    rw [Pass.outcome_done, Pass.outcome_start] at written
    exact (String.toList_inj.mp written).symm

/-- What is written for one reference begins no other, as it would with the ampersand first. -/
example : decode "&amp;lt; &l&lt;t;" = "&lt; &l<t;" ∧
    readLess (readAmpersand "&amp;lt;".toList) = ['<'] := by
  decide +kernel

end HtmlMend.Markup
