import HtmlMend.Proofs.Markup.Course
import HtmlMend.Proofs.Markup.Reading

/-! # Markup: passages

A document is a sequence of passages, one for each token but the last: a construct that leaves a
token, or a stretch of text, which may begin with a section that leaves no token or with a construct
that breaks off. `Cut` says that the passages stand where a scanner cuts; every text has such a
sequence (`exists_cut`). A passage stays one if what comes after it is replaced, where text that
ends before markup ends before markup again (`Passage.Valid.congr`). -/

namespace HtmlMend.Markup

open Input

/-! ### Passages and their tokens -/

namespace Construct

/-- Whether the construct leaves no token. -/
def isSilent : Construct → Bool
  | .cdata | .xmlDeclaration => true
  | _ => false

/-- Whether names are those of XML after the construct. -/
def xmlAfter (xml : Bool) : Construct → Bool
  | .xmlDeclaration => true
  | _ => xml

/-- Whether the text after the construct is that of a script. -/
def scriptAfter (inScript : Bool) : Construct → Bool
  | .startTag name .. => inScript || name = "script"
  | .endTag _ => false
  | _ => inScript

/-- The token that the construct leaves. -/
def token? (line : Nat) (raw : String) : Construct → Option Token
  | .startTag name attrs selfClosing spans =>
    some (.startTag ⟨name, attrs, selfClosing, spans, some line, raw⟩)
  | .endTag name => some (.endTag ⟨name, some line, raw⟩)
  | .comment data => some (.comment data (some line) raw)
  | .doctype data => some (.doctype data (some line) raw)
  | .cdata | .xmlDeclaration => none

end Construct

/-- What a stretch of text begins with. -/
inductive Opening
  | plain
  /-- A section that leaves no token. -/
  | silent (k : Construct) (raw : List Char)
  /-- A construct that breaks off. -/
  | broken (raw : List Char)

namespace Opening

/-- The characters of the opening. -/
def raw : Opening → List Char
  | .plain => []
  | .silent _ raw | .broken raw => raw

/-- The characters of the opening that are text. -/
def shown : Opening → List Char
  | .broken raw => raw
  | _ => []

/-- The report on the opening. -/
def report? (inScript : Bool) (line : Nat) : Opening → Option Token
  | .broken _ => if inScript then none else some (.malformed (.ofCode "bad html" (some line)))
  | _ => none

end Opening

/-- What leaves one token: a construct, or text. -/
inductive Passage
  | markup (k : Construct) (raw : List Char)
  | text (opening : Opening) (chars : List Char)

namespace Passage

/-- The characters of the passage. -/
def raw : Passage → List Char
  | .markup _ raw => raw
  | .text opening chars => opening.raw ++ chars

/-- Whether names are those of XML after the passage. -/
def xmlAfter (xml : Bool) : Passage → Bool
  | .text (.silent k _) _ => k.xmlAfter xml
  | _ => xml

/-- Whether the text after the passage is that of a script. -/
def scriptAfter (inScript : Bool) : Passage → Bool
  | .markup k _ => k.scriptAfter inScript
  | .text .. => inScript

/-- The report and the token that the passage leaves if it begins on a line. -/
def tokens (inScript : Bool) (line : Nat) : Passage → List Token
  | .markup k raw => (k.token? line (String.ofList raw)).toList
  | .text opening chars =>
    let line := line + opening.raw.count '\n'
    (opening.report? inScript line).toList ++
      [.text (String.ofList (opening.shown ++ chars)) (some line)
        (String.ofList (opening.raw ++ chars))]

end Passage

/-- The characters of passages. -/
def rawOf (ps : List Passage) : List Char := ps.flatMap Passage.raw

/-- The tokens of a document that begins on a line. -/
def tokensOf : Bool → Nat → List Passage → List Token
  | _, line, [] => [.endOfInput (some line) ""]
  | inScript, line, p :: ps =>
    p.tokens inScript line ++ tokensOf (p.scriptAfter inScript) (line + p.raw.count '\n') ps

/-! ### Where a scanner cuts -/

/-- Characters of one line: no `<`, and a line end only as the last. -/
structure IsLine (chars : List Char) : Prop where
  no_markup : '<' ∉ chars
  no_lineEnd : '\n' ∉ chars.dropLast

/-- Text ends after a line end, before a `<`, and at the end of the input. -/
def EndsText (chars rest : List Char) : Prop :=
  chars.getLast? = some '\n' ∨ rest = [] ∨ rest.head? = some '<'

/-- The opening is what it says, before a lookahead. -/
def Opening.Valid (xml inScript : Bool) (look : Option Char) : Opening → Prop
  | .plain => True
  | .silent k raw => Completes xml inScript raw k ∧ k.isSilent = true
  | .broken raw => BreaksOff xml inScript raw look

/-- The passage is one that a scanner cuts off before `rest`. -/
def Passage.Valid (xml inScript : Bool) (rest : List Char) : Passage → Prop
  | .markup k raw => Completes xml inScript raw k ∧ k.isSilent = false
  | .text opening chars =>
    opening.Valid xml inScript (chars ++ rest).head? ∧ IsLine chars ∧
      (opening.raw ++ chars ≠ []) ∧ EndsText chars rest

/-- The passages are those that a scanner cuts. -/
def Cut : Bool → Bool → List Passage → Prop
  | _, _, [] => True
  | xml, inScript, p :: ps =>
    p.Valid xml inScript (rawOf ps) ∧ Cut (p.xmlAfter xml) (p.scriptAfter inScript) ps

@[simp] theorem rawOf_nil : rawOf [] = [] := rfl

@[simp] theorem rawOf_cons (p : Passage) (ps : List Passage) :
    rawOf (p :: ps) = p.raw ++ rawOf ps := rfl

theorem Passage.Valid.raw_ne_nil {xml inScript : Bool} {rest : List Char} :
    ∀ {p : Passage}, p.Valid xml inScript rest → p.raw ≠ []
  | .markup _ _, h => ne_nil_of_head?_eq h.1.head?
  | .text _ _, h => h.2.2.1

/-! ### Passages and what comes after them -/

/-- The one text may stand in the place of the other after a passage. -/
structure StandsIn (rest rest' : List Char) : Prop where
  ends : rest = [] → rest' = []
  markup : rest.head? = some '<' → rest'.head? = some '<'

theorem Passage.Valid.congr {xml inScript : Bool} {rest rest' : List Char}
    (stands : StandsIn rest rest') :
    ∀ {p : Passage}, p.Valid xml inScript rest → p.Valid xml inScript rest'
  | .markup _ _, valid => valid
  | .text opening chars, ⟨valid, line, ne, ends⟩ => by
    refine ⟨?_, line, ne, ?_⟩
    · -- Without characters of its own the text ends at once.
      have look : (chars ++ rest').head? = (chars ++ rest).head? := by
        cases chars with
        | cons c cs => rfl
        | nil =>
          rcases ends with ends | ends | ends
          · simp at ends
          · rw [ends, stands.ends ends]
          · exact (stands.markup ends).trans ends.symm
      rwa [look]
    · exact ends.imp_right (Or.imp stands.ends stands.markup)

/-! ### Every text is cut -/

theorem exists_isLine : ∀ cs : List Char,
    ∃ chars rest, cs = chars ++ rest ∧ IsLine chars ∧ EndsText chars rest
  | [] => ⟨[], [], rfl, ⟨by simp, by simp⟩, .inr (.inl rfl)⟩
  | c :: cs => by
    by_cases markup : c = '<'
    · exact ⟨[], c :: cs, rfl, ⟨by simp, by simp⟩, .inr (.inr (by simp [markup]))⟩
    by_cases lineEnd : c = '\n'
    · exact ⟨[c], cs, rfl, ⟨by simp [Ne.symm markup], by simp⟩, .inl (by simp [lineEnd])⟩
    obtain ⟨chars, rest, rfl, line, ends⟩ := exists_isLine cs
    refine ⟨c :: chars, rest, rfl, ⟨?_, ?_⟩, ?_⟩
    · simpa [Ne.symm markup] using line.no_markup
    · cases chars with
      | nil => simp
      | cons d ds => simpa [Ne.symm lineEnd] using line.no_lineEnd
    · rcases ends with ends | ends
      · exact .inl (by simp [List.getLast?_cons, ends])
      · exact .inr ends

/-- **Every text is cut into passages.** -/
theorem exists_cut (xml inScript : Bool) (cs : List Char) :
    ∃ ps, Cut xml inScript ps ∧ rawOf ps = cs := by
  induction h : cs.length using Nat.strongRecOn generalizing xml inScript cs with
  | ind n ih =>
    subst h
    -- What follows a passage is shorter, so that the passages of the rest come after it.
    have step : ∀ (p : Passage) (rest : List Char), p.Valid xml inScript rest →
        cs = p.raw ++ rest → ∃ ps, Cut xml inScript ps ∧ rawOf ps = cs := by
      intro p rest valid split
      have shorter : rest.length < cs.length := by
        have := List.length_pos_iff.mpr valid.raw_ne_nil
        rw [split, List.length_append]
        omega
      obtain ⟨ps, cut, raw⟩ := ih rest.length shorter (p.xmlAfter xml) (p.scriptAfter inScript)
        rest rfl
      exact ⟨p :: ps, ⟨by rw [raw]; exact valid, cut⟩, by rw [rawOf_cons, raw, split]⟩
    match cs with
    | [] => exact ⟨[], trivial, rfl⟩
    | c :: cs =>
      by_cases markup : c = '<'
      · subst markup
        rcases exists_completes_or_breaksOff xml inScript cs with
          ⟨raw, rest, k, split, completes⟩ | ⟨raw, rest, split, breaks⟩
        · cases silent : k.isSilent with
          | false => exact step (.markup k raw) rest ⟨completes, silent⟩ split
          | true =>
            obtain ⟨chars, rest, rfl, line, ends⟩ := exists_isLine rest
            refine step (.text (.silent k raw) chars) rest
              ⟨⟨completes, silent⟩, line, ?_, ends⟩ (by simpa [Passage.raw, Opening.raw] using split)
            simp [Opening.raw, ne_nil_of_head?_eq completes.head?]
        · obtain ⟨chars, rest, rfl, line, ends⟩ := exists_isLine rest
          refine step (.text (.broken raw) chars) rest
            ⟨breaks, line, ?_, ends⟩ (by simpa [Passage.raw, Opening.raw] using split)
          simp [Opening.raw, ne_nil_of_head?_eq breaks.head?]
      · obtain ⟨chars, rest, split, line, ends⟩ := exists_isLine (c :: cs)
        refine step (.text .plain chars) rest ⟨trivial, line, ?_, ends⟩ split
        rintro (rfl : chars = [])
        rw [List.nil_append] at split
        subst split
        rcases ends with ends | ends | ends
        · simp at ends
        · simp at ends
        · exact markup (by simpa using ends)

end HtmlMend.Markup
