import HtmlMend.Proofs.Markup.LetterCase
import HtmlMend.Proofs.Page.Composition

/-! # Pages: the case of letters in the names of a tag

A document that is one start tag is a start tag in writing (`exists_writtenTag`). With its names in
other letters it is that tag again wherever it is one start tag at all, and it is one exactly if
each name with a colon is one of XML or begins with `xml` in small letters
(`documentTokens_sameButCase`). So small letters may not always be made capitals
(`documentTokens_capital_xml`). -/

namespace HtmlMend.Page

open Markup

variable {xml : Bool}

/-- **What alone is one start tag** is the text of one. -/
theorem exists_writtenTag {html : String} {tag : StartTag} {last : Token}
    (tokens : documentTokens xml html = [.startTag tag, last]) :
    ∃ w : WrittenTag, w.Valid xml ∧ html = String.ofList w.raw := by
  obtain ⟨ps, cut, raws⟩ := exists_cut xml false html.toList
  obtain rfl : html = String.ofList (rawOf ps) := by rw [raws, String.ofList_toList]
  rw [(documentTokens_of_cut cut).1] at tokens
  obtain ⟨p, rfl, valid, own⟩ := exists_passage cut tokens
  cases p with
  | text opening chars =>
    -- The last token of a text is no tag.
    have last := congrArg List.getLast? own
    simp [Passage.tokens] at last
  | markup k raw =>
    have form := valid.1.form
    cases form with
    | startTag w isTag => exact ⟨w, isTag, by simp [Passage.raw]⟩
    | _ => simp [Passage.tokens, Construct.token?] at own

/-- **The case of letters in the names of a tag.** What alone is one start tag is, with its names in
other letters, one start tag exactly if each name of an attribute with a colon is one of XML or
begins with `xml` in small letters. Then it has the name, the attributes in their order, the values
with their places, and the end that it had. -/
theorem documentTokens_sameButCase {html : String} {tag : StartTag} {last : Token}
    (tokens : documentTokens xml html = [.startTag tag, last]) :
    ∃ w : WrittenTag, w.Valid xml ∧ html = String.ofList w.raw ∧
      ∀ w' : WrittenTag, w.SameButCase w' →
        ((∃ tag' last', documentTokens xml (String.ofList w'.raw) = [.startTag tag', last']) ↔
          ∀ a ∈ w'.attributes, a.AdmitsColon xml) ∧
        ∀ tag' last', documentTokens xml (String.ofList w'.raw) = [.startTag tag', last'] →
          tag' = { tag with raw := String.ofList w'.raw } ∧ last' = last := by
  obtain ⟨w, valid, rfl⟩ := exists_writtenTag tokens
  refine ⟨w, valid, rfl, fun w' same => ?_⟩
  have validXml : w'.Valid true := same.valid (WrittenTag.valid_iff.mp valid).1
  have valid_of {tag' last'} (tokens' : documentTokens xml (String.ofList w'.raw) =
      [.startTag tag', last']) : w'.Valid xml := by
    obtain ⟨w'', valid', raw⟩ := exists_writtenTag tokens'
    obtain rfl := WrittenTag.eq_of_raw_eq validXml valid' (String.ofList_inj.mp raw)
    exact valid'
  refine ⟨⟨?_, fun colons => ?_⟩, fun tag' last' tokens' => ?_⟩
  · rintro ⟨tag', last', tokens'⟩
    exact (WrittenTag.valid_iff.mp (valid_of tokens')).2
  · exact ⟨_, _, documentTokens_startTag (WrittenTag.valid_iff.mpr ⟨validXml, colons⟩)⟩
  · rw [documentTokens_startTag (valid_of tokens'), same.startTag, same.count_lineEnd] at tokens'
    rw [documentTokens_startTag valid] at tokens
    simp only [List.cons.injEq, Token.startTag.injEq, and_true] at tokens tokens'
    obtain ⟨rfl, rfl⟩ := tokens
    exact ⟨tokens'.1.symm, tokens'.2.symm⟩

/-- A tag with a name that begins with `xml`, which may be written in capitals after the colon. -/
theorem documentTokens_sameButCase_lang :
    let html := "<A xml:lang=\"x\" xml:LANG B=b />"
    let tag : StartTag :=
      { name := "a", attrs := .ofList [("xml:lang", none), ("b", some "b")], selfClosing := true
        spans := .ofList [("b", ⟨27, 28⟩)], line := some 1, raw := html }
    let last : Token := .endOfInput (some 1) ""
    documentTokens false html = [.startTag tag, last] ∧
      ∃ w : WrittenTag, w.Valid false ∧ html = String.ofList w.raw ∧
        ∀ w' : WrittenTag, w.SameButCase w' →
          ((∃ tag' last', documentTokens false (String.ofList w'.raw) = [.startTag tag', last']) ↔
            ∀ a ∈ w'.attributes, a.AdmitsColon false) ∧
          ∀ tag' last', documentTokens false (String.ofList w'.raw) = [.startTag tag', last'] →
            tag' = { tag with raw := String.ofList w'.raw } ∧ last' = last := by
  intro html tag last
  have tokens : documentTokens false html = [.startTag tag, last] := by decide +kernel
  exact ⟨tokens, documentTokens_sameButCase tokens⟩

/-- A tag that is one start tag, but not with a name of it in capitals. -/
theorem documentTokens_capital_xml :
    let tag (name : List Char) : WrittenTag :=
      { name := ['a'], attributes := [⟨[' '], name, some ⟨[], [], some '"', ['x']⟩⟩] }
    let small := tag ['x', 'm', 'l', ':', 'l', 'a', 'n', 'g']
    let capital := tag ['X', 'M', 'L', ':', 'l', 'a', 'n', 'g']
    small.SameButCase capital ∧ String.ofList small.raw = "<a xml:lang=\"x\">" ∧
      String.ofList capital.raw = "<a XML:lang=\"x\">" ∧
      documentTokens false "<a xml:lang=\"x\">" =
        [.startTag (small.startTag (some 1)), .endOfInput (some 1) ""] ∧
      documentTokens false "<a XML:lang=\"x\">" =
        [.malformed (.ofCode "bad html" (some 1)), .text "<a XML:lang=\"x\">" (some 1)
          "<a XML:lang=\"x\">", .endOfInput (some 1) ""] := by
  intro tag small capital
  refine ⟨?_, ?_, ?_, ?_, ?_⟩
  · rfl
  all_goals decide +kernel

end HtmlMend.Page
