import HtmlMend.Proofs.Markup.Emission
import HtmlMend.Proofs.Markup.Grammar
import HtmlMend.Proofs.Page.Composition

/-! # Pages: constructs that stand alone

A tag, a comment or a document type is read the same wherever it stands: as a document of its own,
its raw text has the same token, but for its line (`documentTokens_raw`). Only how names are read is
taken from the place where it stood; it may change in the middle of a document. -/

namespace HtmlMend

open Input

namespace Markup.Scanner

/-- The tokens of the reactions to characters and to the end of the input after them, each with how
names were read then: as those of XML or not. -/
def tokensWithXml (s : Scanner) (cur : Cursor) : List Char → List (Bool × Token)
  | [] => (s.react cur none).tokens.map (s.xml, ·)
  | c :: cs =>
    let r := s.react cur (some c)
    r.tokens.map (s.xml, ·) ++ r.scanner.tokensWithXml (r.cursor.push c) cs

theorem map_snd_tokensWithXml : ∀ (cs : List Char) (s : Scanner) (cur : Cursor),
    (s.tokensWithXml cur cs).map Prod.snd = (s.readOut cur cs).tokens
  | [], s, cur => by simp [tokensWithXml, Function.comp_def]
  | c :: cs, s, cur => by
    simp [tokensWithXml, readOut_cons, map_snd_tokensWithXml cs, Function.comp_def]

variable {s : Scanner} {cur : Cursor} {token : Token}

theorem InForm.exists_form (h : s.InForm cur) {look : Option Char}
    (isConstruct : token.isConstruct = true) (mem : token ∈ (s.react cur look).tokens) :
    ∃ k line, Form s.xml s.inScript token.raw.toList k ∧ k.token? line token.raw = some token := by
  obtain ⟨k, mode, mem⟩ := mode_of_isConstruct isConstruct mem
  rw [InForm, mode] at h
  obtain ⟨raw, form, pending⟩ := h
  rw [(complete_spec s cur k).1, pending, Option.mem_toList] at mem
  have same : token.raw = String.ofList raw := by cases k <;> cases mem <;> rfl
  rw [same, String.toList_ofList]
  exact ⟨k, s.markupLine, form, mem⟩

/-- Every token of a construct is one of what is read so. -/
theorem InForm.exists_form_of_mem : ∀ (cs : List Char) {s : Scanner} {cur : Cursor}, s.InForm cur →
    ∀ {xml : Bool}, (xml, token) ∈ s.tokensWithXml cur cs → token.isConstruct = true →
    ∃ inScript k line, Form xml inScript token.raw.toList k ∧
      k.token? line token.raw = some token
  | [], s, cur, h, xml, mem, isConstruct => by
    obtain ⟨_, here, same⟩ := List.mem_map.mp mem
    obtain ⟨rfl, rfl⟩ := Prod.mk.inj same
    exact ⟨s.inScript, h.exists_form isConstruct here⟩
  | c :: cs, s, cur, h, xml, mem, isConstruct => by
    rcases List.mem_append.mp mem with mem | mem
    · obtain ⟨_, here, same⟩ := List.mem_map.mp mem
      obtain ⟨rfl, rfl⟩ := Prod.mk.inj same
      exact ⟨s.inScript, h.exists_form isConstruct here⟩
    · exact InForm.exists_form_of_mem cs (h.react c) mem isConstruct

end Markup.Scanner

namespace Page

open Markup

/-- What a document is that is the text of one construct. -/
theorem documentTokens_of_form {xml inScript : Bool} {raw : String} {k : Construct} {line : Nat}
    {token : Token} (form : Form xml inScript raw.toList k)
    (leaves : k.token? line raw = some token) :
    documentTokens xml raw =
      [token.onLine 1, .endOfInput (some ((1 + raw.toList.count '\n' : Nat) : Int)) ""] := by
  have silent : k.isSilent = false := by cases k <;> first | rfl | cases leaves
  have cut : Cut xml false [.markup k raw.toList] := ⟨⟨form.outside.completes, silent⟩, trivial⟩
  have whole : rawOf [.markup k raw.toList] = raw.toList := by simp [Passage.raw]
  have tokens := (documentTokens_of_cut cut).1
  rw [whole, String.ofList_toList] at tokens
  simpa [tokensOf, Passage.tokens, Passage.raw, token?_onLine leaves 1] using tokens

/-- **A construct is read alone as it is in its place.** The raw text of each tag, comment or
document type of a document is a document that has that token, on its first line, and no other. -/
theorem documentTokens_raw (xml : Bool) (html : String) :
    ((Scanner.new xml).tokensWithXml {} html.toList).map Prod.snd = documentTokens xml html ∧
      ∀ e ∈ (Scanner.new xml).tokensWithXml {} html.toList, e.2.isConstruct = true →
        documentTokens e.1 e.2.raw = [e.2.onLine 1,
          .endOfInput (some ((1 + e.2.raw.toList.count '\n' : Nat) : Int)) ""] := by
  constructor
  · have tokens := congrArg Scan.tokens
      (Scanner.scan_of_failure?_eq_none (.new xml) (Stream.failure?_whole html))
    rw [Scanner.map_snd_tokensWithXml, documentTokens, tokens, Stream.chars_whole]
    rfl
  · rintro ⟨flag, token⟩ mem isConstruct
    have inForm : (Scanner.new xml).InForm {} := trivial
    obtain ⟨inScript, k, line, form, leaves⟩ :=
      Scanner.InForm.exists_form_of_mem html.toList inForm mem isConstruct
    exact documentTokens_of_form form leaves

/-- The end of a script, and before it a tag with a name of XML, after an XML declaration. -/
theorem documentTokens_raw_script :
    let html := "<a <?xml?>\n<!--<p>--><b k:l='&lt;\n'><script><p></SCRIPT\n >"
    let tokens := (Scanner.new false).tokensWithXml {} html.toList
    let start : Bool × Token := (true, .startTag ⟨"b", .ofList [("k:l", some "<\n")], false,
      .ofList [("k:l", ⟨8, 13⟩)], some 2, "<b k:l='&lt;\n'>"⟩)
    let last : Bool × Token := (true, .endTag ⟨"script", some 3, "</SCRIPT\n >"⟩)
    (start ∈ tokens ∧ start.2.isConstruct = true ∧ last ∈ tokens ∧ last.2.isConstruct = true) ∧
    documentTokens start.1 start.2.raw = [start.2.onLine 1,
      .endOfInput (some ((1 + start.2.raw.toList.count '\n' : Nat) : Int)) ""] ∧
    documentTokens last.1 last.2.raw = [last.2.onLine 1,
      .endOfInput (some ((1 + last.2.raw.toList.count '\n' : Nat) : Int)) ""] := by
  intro html tokens start last
  have startMem : start ∈ tokens := by decide +kernel
  have lastMem : last ∈ tokens := by decide +kernel
  exact ⟨⟨startMem, rfl, lastMem, rfl⟩, (documentTokens_raw false html).2 start startMem rfl,
    (documentTokens_raw false html).2 last lastMem rfl⟩

end Page

end HtmlMend
