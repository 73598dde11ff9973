import HtmlMend.Proofs.Markup.Cutting
import HtmlMend.Proofs.Markup.Form

/-! # Markup: tokens cover the document

The tokens of a scan give the document back: every character of it is in the raw text of one token,
and in the data of one text token unless it belongs to markup or to a section that leaves no token
(`covers_scan`). The size of the pieces in which the document is delivered does not matter. -/

namespace HtmlMend.Markup

open Input

namespace Token

/-- Whether the token reports malformed markup. -/
def isReport : Token → Bool
  | .malformed _ => true
  | _ => false

/-- Whether the token is the end of the input. -/
def isEnd : Token → Bool
  | .endOfInput .. => true
  | _ => false

/-- Whether a token is that of a construct: a tag, a comment, or a document type. -/
def isConstruct : Token → Bool
  | .startTag _ | .endTag _ | .comment .. | .doctype .. => true
  | _ => false

end Token

/-- The raw text of a text token is its data, after a section that leaves no token if there is one:
a CDATA section or an XML declaration. -/
def IsShown (data raw : String) : Prop :=
  ∃ hidden, raw.toList = hidden ++ data.toList ∧
    (hidden = [] ∨ IsCdataSection hidden ∨ ∃ xml, IsXmlDeclaration xml hidden)

/-- The tokens are those of a document: they end with the end of the input, which occurs once, and
cover the document. -/
structure Covers (html : String) (tokens : List Token) : Prop where
  ends : ∃ body line, tokens = body ++ [.endOfInput line ""] ∧ ∀ token ∈ body, token.isEnd = false
  raws : String.join ((tokens.filter fun token => !token.isReport).map Token.raw) = html
  raw_ne : ∀ token ∈ tokens, token.isReport = false → token.isEnd = false → token.raw ≠ ""
  shown : ∀ data line raw, Token.text data line raw ∈ tokens → IsShown data raw

/-! ### The tokens of passages -/

/-- What a scan may pass on before the end. -/
def Token.IsInner : Token → Prop
  | .endOfInput .. => False
  | .malformed _ => True
  | .text data _ raw => raw ≠ "" ∧ IsShown data raw
  | token => token.raw ≠ ""

theorem Token.IsInner.isEnd_raw : ∀ {token : Token}, token.IsInner →
    token.isEnd = false ∧ (token.isReport = false → token.raw ≠ "")
  | .startTag _, ne | .endTag _, ne | .comment .., ne | .doctype .., ne => ⟨rfl, fun _ => ne⟩
  | .text .., ⟨ne, _⟩ => ⟨rfl, fun _ => ne⟩
  | .malformed _, _ => ⟨rfl, fun h => nomatch h⟩

/-- The text of tokens. -/
def rawsOf (tokens : List Token) : String :=
  String.join ((tokens.filter fun token => !token.isReport).map Token.raw)

@[simp] theorem rawsOf_append (xs ys : List Token) : rawsOf (xs ++ ys) = rawsOf xs ++ rawsOf ys := by
  simp [rawsOf]

theorem Form.of_isSilent {xml inScript : Bool} {raw : List Char} {k : Construct}
    (form : Form xml inScript raw k) (silent : k.isSilent = true) :
    IsCdataSection raw ∨ IsXmlDeclaration xml raw := by
  cases form with
  | cdata _ form _ => exact .inl form
  | xmlDeclaration _ form _ => exact .inr form
  | _ => cases silent

/-- An opening leaves what it hides before the data of the text. -/
theorem Opening.Valid.isShown {xml inScript : Bool} {look : Option Char} (chars : List Char) :
    ∀ {opening : Opening}, opening.Valid xml inScript look →
      IsShown (String.ofList (opening.shown ++ chars)) (String.ofList (opening.raw ++ chars))
  | .plain, _ => ⟨[], by simp [shown, raw], .inl rfl⟩
  | .broken opening, _ => ⟨[], by simp [shown, raw], .inl rfl⟩
  | .silent k opening, ⟨completes, noToken⟩ =>
    ⟨opening, by simp [shown, raw], .inr ((completes.form.of_isSilent noToken).imp_right (⟨xml, ·⟩))⟩

theorem Passage.Valid.tokens_spec {xml inScript : Bool} {rest : List Char} {p : Passage}
    (valid : p.Valid xml inScript rest) (line : Nat) :
    rawsOf (p.tokens inScript line) = String.ofList p.raw ∧
      ∀ token ∈ p.tokens inScript line, token.IsInner := by
  cases p with
  | markup k raw =>
    obtain ⟨completes, silent⟩ := valid
    have ne : String.ofList raw ≠ "" := by simp [ne_nil_of_head?_eq completes.head?]
    cases k <;> first
      | exact absurd silent (by decide)
      | simp [Passage.tokens, Construct.token?, rawsOf, Token.isReport, Token.raw, Passage.raw,
          Token.IsInner, ne]
  | text opening chars =>
    obtain ⟨valid, -, ne, -⟩ := valid
    have ne : String.ofList (opening.raw ++ chars) ≠ "" := by simpa using ne
    have report : ∀ report ∈ (opening.report? inScript (line + opening.raw.count '\n')).toList,
        report.isReport = true ∧ report.IsInner := by
      intro report h
      cases opening with
      | broken raw =>
        simp only [Opening.report?] at h
        split at h
        · simp at h
        · obtain rfl := List.mem_singleton.mp h
          exact ⟨rfl, trivial⟩
      | _ => cases h
    have raws : rawsOf (opening.report? inScript (line + opening.raw.count '\n')).toList = "" := by
      cases h : opening.report? inScript (line + opening.raw.count '\n') with
      | none => rfl
      | some token =>
        have := (report token (by simp [h])).1
        simp [rawsOf, this]
    simp only [Passage.tokens, Passage.raw, rawsOf_append, raws, List.forall_mem_append]
    exact ⟨by simp [rawsOf, Token.isReport, Token.raw], fun token h => (report token h).2, by
      rintro token h
      obtain rfl := List.mem_singleton.mp h
      exact ⟨ne, valid.isShown chars⟩⟩

/-- The tokens of passages give their text back, and end with the end of the input. -/
theorem tokensOf_spec : ∀ {ps : List Passage} {xml inScript : Bool} (line : Nat),
    Cut xml inScript ps →
    ∃ body last, tokensOf inScript line ps = body ++ [.endOfInput last ""] ∧
      rawsOf body = String.ofList (rawOf ps) ∧ ∀ token ∈ body, token.IsInner
  | [], _, _, line, _ => ⟨[], some line, rfl, rfl, by simp⟩
  | p :: ps, xml, inScript, line, ⟨valid, cut⟩ => by
    obtain ⟨raws, inner⟩ := valid.tokens_spec line
    obtain ⟨body, last, split, raws', inner'⟩ := tokensOf_spec (line + p.raw.count '\n') cut
    refine ⟨p.tokens inScript line ++ body, last, by rw [tokensOf, split, List.append_assoc], ?_,
      fun token h => ?_⟩
    · rw [rawsOf_append, raws, raws', rawOf_cons, String.ofList_append]
    · exact (List.mem_append.mp h).elim (inner token) (inner' token)

/-- **The tokens of passages cover their text.** -/
theorem covers_tokensOf {ps : List Passage} {xml : Bool} (cut : Cut xml false ps) :
    Covers (String.ofList (rawOf ps)) (tokensOf false 1 ps) := by
  obtain ⟨body, last, split, raws, inner⟩ := tokensOf_spec 1 cut
  rw [split]
  refine ⟨⟨body, last, rfl, fun token h => (inner token h).isEnd_raw.1⟩, ?_,
    fun token h report isEnd => ?_, fun data line raw h => ?_⟩
  · change rawsOf (body ++ [.endOfInput last ""]) = _
    rw [rawsOf_append, raws]
    simp [rawsOf, Token.isReport, Token.raw]
  · rcases List.mem_append.mp h with h | h
    · exact (inner token h).isEnd_raw.2 report
    · obtain rfl := List.mem_singleton.mp h
      cases isEnd
  · rcases List.mem_append.mp h with h | h
    · exact (inner _ h).2
    · cases List.mem_singleton.mp h

/-! ### Scans -/

/-- **The tokens of a scan cover the document**, whatever the scanner has read before, and whatever
the size of the pieces in which the document comes. -/
theorem covers_scan (s : Scanner) (html : String) {size : Int} (h : 0 < size) :
    (s.scan (.ofStream (.inPieces html size))).failure = none ∧
      Covers html (s.scan (.ofStream (.inPieces html size))).tokens.toList := by
  obtain ⟨ps, cut, raw⟩ := exists_cut s.xmlFirst false html.toList
  have chars : (Stream.inPieces html size).chars = rawOf ps := by
    rw [Stream.chars_inPieces html (Int.ne_of_gt h), raw]
  obtain ⟨tokens, failure⟩ := Scanner.tokens_scan cut chars (Stream.failure?_inPieces html size)
  refine ⟨failure, ?_⟩
  have covers := covers_tokensOf cut
  rwa [raw, String.ofList_toList, ← tokens] at covers

theorem covers_scan_single :
    0 < (1 : Int) ∧ Covers "<?xml?>a<p"
      ((Scanner.new true).scan (.ofStream (.inPieces "<?xml?>a<p" 1))).tokens.toList :=
  ⟨by decide, (covers_scan (Scanner.new true) "<?xml?>a<p" (by decide)).2⟩

end HtmlMend.Markup
