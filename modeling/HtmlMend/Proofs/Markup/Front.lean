import HtmlMend.Proofs.Markup.Cover

/-! # Markup: the front of a document

The first passages of a document are those of its front alone (`Cut.front`), and what follows is
scanned like a document of its own, by a scanner that knows from the front whether names are those
of XML, on lines further down (`tokensOf_back`). A token of the document is found in one of its
passages, between those of the passages before and after (`exists_passage_of_token`). -/

namespace HtmlMend.Markup

open Input

/-! ### After passages -/

/-- Whether names are those of XML after passages. -/
def xmlAfterAll (xml : Bool) (ps : List Passage) : Bool :=
  ps.foldl (fun xml p => p.xmlAfter xml) xml

/-- Whether the text after passages is that of a script. -/
def scriptAfterAll (inScript : Bool) (ps : List Passage) : Bool :=
  ps.foldl (fun inScript p => p.scriptAfter inScript) inScript

/-- The tokens of passages that begin on a line, without the end of the input. -/
def frontTokens : Bool → Nat → List Passage → List Token
  | _, _, [] => []
  | inScript, line, p :: ps =>
    p.tokens inScript line ++ frontTokens (p.scriptAfter inScript) (line + p.raw.count '\n') ps

theorem rawOf_append (ps qs : List Passage) : rawOf (ps ++ qs) = rawOf ps ++ rawOf qs :=
  List.flatMap_append

theorem scriptAfterAll_append (inScript : Bool) (ps qs : List Passage) :
    scriptAfterAll inScript (ps ++ qs) = scriptAfterAll (scriptAfterAll inScript ps) qs :=
  List.foldl_append

theorem tokensOf_append (qs : List Passage) : ∀ (ps : List Passage) (inScript : Bool) (line : Nat),
    tokensOf inScript line (ps ++ qs) = frontTokens inScript line ps ++
      tokensOf (scriptAfterAll inScript ps) (line + (rawOf ps).count '\n') qs
  | [], _, _ => rfl
  | p :: ps, inScript, line => by
    rw [List.cons_append, tokensOf, tokensOf_append qs ps, frontTokens, rawOf_cons,
      List.count_append, List.append_assoc, Nat.add_assoc]
    rfl

theorem Cut.back (qs : List Passage) : ∀ (ps : List Passage) {xml inScript : Bool},
    Cut xml inScript (ps ++ qs) → Cut (xmlAfterAll xml ps) (scriptAfterAll inScript ps) qs
  | [], _, _, cut => cut
  | _ :: ps, _, _, ⟨_, cut⟩ => Cut.back qs ps cut

/-- A passage is one at the end of the input too. -/
theorem Passage.Valid.last {xml inScript : Bool} {rest : List Char} :
    ∀ {p : Passage}, p.Valid xml inScript rest → p.Valid xml inScript []
  | .markup _ _, valid => valid
  | .text opening chars, ⟨valid, line, ne, _⟩ => by
    refine ⟨?_, line, ne, .inr (.inl rfl)⟩
    cases opening with
    | plain | silent => exact valid
    | broken raw =>
      cases chars with
      | cons c chars => exact valid
      | nil =>
        obtain ⟨body, u, rfl, fed, -⟩ := valid
        exact ⟨body, u, rfl, fed, trivial⟩

/-- **The front of a cut** is a cut alone. -/
theorem Cut.front {qs : List Passage} : ∀ {ps : List Passage} {xml inScript : Bool},
    Cut xml inScript (ps ++ qs) → Cut xml inScript ps
  | [], _, _, _ => trivial
  | [_], _, _, ⟨valid, _⟩ => ⟨valid.last, trivial⟩
  | p :: q :: ps, _, _, ⟨valid, cut⟩ => by
    refine ⟨valid.congr ?_, cut.front⟩
    -- Both texts go on with the next passage.
    obtain ⟨c, cs, raw⟩ := List.exists_cons_of_ne_nil cut.1.raw_ne_nil
    constructor
    · intro none
      simp [raw] at none
    · intro markup
      simpa [raw] using markup

theorem rawsOf_frontTokens (qs : List Passage) : ∀ (ps : List Passage) {xml inScript : Bool}
    (line : Nat), Cut xml inScript (ps ++ qs) →
    rawsOf (frontTokens inScript line ps) = String.ofList (rawOf ps)
  | [], _, _, _, _ => rfl
  | p :: ps, _, inScript, line, ⟨valid, cut⟩ => by
    rw [frontTokens, rawsOf_append, (valid.tokens_spec line).1,
      rawsOf_frontTokens qs ps _ cut, rawOf_cons, String.ofList_append]

/-! ### The place of a token -/

theorem append_eq_append_cons {α : Type} {xs ys before after : List α} {z : α}
    (split : xs ++ ys = before ++ z :: after) :
    (∃ before', before = xs ++ before' ∧ ys = before' ++ z :: after) ∨
      ∃ after', xs = before ++ z :: after' ∧ after = after' ++ ys := by
  rcases List.append_eq_append_iff.mp split with ⟨as, same, split⟩ | ⟨bs, same, split⟩
  · exact .inl ⟨as, same, split⟩
  cases bs with
  | nil => exact .inl ⟨[], by simpa using same.symm, split.symm⟩
  | cons first bs =>
    obtain ⟨rfl, rfl⟩ := List.cons_eq_cons.mp split
    exact .inr ⟨bs, same, rfl⟩

/-- **A token of passages** is that of one of them; the tokens before it and after it are those of
the passages before it and after it, and the other tokens of its own. -/
theorem exists_passage_of_token {token : Token} (inner : token.isEnd = false) {after : List Token} :
    ∀ {ps : List Passage} {inScript : Bool} {line : Nat} {before : List Token},
      tokensOf inScript line ps = before ++ token :: after →
      ∃ front p back earlier later, ps = front ++ p :: back ∧
        p.tokens (scriptAfterAll inScript front) (line + (rawOf front).count '\n') =
          earlier ++ token :: later ∧
        before = frontTokens inScript line front ++ earlier ∧
        after = later ++ tokensOf (p.scriptAfter (scriptAfterAll inScript front))
          (line + (rawOf front ++ p.raw).count '\n') back
  | [], _, line, before, split => by
    obtain ⟨-, rfl⟩ : before = [] ∧ token = .endOfInput (some line) "" := by
      cases before with
      | nil => exact ⟨rfl, (List.cons_eq_cons.mp split).1.symm⟩
      | cons first before => simp [tokensOf] at split
    cases inner
  | p :: ps, inScript, line, before, split => by
    rw [tokensOf] at split
    rcases append_eq_append_cons split with ⟨before', rfl, within⟩ | ⟨after', own, rfl⟩
    · obtain ⟨front, q, back, earlier, later, rfl, tokens, rfl, rfl⟩ :=
        exists_passage_of_token inner within
      refine ⟨p :: front, q, back, earlier, later, rfl, ?_, ?_, ?_⟩
      · rw [rawOf_cons, List.count_append, ← Nat.add_assoc]
        exact tokens
      · rw [frontTokens, List.append_assoc]
      · have down : (rawOf (p :: front) ++ q.raw).count '\n' =
            p.raw.count '\n' + (rawOf front ++ q.raw).count '\n' := by
          rw [rawOf_cons, List.append_assoc, List.count_append]
        rw [down, ← Nat.add_assoc]
        rfl
    · exact ⟨[], p, ps, before, after', rfl, own, rfl, rfl⟩

/-- The token of a construct is the one token of its passage. -/
theorem Passage.exists_markup {p : Passage} {inScript : Bool} {line : Nat} {token : Token}
    {before after : List Token} (isConstruct : token.isConstruct = true)
    (split : p.tokens inScript line = before ++ token :: after) :
    ∃ k raw, p = .markup k raw ∧ k.token? line (String.ofList raw) = some token ∧
      before = [] ∧ after = [] := by
  cases p with
  | text opening chars =>
    have mem : token ∈ Passage.tokens inScript line (.text opening chars) := by simp [split]
    rcases List.mem_append.mp mem with report | text
    · cases opening <;> cases inScript <;> simp [Opening.report?] at report
      subst report
      cases isConstruct
    · obtain rfl := List.mem_singleton.mp text
      cases isConstruct
  | markup k raw =>
    cases leaves : k.token? line (String.ofList raw) with
    | none => simp [Passage.tokens, leaves] at split
    | some token =>
      rw [Passage.tokens, leaves] at split
      cases before with
      | nil =>
        obtain ⟨rfl, rfl⟩ := List.cons_eq_cons.mp split
        exact ⟨k, raw, rfl, leaves, rfl, rfl⟩
      | cons first before => simp at split

/-- A report is the first token of its passage, and comes before the text of it. -/
theorem Passage.exists_broken {p : Passage} {inScript : Bool} {line : Nat} {report : Diagnostic}
    {before after : List Token}
    (split : p.tokens inScript line = before ++ .malformed report :: after) :
    ∃ raw chars, p = .text (.broken raw) chars ∧ inScript = false ∧
      report = .ofCode "bad html" (some ↑(line + raw.count '\n')) ∧ before = [] ∧
      after = [.text (String.ofList (raw ++ chars)) (some ↑(line + raw.count '\n'))
        (String.ofList (raw ++ chars))] := by
  cases p with
  | markup k raw =>
    have mem : Token.malformed report ∈ Passage.tokens inScript line (.markup k raw) := by
      simp [split]
    cases k <;> simp [Passage.tokens, Construct.token?] at mem
  | text opening chars =>
    rcases append_eq_append_cons split with ⟨before', -, text⟩ | ⟨after', reported, rfl⟩
    · have mem : Token.malformed report ∈ before' ++ .malformed report :: after := by simp
      rw [← text] at mem
      simp at mem
    · cases opening with
      | broken raw =>
        cases inScript with
        | true => simp [Opening.report?] at reported
        | false =>
          obtain ⟨rfl, first, rfl⟩ : before = [] ∧
              Token.malformed (.ofCode "bad html" (some ↑(line + raw.count '\n'))) =
                .malformed report ∧ after' = [] := by
            cases before with
            | nil => exact ⟨rfl, (List.cons_eq_cons.mp reported).imp_right Eq.symm⟩
            | cons first before => simp [Opening.report?] at reported
          exact ⟨raw, chars, rfl, rfl, (Token.malformed.inj first).symm, rfl, rfl⟩
      | _ => simp [Opening.report?] at reported

/-- **The token of a construct among the tokens of passages** is that of one of them. -/
theorem exists_passage_of_construct {token : Token} {ps : List Passage} {inScript : Bool}
    {line : Nat} {before after : List Token} (isConstruct : token.isConstruct = true)
    (split : tokensOf inScript line ps = before ++ token :: after) :
    ∃ front k raw back, ps = front ++ .markup k raw :: back ∧
      before = frontTokens inScript line front ∧
      k.token? (line + (rawOf front).count '\n') (String.ofList raw) = some token ∧
      after = tokensOf (k.scriptAfter (scriptAfterAll inScript front))
        (line + (rawOf front ++ raw).count '\n') back := by
  have inner : token.isEnd = false := by cases token <;> first | rfl | cases isConstruct
  obtain ⟨front, p, back, earlier, later, rfl, tokens, rfl, rfl⟩ :=
    exists_passage_of_token inner split
  obtain ⟨k, raw, rfl, leaves, rfl, rfl⟩ := Passage.exists_markup isConstruct tokens
  exact ⟨front, k, raw, back, rfl, List.append_nil _, leaves, rfl⟩

/-! ### What follows the front -/

/-- The token, on a line further down. -/
def Token.moveDown (lines : Nat) : Token → Token
  | .startTag tag => .startTag { tag with line := tag.line.map (· + lines) }
  | .endTag tag => .endTag { tag with line := tag.line.map (· + lines) }
  | .text data line raw => .text data (line.map (· + lines)) raw
  | .comment data line raw => .comment data (line.map (· + lines)) raw
  | .doctype data line raw => .doctype data (line.map (· + lines)) raw
  | .malformed report => .malformed { report with line := report.line.map (· + lines) }
  | .endOfInput line raw => .endOfInput (line.map (· + lines)) raw

theorem Construct.token?_add (k : Construct) (line lines : Nat) (raw : String) :
    k.token? (line + lines) raw = (k.token? line raw).map (Token.moveDown lines) := by
  cases k <;> simp [Construct.token?, Token.moveDown]

theorem Passage.tokens_add (p : Passage) (inScript : Bool) (line lines : Nat) :
    p.tokens inScript (line + lines) = (p.tokens inScript line).map (Token.moveDown lines) := by
  cases p with
  | markup k raw =>
    rw [tokens, tokens, k.token?_add]
    cases k.token? line (String.ofList raw) <;> rfl
  | text opening chars =>
    have place : ((line + lines + opening.raw.count '\n' : Nat) : Int) =
        (line + opening.raw.count '\n' : Nat) + lines := by omega
    cases opening with
    | broken raw =>
      cases inScript <;>
        simp [tokens, Opening.report?, Token.moveDown, Diagnostic.ofCode, place]
    | _ => simp [tokens, Opening.report?, Token.moveDown, place]

theorem tokensOf_add (lines : Nat) : ∀ (ps : List Passage) (inScript : Bool) (line : Nat),
    tokensOf inScript (line + lines) ps = (tokensOf inScript line ps).map (Token.moveDown lines)
  | [], _, line => by simp [tokensOf, Token.moveDown]
  | p :: ps, inScript, line => by
    rw [tokensOf, tokensOf, p.tokens_add, Nat.add_right_comm, tokensOf_add lines ps,
      List.map_append]

theorem Scanner.Rests.xml_readOut : ∀ {ps : List Passage} {s : Scanner} {cur : Cursor}
    {xml inScript : Bool} {line : Nat}, s.Rests cur xml inScript line → Cut xml inScript ps →
    (s.readOut cur (rawOf ps)).scanner.xml = xmlAfterAll xml ps
  | [], s, cur, xml, inScript, line, h, _ => by
    simp only [rawOf_nil, Scanner.readOut_nil, Scanner.react, h.mode, Scanner.readText, h.flush]
    exact h.xml
  | p :: ps, s, cur, xml, inScript, line, h, ⟨valid, cut⟩ => by
    obtain ⟨t, cur', rests, out⟩ := h.readOut_passage valid
    rw [rawOf_cons, out, Reaction.scanner_after, rests.xml_readOut cut]
    rfl

/-- The tokens of a text that comes after a front: those of the text alone, by a scanner that knows
from the front whether names are those of XML, on lines further down. -/
def scannedAfter (s : Scanner) (front rest : List Char) : List Token :=
  let xml := (s.scan (.ofStream (.whole (String.ofList front)))).scanner.xml
  ((Scanner.new xml).scan (.ofStream (.whole (String.ofList rest)))).tokens.toList.map
    (Token.moveDown (front.count '\n'))

/-- **What follows a front** outside scripts is scanned alone, if what the front says of names is
known. -/
theorem tokensOf_eq_scannedAfter (s : Scanner) {front : List Char} {back : List Passage}
    {xml : Bool} (cut : Cut xml false back)
    (known : (s.scan (.ofStream (.whole (String.ofList front)))).scanner.xml = xml) :
    tokensOf false (1 + front.count '\n') back = scannedAfter s front (rawOf back) := by
  have chars : (Stream.whole (String.ofList (rawOf back))).chars = rawOf back := by simp
  have scanned := (Scanner.tokens_scan (s := .new xml) cut chars (Stream.failure?_whole _)).1
  rw [scannedAfter, known, scanned, tokensOf_add]

theorem Scanner.xml_scan_front (s : Scanner) {front : List Passage}
    (cut : Cut s.xmlFirst false front) :
    (s.scan (.ofStream (.whole (String.ofList (rawOf front))))).scanner.xml =
      xmlAfterAll s.xmlFirst front := by
  rw [scan_of_failure?_eq_none s (Stream.failure?_whole _), Stream.chars_whole,
    String.toList_ofList]
  exact (rests_new s.xmlFirst).xml_readOut cut

/-- What follows passages outside scripts is scanned alone. -/
theorem tokensOf_back (s : Scanner) {front back : List Passage}
    (cut : Cut s.xmlFirst false (front ++ back)) (outside : scriptAfterAll false front = false) :
    tokensOf false (1 + (rawOf front).count '\n') back =
      scannedAfter s (rawOf front) (rawOf back) := by
  have backCut := Cut.back back front cut
  rw [outside] at backCut
  exact tokensOf_eq_scannedAfter s backCut (s.xml_scan_front cut.front)

end HtmlMend.Markup
