import HtmlMend.Proofs.Markup.Front

/-! # Markup: lines

A token says on which line it stands: that of a construct, on which line it begins, and a report and
the text after it, up to which line the construct was read that breaks off. All these lines are
counted from the characters of the document alone, and none comes after a later one
(`countsLines_scan`). The proof goes passage by passage: the lines of the tokens of a passage are
between the line on which it begins and the line on which it ends (`Passage.ascends`). -/

namespace HtmlMend.Markup

open Input

/-- The line on which a token says that it stands. -/
def Token.line : Token → Option Int
  | .startTag tag => tag.line
  | .endTag tag => tag.line
  | .text _ line _ | .comment _ line _ | .doctype _ line _ | .endOfInput line _ => line
  | .malformed report => report.line

/-- Both tokens say on which line they stand, and the first does not stand below the second. -/
def Token.IsNotBelow (first second : Token) : Prop :=
  ∃ line line' : Int, first.line = some line ∧ second.line = some line' ∧ line ≤ line'

/-- The line on which stands what comes after the front of a document. -/
def lineAfter (front : List Char) : Option Int := some (1 + front.count '\n' : Nat)

/-- Whether names are those of XML after the front of a document. -/
def Scanner.xmlAfter (s : Scanner) (front : List Char) : Bool :=
  (s.scan (.ofStream (.whole (String.ofList front)))).scanner.xml

/-- The lines of the tokens of a document are counted from its characters. -/
structure CountsLines (s : Scanner) (html : List Char) (tokens : List Token) : Prop where
  /-- A construct stands on the line on which it begins. -/
  construct : ∀ before token after, tokens = before ++ token :: after →
    token.isConstruct = true → token.line = lineAfter (rawsOf before).toList
  /-- The end of the input stands on the last line. -/
  ends : ∃ body, tokens = body ++ [.endOfInput (lineAfter html) ""] ∧
    ∀ token ∈ body, token.isEnd = false
  /-- A report and the text after it stand where the construct breaks off. -/
  report : ∀ before report after, tokens = before ++ .malformed report :: after →
    ∃ front raw rest data textRaw later, html = front ++ raw ++ rest ∧
      rawsOf before = String.ofList front ∧
      BreaksOff (s.xmlAfter front) false raw rest.head? ∧
      report.line = lineAfter (front ++ raw) ∧
      after = .text data report.line textRaw :: later
  ascending : tokens.Pairwise Token.IsNotBelow

/-! ### Ascending lines -/

/-- The lines of tokens ascend from one line up to another. -/
structure Ascends (low high : Nat) (tokens : List Token) : Prop where
  pairwise : tokens.Pairwise Token.IsNotBelow
  between : ∀ token ∈ tokens, ∃ line : Nat, token.line = some ↑line ∧ low ≤ line ∧ line ≤ high

namespace Ascends

variable {low middle high : Nat}

/-- Tokens that all stand on one line. -/
theorem of_line {tokens : List Token} (line : Nat)
    (same : ∀ token ∈ tokens, token.line = some ↑line) (le : low ≤ line) (le' : line ≤ high) :
    Ascends low high tokens where
  pairwise := List.pairwise_of_forall_mem_list fun token mem token' mem' =>
    ⟨line, line, same token mem, same token' mem', Int.le_refl _⟩
  between token mem := ⟨line, same token mem, le, le'⟩

theorem append {xs ys : List Token} (hx : Ascends low middle xs) (hy : Ascends middle high ys)
    (le : low ≤ middle) (le' : middle ≤ high) : Ascends low high (xs ++ ys) where
  pairwise := by
    refine List.pairwise_append.mpr ⟨hx.pairwise, hy.pairwise, fun x hx' y hy' => ?_⟩
    obtain ⟨m, own, -, le⟩ := hx.between x hx'
    obtain ⟨n, own', le', -⟩ := hy.between y hy'
    exact ⟨m, n, own, own', by omega⟩
  between token mem := by
    rcases List.mem_append.mp mem with mem | mem
    · obtain ⟨line, own, above, below⟩ := hx.between token mem
      exact ⟨line, own, above, by omega⟩
    · obtain ⟨line, own, above, below⟩ := hy.between token mem
      exact ⟨line, own, by omega, below⟩

end Ascends

theorem Construct.line_of_token? {k : Construct} {line : Nat} {raw : String} {token : Token}
    (leaves : k.token? line raw = some token) : token.line = some ↑line := by
  cases k with
  | cdata | xmlDeclaration => cases leaves
  | _ =>
    obtain rfl := Option.some.inj leaves
    rfl

theorem Passage.ascends (p : Passage) (inScript : Bool) (line : Nat) :
    Ascends line (line + p.raw.count '\n') (p.tokens inScript line) := by
  cases p with
  | markup k raw =>
    refine .of_line line (fun token mem => ?_) (Nat.le_refl _) (Nat.le_add_right _ _)
    exact Construct.line_of_token? (Option.mem_toList.mp mem)
  | text opening chars =>
    -- The report and the text stand on the line on which the opening ends.
    refine .of_line (line + opening.raw.count '\n') (fun token mem => ?_)
      (Nat.le_add_right _ _) ?_
    · rcases List.mem_append.mp mem with report | text
      · cases opening <;> cases inScript <;> simp [Opening.report?] at report
        rw [report]
        rfl
      · obtain rfl := List.mem_singleton.mp text
        rfl
    · rw [Passage.raw, List.count_append]
      omega

/-- **The lines of passages ascend.** -/
theorem ascends_tokensOf : ∀ (ps : List Passage) (inScript : Bool) (line : Nat),
    Ascends line (line + (rawOf ps).count '\n') (tokensOf inScript line ps)
  | [], _, line => .of_line line (by simp [tokensOf, Token.line]) (Nat.le_refl _)
      (Nat.le_refl _)
  | p :: ps, inScript, line => by
    have later := ascends_tokensOf ps (p.scriptAfter inScript) (line + p.raw.count '\n')
    rw [Nat.add_assoc, ← List.count_append, ← rawOf_cons] at later
    refine (p.ascends inScript line).append later (Nat.le_add_right _ _) ?_
    rw [rawOf_cons, List.count_append]
    omega

/-! ### Scans -/

/-- **The lines of a scan are counted from the document**, if the stream does not fail. -/
theorem countsLines_scan (s : Scanner) {stream : Stream} (delivered : stream.failure? = none) :
    CountsLines s stream.chars (s.scan (.ofStream stream)).tokens.toList := by
  obtain ⟨ps, cut, raws⟩ := exists_cut s.xmlFirst false stream.chars
  rw [(Scanner.tokens_scan cut raws.symm delivered).1, ← raws]
  refine ⟨fun before token after split isConstruct => ?_, ?_, fun before report after split => ?_,
    (ascends_tokensOf ps false 1).pairwise⟩
  · obtain ⟨front, k, raw, back, rfl, rfl, leaves, -⟩ :=
      exists_passage_of_construct isConstruct split
    rw [Construct.line_of_token? leaves, rawsOf_frontTokens _ front _ cut, String.toList_ofList]
    rfl
  · have whole := tokensOf_append [] ps false 1
    rw [List.append_nil] at whole
    obtain ⟨body, last, split, -, inner⟩ := tokensOf_spec 1 cut
    obtain ⟨-, same⟩ := List.append_inj' (split.symm.trans whole) rfl
    refine ⟨body, split.trans ?_, fun token mem => (inner token mem).isEnd_raw.1⟩
    rw [same]
    rfl
  · obtain ⟨front, p, back, earlier, later, rfl, tokens, rfl, rfl⟩ :=
      exists_passage_of_token rfl split
    obtain ⟨raw, chars, rfl, outside, rfl, rfl, rfl⟩ := Passage.exists_broken tokens
    have breaks := (Cut.back _ front cut).1.1
    rw [outside] at breaks
    refine ⟨rawOf front, raw, chars ++ rawOf back, _, _, _, ?_, ?_, ?_, ?_, rfl⟩
    · simp [rawOf_append, Passage.raw, Opening.raw]
    · rw [List.append_nil, rawsOf_frontTokens _ front _ cut]
    · rw [Scanner.xmlAfter, s.xml_scan_front cut.front]
      exact breaks
    · simp [Diagnostic.ofCode, lineAfter, List.count_append, Nat.add_assoc]

theorem countsLines_scan_broken :
    let stream : Stream := [.text "a\n<b\n", .text "<i\n>"]
    let tokens : List Token := [.text "a\n" (some 1) "a\n",
      .malformed (.ofCode "bad html" (some 3)), .text "<b\n" (some 3) "<b\n",
      .startTag { name := "i", line := some 3, raw := "<i\n>" }, .endOfInput (some 4) ""]
    stream.failure? = none ∧ ((Scanner.new false).scan (.ofStream stream)).tokens.toList = tokens ∧
      CountsLines (.new false) stream.chars tokens := by
  intro stream tokens
  have scanned : ((Scanner.new false).scan (.ofStream stream)).tokens.toList = tokens := by
    decide +kernel
  have counts := countsLines_scan (.new false) (rfl : stream.failure? = none)
  rw [scanned] at counts
  exact ⟨rfl, scanned, counts⟩

end HtmlMend.Markup
