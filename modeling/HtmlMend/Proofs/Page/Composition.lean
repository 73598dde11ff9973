import HtmlMend.Proofs.Markup.Unique
import HtmlMend.Proofs.Page.Conservation

/-! # Pages: documents that are put together

A document that is put together from items, each a text without `<` or the text of one piece of
markup, has the tokens of its items (`documentTokens_items`): every piece of markup ends where its
text ends, whatever follows it, and adjacent texts are one text, passed on line by line. The markup
is read as if it stood alone; only its line is that of its place. -/

namespace HtmlMend.Markup

/-! ### Lines of a text -/

/-- The lines of a text, each with its line end. -/
def linesOf : List Char → List (List Char)
  | [] => []
  | c :: cs =>
    if c = '\n' then [c] :: linesOf cs
    else match linesOf cs with
      | [] => [[c]]
      | line :: rest => (c :: line) :: rest

/-- The lines are those of a text: together they are the text, none is empty, and they end at the
line ends of the text and nowhere else. -/
structure AreLines (text : List Char) (lines : List (List Char)) : Prop where
  flatten : lines.flatten = text
  ne_nil : ∀ line ∈ lines, line ≠ []
  no_lineEnd : ∀ line ∈ lines, '\n' ∉ line.dropLast
  lineEnd : ∀ line ∈ lines.dropLast, line.getLast? = some '\n'

namespace AreLines

variable {text line : List Char} {lines : List (List Char)}

/-- A line end before a text is a line of its own. -/
theorem cons_lineEnd (h : AreLines text lines) : AreLines ('\n' :: text) (['\n'] :: lines) where
  flatten := by simp [h.flatten]
  ne_nil := by simpa using h.ne_nil
  no_lineEnd := by simpa using h.no_lineEnd
  lineEnd := by
    cases lines with
    | nil => simp
    | cons line rest => simpa using h.lineEnd

theorem cons_of_ne {c : Char} (h : AreLines text (line :: lines)) (ne : c ≠ '\n') :
    AreLines (c :: text) ((c :: line) :: lines) where
  flatten := by simpa using h.flatten
  ne_nil := by
    have := h.ne_nil
    simp only [List.forall_mem_cons] at this ⊢
    exact ⟨by simp, this.2⟩
  no_lineEnd := by
    have := h.no_lineEnd
    simp only [List.forall_mem_cons] at this ⊢
    refine ⟨?_, this.2⟩
    rw [List.dropLast_cons_of_ne_nil (h.ne_nil line (by simp))]
    simpa [Ne.symm ne] using this.1
  lineEnd := by
    cases lines with
    | nil => simp
    | cons next rest =>
      have := h.lineEnd
      simp only [List.dropLast_cons_cons, List.forall_mem_cons] at this ⊢
      exact ⟨by simp [List.getLast?_cons, this.1], this.2⟩

theorem tail (h : AreLines text (line :: lines)) : AreLines lines.flatten lines where
  flatten := rfl
  ne_nil l mem := h.ne_nil l (by simp [mem])
  no_lineEnd l mem := h.no_lineEnd l (by simp [mem])
  lineEnd l mem := by
    cases lines with
    | nil => simp at mem
    | cons next rest => exact h.lineEnd l (by simp [mem])

end AreLines

/-- **The lines of a text** are what they should be. -/
theorem areLines_linesOf : ∀ text : List Char, AreLines text (linesOf text)
  | [] => ⟨rfl, by simp [linesOf], by simp [linesOf], by simp [linesOf]⟩
  | c :: cs => by
    have rest := areLines_linesOf cs
    rw [linesOf]
    by_cases lineEnd : c = '\n'
    · rw [if_pos lineEnd, lineEnd]
      exact rest.cons_lineEnd
    · rw [if_neg lineEnd]
      cases lines : linesOf cs with
      | nil =>
        rw [lines] at rest
        obtain rfl : cs = [] := rest.flatten.symm
        exact ⟨rfl, by simp, by simp, by simp⟩
      | cons line more =>
        rw [lines] at rest
        exact rest.cons_of_ne lineEnd

/-! ### Items and their tokens -/

namespace Token

/-- Whether a token is that of a piece of markup: a tag other than the start of a script, a comment,
or a document type. -/
def isMarkup : Token → Bool
  | .startTag tag => tag.name ≠ "script"
  | .endTag _ | .comment .. | .doctype .. => true
  | _ => false

/-- The token as it is on a line. -/
def onLine (line : Nat) : Token → Token
  | .startTag tag => .startTag { tag with line := some line }
  | .endTag tag => .endTag { tag with line := some line }
  | .text data _ raw => .text data (some line) raw
  | .comment data _ raw => .comment data (some line) raw
  | .doctype data _ raw => .doctype data (some line) raw
  | .malformed report => .malformed report
  | .endOfInput _ raw => .endOfInput (some line) raw

theorem isReport_onLine (line : Nat) (token : Token) :
    (token.onLine line).isReport = token.isReport := by
  cases token <;> rfl

theorem isReport_of_isMarkup : ∀ {token : Token}, token.isMarkup = true → token.isReport = false
  | .startTag _, _ | .endTag _, _ | .comment .., _ | .doctype .., _ => rfl

end Token

/-- The tokens of the lines of a text that begins on a line. -/
def lineTokens : Nat → List (List Char) → List Token
  | _, [] => []
  | number, line :: rest =>
    .text (String.ofList line) (some number) (String.ofList line) ::
      lineTokens (number + line.count '\n') rest

end HtmlMend.Markup

namespace HtmlMend.Page

open Input Markup Output

/-- A part of a document: text, or a piece of markup with its token. -/
inductive Item
  | text (source : String)
  | markup (source : String) (token : Token)

namespace Item

/-- The text of an item. -/
def source : Item → String
  | .text source | .markup source _ => source

/-- An item is what it says: text without `<` that is not empty, or what alone has just its token
and the end of the input. -/
def Valid (xml : Bool) : Item → Prop
  | .text source => source ≠ "" ∧ '<' ∉ source.toList
  | .markup source token => token.isMarkup = true ∧
    ∃ line raw, documentTokens xml source = [token, .endOfInput line raw]

end Item

/-- The tokens of items that come after a text, on the line where it begins. Texts are gathered
until markup or the end comes. -/
def itemTokens (line : Nat) (text : List Char) : List Item → List Token
  | [] => lineTokens line (linesOf text) ++ [.endOfInput (some ↑(line + text.count '\n')) ""]
  | .text source :: rest => itemTokens line (text ++ source.toList) rest
  | .markup source token :: rest =>
    let place := line + text.count '\n'
    lineTokens line (linesOf text) ++
      token.onLine place :: itemTokens (place + source.toList.count '\n') [] rest

/-! ### The passages of items -/

/-- Lines of text are passages, before markup or the end. -/
theorem cut_lines {xml inScript : Bool} {ps : List Passage} (cut : Cut xml inScript ps)
    (ends : rawOf ps = [] ∨ (rawOf ps).head? = some '<') : ∀ {lines : List (List Char)}
    {text : List Char}, AreLines text lines → '<' ∉ text →
    Cut xml inScript (lines.map (Passage.text .plain) ++ ps)
  | [], _, _, _ => cut
  | line :: lines, text, h, noMarkup => by
    obtain rfl := h.flatten
    simp only [List.flatten_cons, List.mem_append, not_or] at noMarkup
    have rest := cut_lines cut ends h.tail noMarkup.2
    refine ⟨⟨trivial, ⟨noMarkup.1, h.no_lineEnd line (by simp)⟩, h.ne_nil line (by simp), ?_⟩, rest⟩
    cases lines with
    | nil => exact .inr ends
    | cons next more => exact .inl (h.lineEnd line (by simp))

theorem rawOf_lines (ps : List Passage) (lines : List (List Char)) :
    rawOf (lines.map (Passage.text .plain) ++ ps) = lines.flatten ++ rawOf ps := by
  induction lines with
  | nil => rfl
  | cons line lines ih => simp [ih, Passage.raw, Opening.raw]

theorem tokensOf_lines (ps : List Passage) : ∀ (lines : List (List Char)) (line : Nat),
    tokensOf false line (lines.map (Passage.text .plain) ++ ps) =
      lineTokens line lines ++ tokensOf false (line + lines.flatten.count '\n') ps
  | [], line => by simp [lineTokens]
  | l :: lines, line => by
    rw [List.map_cons, List.cons_append, tokensOf, Passage.scriptAfter,
      tokensOf_lines ps lines, lineTokens]
    simp [Passage.tokens, Passage.raw, Opening.raw, Opening.report?, Opening.shown, Nat.add_assoc]

theorem tokens_ne_nil {xml inScript : Bool} {rest : List Char} {p : Passage}
    (valid : p.Valid xml inScript rest) (line : Nat) : p.tokens inScript line ≠ [] := by
  cases p with
  | markup k raw =>
    obtain ⟨-, silent⟩ := valid
    cases k <;> first | exact absurd silent (by decide) | simp [Passage.tokens, Construct.token?]
  | text opening chars => simp [Passage.tokens]

theorem length_lt_tokensOf : ∀ {ps : List Passage} {xml inScript : Bool} (line : Nat),
    Cut xml inScript ps → ps.length < (tokensOf inScript line ps).length
  | [], _, _, _, _ => by simp [tokensOf]
  | p :: ps, _, inScript, line, ⟨valid, cut⟩ => by
    have here := List.length_pos_iff.mpr (tokens_ne_nil valid line)
    have rest := length_lt_tokensOf (line + p.raw.count '\n') cut
    rw [tokensOf, List.length_append, List.length_cons]
    omega

/-- A document with one token before the end of the input is one passage. -/
theorem exists_passage {xml : Bool} {ps : List Passage} {token last : Token}
    (cut : Cut xml false ps) (tokens : tokensOf false 1 ps = [token, last]) :
    ∃ p, ps = [p] ∧ p.Valid xml false [] ∧ p.tokens false 1 = [token] := by
  have length := length_lt_tokensOf 1 cut
  rw [tokens] at length
  match ps, cut with
  | [], _ => simp [tokensOf] at tokens
  | [p], ⟨valid, _⟩ =>
    have split : p.tokens false 1 ++ [_] = [token] ++ [last] := tokens
    exact ⟨p, rfl, valid, (List.append_inj' split rfl).1⟩
  | p :: q :: ps, _ =>
    simp only [List.length_cons, List.length_nil] at length
    omega

/-- **What alone has one token of markup** is a construct that leaves it, and not the start of a
script. -/
theorem exists_completes {xml : Bool} {source : String} {token last : Token}
    (isMarkup : token.isMarkup = true) (tokens : documentTokens xml source = [token, last]) :
    ∃ k, Completes xml false source.toList k ∧ k.isSilent = false ∧
      k.token? 1 source = some token ∧ k.scriptAfter false = false := by
  obtain ⟨ps, cut, raws⟩ := exists_cut xml false source.toList
  obtain rfl : source = String.ofList (rawOf ps) := by rw [raws, String.ofList_toList]
  rw [(documentTokens_of_cut cut).1] at tokens
  obtain ⟨p, rfl, valid, own⟩ := exists_passage cut tokens
  cases p with
  | text opening chars =>
    -- The last token of a text is no markup.
    have last := congrArg List.getLast? own
    simp only [Passage.tokens, List.getLast?_append, List.getLast?_singleton, Option.some_or,
      Option.some.injEq] at last
    subst last
    cases isMarkup
  | markup k raw =>
    obtain ⟨completes, silent⟩ := valid
    have whole : rawOf [Passage.markup k raw] = raw := by simp [Passage.raw]
    rw [whole, String.toList_ofList]
    have leaves : k.token? 1 (String.ofList raw) = some token := by
      cases leaves : k.token? 1 (String.ofList raw) with
      | none => simp [Passage.tokens, leaves] at own
      | some token' => simpa [Passage.tokens, leaves] using own
    refine ⟨k, completes, silent, leaves, ?_⟩
    cases k with
    | startTag name =>
      obtain rfl := Option.some.inj leaves
      simpa [Construct.scriptAfter, Token.isMarkup] using isMarkup
    | _ => rfl

theorem token?_onLine {k : Construct} {line : Nat} {raw : String} {token : Token}
    (h : k.token? line raw = some token) (line' : Nat) :
    k.token? line' raw = some (token.onLine line') := by
  cases k <;> cases h <;> rfl

/-- **Items are passages**: the lines of their texts, and the constructs of their markup. -/
theorem exists_passages {xml : Bool} : ∀ {items : List Item} (line : Nat) {text : List Char},
    (∀ item ∈ items, item.Valid xml) → '<' ∉ text →
    ∃ ps, Cut xml false ps ∧ rawOf ps = text ++ items.flatMap (·.source.toList) ∧
      tokensOf false line ps = itemTokens line text items
  | [], line, text, _, noMarkup => by
    have lines := areLines_linesOf text
    refine ⟨_, cut_lines (show Cut xml false [] from trivial) (.inl rfl) lines noMarkup, ?_, ?_⟩
    · rw [rawOf_lines, lines.flatten]
      rfl
    · rw [tokensOf_lines, lines.flatten]
      rfl
  | .text source :: rest, line, text, valid, noMarkup => by
    obtain ⟨-, noMarkup'⟩ := valid (.text source) (by simp)
    have noMarkup : '<' ∉ text ++ source.toList := by simp [noMarkup, noMarkup']
    obtain ⟨ps, cut, raws, tokens⟩ := exists_passages line
      (fun item mem => valid item (List.mem_cons_of_mem _ mem)) noMarkup
    exact ⟨ps, cut, by simp [raws, Item.source], tokens⟩
  | .markup source token :: rest, line, text, valid, noMarkup => by
    obtain ⟨isMarkup, _, _, alone⟩ := valid (.markup source token) (by simp)
    obtain ⟨k, completes, silent, leaves, script⟩ := exists_completes isMarkup alone
    have lines := areLines_linesOf text
    let place := line + text.count '\n'
    obtain ⟨ps, cut, raws, tokens⟩ := exists_passages (place + source.toList.count '\n')
      (fun item mem => valid item (List.mem_cons_of_mem _ mem)) (List.not_mem_nil (a := '<'))
    have cut : Cut xml false (.markup k source.toList :: ps) := by
      refine ⟨⟨completes, silent⟩, ?_⟩
      rw [Passage.scriptAfter, script]
      exact cut
    have starts : (rawOf (.markup k source.toList :: ps)).head? = some '<' :=
      by simp [Passage.raw, completes.head?]
    refine ⟨_, cut_lines cut (.inr starts) lines noMarkup, ?_, ?_⟩
    · simp [rawOf_lines, lines.flatten, raws, Passage.raw, Item.source]
    · rw [tokensOf_lines, lines.flatten, tokensOf, Passage.scriptAfter, script, Passage.raw, tokens,
        Passage.tokens, String.ofList_toList, token?_onLine leaves]
      rfl

/-! ### Documents -/

/-- The document that items make up. -/
def compose (items : List Item) : String := String.join (items.map Item.source)

theorem toList_compose (items : List Item) :
    (compose items).toList = items.flatMap (·.source.toList) := by
  simp [compose, String.toList_join, List.flatMap_map]

theorem isReport_lineTokens : ∀ {lines : List (List Char)} {line : Nat},
    ∀ token ∈ lineTokens line lines, token.isReport = false
  | [], _, _, mem => by simp [lineTokens] at mem
  | l :: lines, line, token, mem => by
    rcases List.mem_cons.mp mem with rfl | mem
    · rfl
    · exact isReport_lineTokens token mem

theorem isReport_itemTokens {xml : Bool} : ∀ {items : List Item} {line : Nat} {text : List Char},
    (∀ item ∈ items, item.Valid xml) → ∀ token ∈ itemTokens line text items, token.isReport = false
  | [], line, text, _, token, mem => by
    rcases List.mem_append.mp mem with mem | mem
    · exact isReport_lineTokens token mem
    · obtain rfl := List.mem_singleton.mp mem
      rfl
  | .text source :: rest, line, text, valid, token, mem =>
    isReport_itemTokens (fun item h => valid item (List.mem_cons_of_mem _ h)) token mem
  | .markup source own :: rest, line, text, valid, token, mem => by
    obtain ⟨isMarkup, -⟩ := valid (.markup source own) (by simp)
    rcases List.mem_append.mp mem with mem | mem
    · exact isReport_lineTokens token mem
    rcases List.mem_cons.mp mem with rfl | mem
    · rw [Token.isReport_onLine, Token.isReport_of_isMarkup isMarkup]
    · exact isReport_itemTokens (fun item h => valid item (List.mem_cons_of_mem _ h)) token mem

/-- **A document that is put together has the tokens of its items**, and no reports. -/
theorem documentTokens_items {xml : Bool} {items : List Item}
    (valid : ∀ item ∈ items, item.Valid xml) :
    documentTokens xml (compose items) = itemTokens 1 [] items ∧
      ∀ token ∈ documentTokens xml (compose items), token.isReport = false := by
  obtain ⟨ps, cut, raws, tokens⟩ := exists_passages 1 valid (List.not_mem_nil (a := '<'))
  have document : documentTokens xml (compose items) = itemTokens 1 [] items := by
    rw [← String.ofList_toList (s := compose items), toList_compose, ← tokens,
      ← (documentTokens_of_cut cut).1, raws, List.nil_append]
  refine ⟨document, ?_⟩
  rw [document]
  exact isReport_itemTokens valid

theorem documentTokens_items_paragraph :
    let tag : StartTag := { name := "p", line := some 1, raw := "<p\n>" }
    let items := [Item.text "a", .text "b\nc", .markup "<p\n>" (.startTag tag), .text "d"]
    (∀ item ∈ items, item.Valid false) ∧
      documentTokens false (compose items) = itemTokens 1 [] items ∧
      ∀ token ∈ documentTokens false (compose items), token.isReport = false := by
  intro tag items
  have valid : ∀ item ∈ items, item.Valid false := by
    have alone : documentTokens false "<p\n>" = [.startTag tag, .endOfInput (some 2) ""] := by
      decide +kernel
    simp only [items, List.forall_mem_cons, Item.Valid]
    exact ⟨by decide, by decide, ⟨by decide, _, _, alone⟩, by decide, by simp⟩
  exact ⟨valid, documentTokens_items valid⟩

end HtmlMend.Page
