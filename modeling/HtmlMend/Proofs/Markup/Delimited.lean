import HtmlMend.Proofs.Markup.Emission
import HtmlMend.Proofs.Markup.Front
import HtmlMend.Proofs.Markup.Grammar

/-! # Markup: comments and CDATA sections

A scanner reads a comment or a CDATA section without looking back: it counts the dashes or brackets
that it has just read, and a `>` after two of them ends it. So it ends at the first mark of its text
(`FirstMark`), also if the mark is in a longer run, and is no construct if there is none. Then all
that follows is one text, after one report. This is so wherever a `<` begins a construct
(`readsDelimited_scan`): there nothing is held back (`BeginsAfter.exists_rests`), and the passages
that follow are cut as those of a document. -/

namespace HtmlMend.Markup

open Input

/-! ### Where constructs begin -/

namespace Scanner

/-- A `<` after the front of a document begins a construct outside scripts. -/
def BeginsAfter (s : Scanner) (front : List Char) : Prop :=
  let r := s.restart.readOn {} (front ++ ['<'])
  r.scanner.mode = .within .begun ∧ r.scanner.inScript = false

instance (s : Scanner) (front : List Char) : Decidable (s.BeginsAfter front) :=
  inferInstanceAs (Decidable (_ ∧ _))

/-- A reaction is that in a text, after tokens, or only goes on within a construct. -/
theorem react_cases (s : Scanner) (cur : Cursor) (look : Option Char) :
    (∃ (t : Scanner) (cur' : Cursor) (earlier : List Token), t.mode = .text ∧
      cur'.line = cur.line ∧ s.react cur look = (t.react cur' look).after earlier) ∨
    ∃ u, s.mode = .within u ∧
      ((∃ v, s.progress cur u look = .more v ∧
        s.react cur look = ⟨{ s with mode := .within v }, cur, []⟩) ∨
      ∃ k, s.react cur look = ⟨{ s with mode := .closed k }, cur, []⟩) := by
  cases mode : s.mode with
  | text => exact .inl ⟨s, cur, [], mode, rfl, rfl⟩
  | lineEnd =>
    have text := mode_flush { s with mode := .text } cur
    refine .inl ⟨_, _, ({ s with mode := .text }.flush cur).tokens, text,
      line_flush { s with mode := .text } cur, ?_⟩
    rw [react_of_text text]
    simp only [react, mode]
    rfl
  | closed k =>
    obtain ⟨-, text, -, -, -, line, -⟩ := s.complete_spec cur k
    refine .inl ⟨_, _, (s.complete cur k).tokens, text, line, ?_⟩
    rw [react_of_text text]
    simp only [react, mode]
    rfl
  | within u =>
    have same : Scanner.progress { s with mode := .text } cur u look = s.progress cur u look := by
      cases look <;> rfl
    cases next : s.progress cur u look with
    | more v => exact .inr ⟨u, rfl, .inl ⟨v, next, by simp only [react, mode, same, next]⟩⟩
    | done k => exact .inr ⟨u, rfl, .inr ⟨k, by simp only [react, mode, same, next]⟩⟩
    | broken =>
      have text : ({ s with mode := .text }.breakOff cur).scanner.mode = .text := rfl
      refine .inl ⟨_, _, ({ s with mode := .text }.breakOff cur).tokens, text, rfl, ?_⟩
      rw [react_of_text text]
      simp only [react, mode, same, next]
      rfl

theorem line_readText (s : Scanner) (cur : Cursor) (c : Char) :
    (s.readText cur (some c)).cursor.line = cur.line := by
  unfold readText
  split
  · next none => cases none
  · exact line_flush s cur
  · rfl

theorem line_react (s : Scanner) (cur : Cursor) (c : Char) :
    (s.react cur (some c)).cursor.line = cur.line := by
  rcases s.react_cases cur (some c) with ⟨t, cur', earlier, text, line, reaction⟩ |
    ⟨u, -, ⟨v, -, reaction⟩ | ⟨k, reaction⟩⟩
  · rw [reaction, ← line, react_of_text text]
    exact line_readText t cur' c
  · rw [reaction]
  · rw [reaction]

theorem line_readOn : ∀ (cs : List Char) (s : Scanner) (cur : Cursor),
    (s.readOn cur cs).cursor.line = cur.line + cs.count '\n'
  | [], _, _ => rfl
  | c :: cs, s, cur => by
    have same : ((s.react cur (some c)).cursor.push c).line = (cur.push c).line := by
      simp only [Cursor.push, line_react]
    rw [readOn_cons, Reaction.cursor_after, line_readOn cs, same, line_push_add]

end Scanner

/-! ### Where nothing is held back -/

theorem InTag.exists_lead {xml : Bool} {owner : Owner} {lead : List Char} {guard : Char → Prop}
    {u : Unfinished} {read : List Char} (h : InTag xml owner lead guard u read) :
    ∃ more, read = lead ++ more := by
  cases h <;> exact ⟨_, by simp only [List.append_assoc]; rfl⟩

theorem InConstruct.head? {xml inScript : Bool} {u : Unfinished} {read : List Char}
    (h : InConstruct xml inScript u read) : read.head? = some '<' := by
  cases h with
  | tag _ _ _ within | declaration _ within =>
    obtain ⟨more, rfl⟩ := within.exists_lead
    rfl
  | _ => rfl

theorem InConstruct.eq_of_begun {xml inScript : Bool} {read : List Char}
    (h : InConstruct xml inScript .begun read) : read = ['<'] := by
  cases h with
  | begun => rfl
  | tag _ _ _ within | declaration _ within => cases within

theorem InConstruct.next_ne_begun {xml inScript : Bool} {u : Unfinished} {read : List Char}
    (h : InConstruct xml inScript u read) (c : Char) :
    u.next xml inScript (String.ofList read) c ≠ .more .begun := by
  intro more
  obtain ⟨cs, rfl⟩ := List.head?_eq_some_iff.mp h.head?
  have whole := (h.next_more more).eq_of_begun
  simp at whole

namespace Scanner

/-- Where a reaction is that of another scanner, after tokens, so is what follows. -/
theorem readOut_of_react {s t : Scanner} {cur cur' : Cursor} {c : Char} {earlier : List Token}
    (reaction : s.react cur (some c) = (t.react cur' (some c)).after earlier) (rest : List Char) :
    s.readOut cur (c :: rest) = (t.readOut cur' (c :: rest)).after earlier := by
  rw [readOut_cons, reaction, readOut_cons, Reaction.after_after]
  rfl

/-- **Where a construct begins nothing is held back**: what follows is read as after a passage. -/
theorem BeginsAfter.exists_rests {s : Scanner} {front : List Char} (begins : s.BeginsAfter front) :
    ∃ (t : Scanner) (cur : Cursor) (xml : Bool) (before : List Token),
      t.Rests cur xml false (1 + front.count '\n') ∧
      ∀ rest, s.restart.readOut {} (front ++ '<' :: rest) =
        (t.readOut cur ('<' :: rest)).after before := by
  obtain ⟨begun, outside⟩ := begins
  rw [readOn_append] at begun outside
  have line := line_readOn front s.restart {}
  have inForm : InForm (s.restart.readOn {} front).scanner (s.restart.readOn {} front).cursor :=
    inForm_readOn_new s.xmlFirst front
  simp only [readOut_append]
  generalize s.restart.readOn {} front = r at *
  rcases r.scanner.react_cases r.cursor (some '<') with ⟨t, cur, earlier, text, same, reaction⟩ |
    ⟨u, mode, ⟨v, more, reaction⟩ | ⟨k, reaction⟩⟩
  · -- The text before is passed on with the reaction to the `<`.
    have rests := rests_flush text cur
    have script : t.inScript = false := by
      rw [readOn_cons, reaction, react_of_text text] at outside
      exact rests.inScript.symm.trans outside
    rw [script, same, line] at rests
    refine ⟨_, _, _, r.tokens ++ earlier ++ (t.flush cur).tokens, rests, fun rest => ?_⟩
    rw [readOut_of_react reaction, readOut_of_text text cur (.inr rfl), Reaction.after_after,
      Reaction.after_after, List.append_assoc]
  · rw [InForm, mode] at inForm
    obtain ⟨read, within, pending⟩ := inForm
    rw [readOn_cons, reaction] at begun
    obtain rfl : v = .begun := Mode.within.inj begun
    rw [progress, pending] at more
    exact absurd more (within.next_ne_begun '<')
  · rw [readOn_cons, reaction] at begun
    cases begun

theorem Rests.rawsOf_readOut {s : Scanner} {cur : Cursor} {xml inScript : Bool} {line : Nat}
    (h : s.Rests cur xml inScript line) (cs : List Char) :
    rawsOf (s.readOut cur cs).tokens = String.ofList cs := by
  obtain ⟨ps, cut, rfl⟩ := exists_cut xml inScript cs
  obtain ⟨body, last, split, raws, -⟩ := tokensOf_spec line cut
  rw [h.readOut_rawOf cut, split, rawsOf_append, raws]
  simp [rawsOf, Token.isReport, Token.raw]

/-- **A passage that begins where a construct does** is passed on after the tokens of the front, and
what follows it is scanned alone. -/
theorem BeginsAfter.tokens_scan {s : Scanner} {front : List Char} (begins : s.BeginsAfter front) :
    ∃ before xml, rawsOf before = String.ofList front ∧
      ∀ {stream : Stream} (p : Passage) (rest : List Char), stream.failure? = none →
        stream.chars = front ++ p.raw ++ rest → p.raw.head? = some '<' → p.Valid xml false rest →
        p.scriptAfter false = false →
        (s.scan (.ofStream stream)).tokens.toList = before ++
          (p.tokens false (1 + front.count '\n') ++ scannedAfter s (front ++ p.raw) rest) := by
  obtain ⟨t, cur, xml, before, rests, goesOn⟩ := begins.exists_rests
  refine ⟨before, xml, ?_, fun {stream} p rest delivered chars markup valid outside => ?_⟩
  · have raws := congrArg (rawsOf ·.tokens) (goesOn [])
    have whole : s.restart.Rests {} s.xmlFirst false 1 := rests_new s.xmlFirst
    simp only [whole.rawsOf_readOut, Reaction.tokens_after, rawsOf_append,
      rests.rawsOf_readOut, String.ofList_append] at raws
    exact (String.append_left_inj _).mp raws.symm
  · obtain ⟨cs, raw⟩ := List.head?_eq_some_iff.mp markup
    obtain ⟨ps, cut, rfl⟩ := exists_cut (p.xmlAfter xml) false rest
    have known : (s.scan (.ofStream (.whole (String.ofList (front ++ p.raw))))).scanner.xml =
        p.xmlAfter xml := by
      have alone : Cut xml false [p] := ⟨valid.last, trivial⟩
      have after := rests.xml_readOut alone
      rw [rawOf_cons, rawOf_nil, List.append_nil, raw] at after
      rw [scan_of_failure?_eq_none s (Stream.failure?_whole _), Stream.chars_whole,
        String.toList_ofList, raw, goesOn, Reaction.scanner_after, after]
      rfl
    have cutAll : Cut xml false (p :: ps) := ⟨valid, by rwa [outside]⟩
    have tokens := rests.readOut_rawOf cutAll
    have back := tokensOf_eq_scannedAfter s cut known
    rw [rawOf_cons, raw, List.cons_append, tokensOf, outside, Nat.add_assoc] at tokens
    rw [List.count_append] at back
    rw [scan_of_failure?_eq_none s delivered, chars, raw, List.append_assoc, List.cons_append,
      goesOn, Reaction.tokens_after, tokens, ← raw, back]

end Scanner

/-! ### The first mark of a text -/

/-- The first mark of a text, what comes before it and what comes after it. -/
structure FirstMark (mark text body rest : List Char) : Prop where
  split : text = body ++ mark ++ rest
  first : ∀ body' rest', text = body' ++ mark ++ rest' → body.length ≤ body'.length

theorem exists_firstMark {mark : List Char} : ∀ {text : List Char}, mark <:+: text →
    ∃ body rest, FirstMark mark text body rest
  | [], inside => by
    obtain rfl := List.infix_nil.mp inside
    exact ⟨[], [], rfl, fun _ _ _ => Nat.zero_le _⟩
  | c :: text, inside => by
    by_cases begins : mark <+: c :: text
    · obtain ⟨rest, split⟩ := begins
      exact ⟨[], rest, split.symm, fun _ _ _ => Nat.zero_le _⟩
    obtain ⟨body, rest, found⟩ :=
      exists_firstMark ((List.infix_cons_iff.mp inside).resolve_left begins)
    refine ⟨c :: body, rest, by rw [found.split]; rfl, fun body' rest' split => ?_⟩
    cases body' with
    | nil => exact absurd ⟨rest', split.symm⟩ begins
    | cons d body' =>
      obtain ⟨-, split⟩ := List.cons_eq_cons.mp split
      exact Nat.succ_le_succ (found.first body' rest' split)

/-- Up to the first mark there is none, though two of its characters may come before it. -/
theorem FirstMark.absent {d : Char} {text body rest : List Char}
    (h : FirstMark (endMark d) text body rest) : ¬endMark d <:+: body ++ [d, d] := by
  rintro ⟨body', rest', split⟩
  have earlier : text = body' ++ endMark d ++ (rest' ++ '>' :: rest) := by
    rw [h.split, ← List.append_assoc, split]
    simp [endMark]
  have lengths := congrArg List.length split
  have le := h.first body' _ earlier
  simp [endMark] at lengths
  omega

theorem goesOn_of_endless {d : Char} {text : List Char} (endless : ¬endMark d <:+: text)
    (xs : List Char) (c : Char) (ys : List Char) (split : text = xs ++ c :: ys) :
    ¬(c = '>' ∧ 2 ≤ trailing d xs) := by
  rintro ⟨rfl, two⟩
  obtain ⟨front, rfl⟩ := two_le_trailing.mp two
  exact endless ⟨front, ys, by simp [endMark, split]⟩

/-! ### Comments and CDATA sections -/

/-- What opens a comment. -/
def commentOpening : List Char := ['<', '!', '-', '-']

theorem breaksOff_comment {xml : Bool} {text : List Char} (endless : ¬endMark '-' <:+: text) :
    BreaksOff xml false (commentOpening ++ text) none := by
  have opened : Unfinished.begun.feed xml false ['<'] ['!', '-', '-'] = some (.comment "" 0) := rfl
  have fed : (Unfinished.comment "" 0).feed xml false (['<'] ++ ['!', '-', '-']) text = _ :=
    feed_comment _ (goesOn_of_endless endless)
  exact ⟨['!', '-', '-'] ++ text, _, rfl, Unfinished.feed_trans opened fed, trivial⟩

theorem breaksOff_cdata {xml : Bool} {text : List Char} (endless : ¬endMark ']' <:+: text) :
    BreaksOff xml false (cdataOpening ++ text) none := by
  have opened : Unfinished.begun.feed xml false ['<'] ('!' :: '[' :: cdataWord) =
      some (.cdataBegun []) := rfl
  have fed : (Unfinished.cdata 0).feed xml false (['<'] ++ '!' :: '[' :: cdataWord) text = _ :=
    feed_cdata _ (goesOn_of_endless endless)
  obtain ⟨u, begun⟩ : ∃ u, (Unfinished.cdataBegun []).feed xml false
      (['<'] ++ '!' :: '[' :: cdataWord) text = some u := by
    cases text with
    | nil => exact ⟨_, rfl⟩
    | cons c text => exact ⟨_, fed⟩
  exact ⟨'!' :: '[' :: cdataWord ++ text, u, rfl, Unfinished.feed_trans opened begun, trivial⟩

/-- The tokens of a construct that breaks off at the end of the input: one report, and one text. -/
def endlessTokens (front raw : List Char) : List Token :=
  let line : Option Int := some ↑(1 + (front ++ raw).count '\n')
  [.malformed (.ofCode "bad html" line), .text (String.ofList raw) line (String.ofList raw),
    .endOfInput line ""]

/-- How a text after `<!--` is read, if that begins a construct after a front. -/
structure ReadsComment (s : Scanner) (front text : List Char) (tokens : List Token) : Prop where
  /-- A comment is passed on exactly if the text has a mark in it. -/
  passed_iff : (∃ data line raw later, tokens = .comment data line raw :: later) ↔
    endMark '-' <:+: text
  /-- It ends at the first mark, and what follows is scanned alone. -/
  ended : endMark '-' <:+: text → ∃ body rest, FirstMark (endMark '-') text body rest ∧
    tokens = .comment (String.ofList body) (some ↑(1 + front.count '\n'))
        (String.ofList (commentOpening ++ body ++ endMark '-')) ::
      scannedAfter s (front ++ (commentOpening ++ body ++ endMark '-')) rest
  endless : ¬endMark '-' <:+: text → tokens = endlessTokens front (commentOpening ++ text)

/-- How a text after `<![CDATA[` is read, if that begins a construct after a front. -/
structure ReadsCdata (s : Scanner) (front text : List Char) (tokens : List Token) : Prop where
  /-- A report comes first exactly if the text has no mark in it. -/
  reported_iff : (∃ report later, tokens = .malformed report :: later) ↔ ¬endMark ']' <:+: text
  /-- The section ends at the first mark. It leaves no token, and no data in the text that comes
  next, which is the line that follows it. -/
  ended : endMark ']' <:+: text → ∃ body chars rest,
    FirstMark (endMark ']') text body (chars ++ rest) ∧ IsLine chars ∧ EndsText chars rest ∧
    tokens = .text (String.ofList chars)
        (some ↑(1 + (front ++ (cdataOpening ++ body ++ endMark ']')).count '\n'))
        (String.ofList (cdataOpening ++ body ++ endMark ']' ++ chars)) ::
      scannedAfter s (front ++ (cdataOpening ++ body ++ endMark ']' ++ chars)) rest
  endless : ¬endMark ']' <:+: text → tokens = endlessTokens front (cdataOpening ++ text)

section Reads
variable (s : Scanner) {front text body rest : List Char}

theorem readsComment_of_firstMark (found : FirstMark (endMark '-') text body rest) :
    ReadsComment s front text
      (.comment (String.ofList body) (some ↑(1 + front.count '\n'))
          (String.ofList (commentOpening ++ body ++ endMark '-')) ::
        scannedAfter s (front ++ (commentOpening ++ body ++ endMark '-')) rest) := by
  have inside : endMark '-' <:+: text := ⟨body, rest, found.split.symm⟩
  exact ⟨iff_of_true ⟨_, _, _, _, rfl⟩ inside, fun _ => ⟨body, rest, found, rfl⟩,
    fun endless => absurd inside endless⟩

theorem readsComment_of_endless (endless : ¬endMark '-' <:+: text) :
    ReadsComment s front text (endlessTokens front (commentOpening ++ text)) where
  passed_iff := iff_of_false (fun ⟨_, _, _, _, passed⟩ => nomatch passed) endless
  ended inside := absurd inside endless
  endless _ := rfl

theorem readsCdata_of_firstMark {chars : List Char}
    (found : FirstMark (endMark ']') text body (chars ++ rest)) (isLine : IsLine chars)
    (ends : EndsText chars rest) :
    ReadsCdata s front text
      (.text (String.ofList chars)
          (some ↑(1 + (front ++ (cdataOpening ++ body ++ endMark ']')).count '\n'))
          (String.ofList (cdataOpening ++ body ++ endMark ']' ++ chars)) ::
        scannedAfter s (front ++ (cdataOpening ++ body ++ endMark ']' ++ chars)) rest) := by
  have inside : endMark ']' <:+: text := ⟨body, chars ++ rest, found.split.symm⟩
  exact ⟨iff_of_false (fun ⟨_, _, passed⟩ => nomatch passed) (not_not_intro inside),
    fun _ => ⟨body, chars, rest, found, isLine, ends, rfl⟩, fun endless => absurd inside endless⟩

theorem readsCdata_of_endless (endless : ¬endMark ']' <:+: text) :
    ReadsCdata s front text (endlessTokens front (cdataOpening ++ text)) where
  reported_iff := iff_of_true ⟨_, _, rfl⟩ endless
  ended inside := absurd inside endless
  endless _ := rfl

end Reads

theorem scannedAfter_nil (s : Scanner) (front : List Char) :
    scannedAfter s front [] = [.endOfInput (some ↑(1 + front.count '\n')) ""] := by
  have cut (xml : Bool) : Cut xml false [] := trivial
  exact (tokensOf_eq_scannedAfter s (cut _) rfl).symm

/-- A construct that breaks off at the end of the input is the last passage. -/
theorem BreaksOff.valid_last {xml : Bool} {raw : List Char} (h : BreaksOff xml false raw none) :
    Passage.Valid xml false [] (.text (.broken raw) []) :=
  ⟨h, ⟨by simp, by simp⟩, by simpa [Opening.raw] using ne_nil_of_head?_eq h.head?, .inr (.inl rfl)⟩

theorem tokens_broken_last (s : Scanner) (front raw : List Char) :
    Passage.tokens false (1 + front.count '\n') (.text (.broken raw) []) ++
      scannedAfter s (front ++ raw) [] = endlessTokens front raw := by
  rw [scannedAfter_nil]
  simp [endlessTokens, Passage.tokens, Opening.report?, Opening.raw, Opening.shown, Nat.add_assoc]

/-- **How comments and CDATA sections are read**, wherever they begin in a scan of a stream that
does not fail. -/
theorem readsDelimited_scan {s : Scanner} {front : List Char} (begins : s.BeginsAfter front)
    {stream : Stream} (delivered : stream.failure? = none) :
    ∃ before, rawsOf before = String.ofList front ∧
      (∀ text, stream.chars = front ++ commentOpening ++ text → ∃ after,
        (s.scan (.ofStream stream)).tokens.toList = before ++ after ∧
          ReadsComment s front text after) ∧
      ∀ text, stream.chars = front ++ cdataOpening ++ text → ∃ after,
        (s.scan (.ofStream stream)).tokens.toList = before ++ after ∧
          ReadsCdata s front text after := by
  obtain ⟨before, xml, raws, reads⟩ := begins.tokens_scan
  have endless : ∀ {raw}, stream.chars = front ++ raw → BreaksOff xml false raw none →
      (s.scan (.ofStream stream)).tokens.toList = before ++ endlessTokens front raw := by
    intro raw chars breaks
    have own : Passage.raw (.text (.broken raw) []) = raw := List.append_nil raw
    have read := reads (.text (.broken raw) []) [] delivered (by simpa [own] using chars)
      (by rw [own]; exact breaks.head?) breaks.valid_last rfl
    rw [read, own, tokens_broken_last]
  refine ⟨before, raws, fun text chars => ?_, fun text chars => ?_⟩
  · by_cases inside : endMark '-' <:+: text
    · obtain ⟨body, rest, found⟩ := exists_firstMark inside
      let p : Passage := .markup (.comment (String.ofList body))
        (commentOpening ++ body ++ endMark '-')
      have valid : p.Valid xml false rest := ⟨completes_comment found.absent, rfl⟩
      have read := reads p rest delivered
        (by simp [chars, found.split, p, Passage.raw]) rfl valid rfl
      exact ⟨_, read, readsComment_of_firstMark s found⟩
    · rw [List.append_assoc] at chars
      exact ⟨_, endless chars (breaksOff_comment inside), readsComment_of_endless s inside⟩
  · by_cases inside : endMark ']' <:+: text
    · obtain ⟨body, rest, found⟩ := exists_firstMark inside
      obtain ⟨line, rest, rfl, isLine, ends⟩ := exists_isLine rest
      let p : Passage := .text (.silent .cdata (cdataOpening ++ body ++ endMark ']')) line
      have valid : p.Valid xml false rest :=
        ⟨⟨completes_cdata ⟨body, rfl, found.absent⟩, rfl⟩, isLine,
          by simp [Opening.raw, cdataOpening], ends⟩
      have read := reads p rest delivered
        (by simp [chars, found.split, p, Passage.raw, Opening.raw]) rfl valid rfl
      refine ⟨_, ?_, readsCdata_of_firstMark s found isLine ends⟩
      rw [read]
      simp [p, Passage.tokens, Opening.report?, Opening.shown, Opening.raw, Passage.raw,
        Nat.add_assoc]
    · rw [List.append_assoc] at chars
      exact ⟨_, endless chars (breaksOff_cdata inside), readsCdata_of_endless s inside⟩

theorem readsDelimited_scan_overlap :
    let s := Scanner.new false
    let front := ['a', '\n']
    let text := ['>', '-', '-', '-', '>', 'b']
    let stream : Stream := .whole "a\n<!-->--->b"
    s.BeginsAfter front ∧ stream.failure? = none ∧
      ∃ before after, rawsOf before = String.ofList front ∧
        (s.scan (.ofStream stream)).tokens.toList = before ++ after ∧
        ReadsComment s front text after := by
  intro s front text stream
  have begins : s.BeginsAfter front := by decide +kernel
  have delivered : stream.failure? = none := Stream.failure?_whole _
  obtain ⟨before, raws, comments, -⟩ := readsDelimited_scan begins delivered
  obtain ⟨after, tokens, reads⟩ := comments text (by decide +kernel)
  exact ⟨begins, delivered, before, after, raws, tokens, reads⟩

/-- A CDATA section is in the raw text of what comes next. -/
example : ((Scanner.new false).scan (.ofStream (.whole "<![CDATA[a]]]>\nb"))).tokens.toList =
    [.text "\n" (some 1) "<![CDATA[a]]]>\n", .text "b" (some 2) "b", .endOfInput (some 2) ""] := by
  decide +kernel

end HtmlMend.Markup
