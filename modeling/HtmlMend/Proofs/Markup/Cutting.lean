import HtmlMend.Proofs.Markup.Passage

/-! # Markup: scanners cut passages

At the beginning of a passage a scanner holds nothing back (`Rests`). Reading the passage, it passes
the passage's tokens on and rests again (`readOut_passage`), though some of that comes with the
first reaction to what follows. So the tokens of a scan are those of the passages
(`tokens_scan`). -/

namespace HtmlMend.Markup

open Input

namespace Scanner

theorem mode_flush (s : Scanner) (cur : Cursor) : (s.flush cur).scanner.mode = s.mode := by
  unfold flush
  split <;> rfl

theorem line_flush (s : Scanner) (cur : Cursor) : (s.flush cur).cursor.line = cur.line := by
  unfold flush
  split <;> rfl

theorem react_of_text {s : Scanner} (mode : s.mode = .text) (cur : Cursor) (look : Option Char) :
    s.react cur look = s.readText cur look := by simp only [react, mode]

theorem flush_flush (s : Scanner) (cur : Cursor) :
    (s.flush cur).scanner.flush (s.flush cur).cursor =
      ⟨(s.flush cur).scanner, (s.flush cur).cursor, []⟩ := by
  by_cases h : s.text = "" ∧ cur.pending = "" <;> simp [flush, h]

/-! ### Reactions that only delay -/

/-- A construct just completed is passed on with the next reaction. -/
theorem readOut_of_closed {s : Scanner} {k : Construct} (mode : s.mode = .closed k) (cur : Cursor)
    (cs : List Char) :
    s.readOut cur cs = ((s.complete cur k).scanner.readOut (s.complete cur k).cursor cs).after
      (s.complete cur k).tokens := by
  have text : (s.complete cur k).scanner.mode = .text := by cases k <;> rfl
  cases cs with
  | nil => simp only [readOut_nil, react, mode, text]; rfl
  | cons c cs => simp only [readOut_cons, react, mode, text]; simp [Reaction.readText]

theorem readOut_of_lineEnd {s : Scanner} (mode : s.mode = .lineEnd) (cur : Cursor)
    (cs : List Char) :
    s.readOut cur cs =
      (({ s with mode := .text }.flush cur).scanner.readOut
        ({ s with mode := .text }.flush cur).cursor cs).after
        ({ s with mode := .text }.flush cur).tokens := by
  have text : ({ s with mode := .text }.flush cur).scanner.mode = .text := mode_flush _ _
  cases cs with
  | nil => simp only [readOut_nil, react, mode, text]; rfl
  | cons c cs => simp only [readOut_cons, react, mode, text]; simp [Reaction.readText]

/-- A construct that breaks off becomes text with the reaction to what it cannot go on with. -/
theorem readOut_of_stopsBefore {s : Scanner} {u : Unfinished} (mode : s.mode = .within u)
    {cur : Cursor} {read cs : List Char} (pending : cur.pending = String.ofList read)
    (stops : u.StopsBefore s.xml s.inScript read cs.head?) :
    s.readOut cur cs = (({ s with mode := .text }.breakOff cur).scanner.readOut
      ({ s with mode := .text }.breakOff cur).cursor cs).after
      ({ s with mode := .text }.breakOff cur).tokens := by
  cases cs with
  | nil => simp only [readOut_nil, react, mode, progress]; rfl
  | cons c cs =>
    have broken : u.next s.xml s.inScript cur.pending c = .broken := by
      rw [pending]
      exact stops
    simp only [readOut_cons, react, mode, progress, broken]
    simp [Reaction.readText, breakOff]

theorem readOut_of_text {s : Scanner} (mode : s.mode = .text) (cur : Cursor) {cs : List Char}
    (ends : cs = [] ∨ cs.head? = some '<') :
    s.readOut cur cs = ((s.flush cur).scanner.readOut (s.flush cur).cursor cs).after
      (s.flush cur).tokens := by
  have text : (s.flush cur).scanner.mode = .text := (mode_flush s cur).trans mode
  match cs, ends with
  | [], _ =>
    simp only [readOut_nil, react, mode, text, readText, flush_flush]
    simp [Reaction.after]
  | c :: cs, ends =>
    obtain rfl : c = '<' := by simpa using ends
    simp only [readOut_cons, react, mode, text, readText, flush_flush, line_flush]
    simp

/-! ### Text -/

/-- Nothing is held back at the beginning of a line or after a passage. -/
structure Rests (s : Scanner) (cur : Cursor) (xml inScript : Bool) (line : Nat) : Prop where
  mode : s.mode = .text
  text : s.text = ""
  pending : cur.pending = ""
  xml : s.xml = xml
  inScript : s.inScript = inScript
  line : cur.line = line

/-- Text is held back, to be passed on with a line. -/
structure Gathers (s : Scanner) (cur : Cursor) (shown raw : List Char) (line : Nat) : Prop where
  mode : s.mode = .text
  text : s.text = String.ofList shown
  pending : cur.pending = String.ofList raw
  line_of_eq : shown = [] → cur.line = line
  line_of_ne : shown ≠ [] → s.textLine = line

theorem Rests.gathers {s : Scanner} {cur : Cursor} {xml inScript : Bool} {line : Nat}
    (h : Rests s cur xml inScript line) : Gathers s cur [] [] line where
  mode := h.mode
  text := h.text
  pending := h.pending
  line_of_eq _ := h.line
  line_of_ne h := absurd rfl h

theorem Rests.flush {s : Scanner} {cur : Cursor} {xml inScript : Bool} {line : Nat}
    (h : Rests s cur xml inScript line) : s.flush cur = ⟨s, cur, []⟩ :=
  if_pos ⟨h.text, h.pending⟩

theorem rests_flush {s : Scanner} (mode : s.mode = .text) (cur : Cursor) :
    Rests (s.flush cur).scanner (s.flush cur).cursor s.xml s.inScript cur.line := by
  unfold flush
  split
  · next nothing => exact ⟨mode, nothing.1, nothing.2, rfl, rfl, rfl⟩
  · exact ⟨mode, rfl, rfl, rfl, rfl, rfl⟩

theorem Gathers.flush {s : Scanner} {cur : Cursor} {shown raw : List Char} {line : Nat}
    (h : Gathers s cur shown raw line) (ne : raw ≠ []) :
    (s.flush cur).tokens =
        [.text (String.ofList shown) (some line) (String.ofList raw)] ∧
      Rests (s.flush cur).scanner (s.flush cur).cursor s.xml s.inScript cur.line := by
  have some_text : ¬(s.text = "" ∧ cur.pending = "") := by simp [h.pending, ne]
  have at_line : (if s.text = "" then cur.line else s.textLine) = line := by
    by_cases empty : shown = []
    · simp [h.text, empty, h.line_of_eq empty]
    · simp [h.text, empty, h.line_of_ne empty]
  refine ⟨?_, rests_flush h.mode cur⟩
  unfold Scanner.flush
  rw [if_neg some_text]
  simp only [at_line]
  rw [h.text, h.pending]

theorem readText_of_ne {c : Char} (h : c ≠ '<') (s : Scanner) (cur : Cursor) :
    s.readText cur (some c) =
      ⟨{ s with
          mode := if c = '\n' then .lineEnd else .text
          textLine := if s.text = "" then cur.line else s.textLine
          text := s.text.push c }, cur, []⟩ := by
  unfold readText
  split
  · next e => cases e
  · next e => exact absurd (Option.some.inj e) h
  · next d _ e => obtain rfl := Option.some.inj e; rfl

theorem Gathers.push {s : Scanner} {cur : Cursor} {shown raw : List Char} {line : Nat}
    (h : Gathers s cur shown raw line) {c : Char} (markup : c ≠ '<') :
    ∃ t, s.react cur (some c) = ⟨t, cur, []⟩ ∧ t.mode = (if c = '\n' then .lineEnd else .text) ∧
      t.xml = s.xml ∧ t.inScript = s.inScript ∧
      Gathers { t with mode := .text } (cur.push c) (shown ++ [c]) (raw ++ [c]) line := by
  have reaction := (react_of_text h.mode cur (some c)).trans (readText_of_ne markup s cur)
  refine ⟨_, reaction, rfl, rfl, rfl, rfl, ?_, ?_, by simp, fun _ => ?_⟩
  · simp [h.text]
  · simp [h.pending]
  · by_cases empty : shown = []
    · simp [h.text, empty, h.line_of_eq empty]
    · simp [h.text, empty, h.line_of_ne empty]

theorem line_push_add (cur : Cursor) (c : Char) (cs : List Char) :
    (cur.push c).line + cs.count '\n' = cur.line + (c :: cs).count '\n' := by
  by_cases h : c = '\n'
  · simp [Cursor.push, h]
    omega
  · simp [Cursor.push, h]

/-- **Text is passed on line by line.** -/
theorem Gathers.readOut {rest : List Char} : ∀ {chars : List Char} {s : Scanner} {cur : Cursor}
    {shown raw : List Char} {line : Nat}, Gathers s cur shown raw line → raw ++ chars ≠ [] →
    IsLine chars → EndsText chars rest →
    ∃ t cur', Rests t cur' s.xml s.inScript (cur.line + chars.count '\n') ∧
      s.readOut cur (chars ++ rest) = (t.readOut cur' rest).after
        [.text (String.ofList (shown ++ chars)) (some line) (String.ofList (raw ++ chars))]
  | [], s, cur, shown, raw, line, h, ne, _, ends => by
    have ends : rest = [] ∨ rest.head? = some '<' := by simpa [EndsText] using ends
    rw [List.append_nil] at ne
    obtain ⟨tokens, rests⟩ := h.flush ne
    refine ⟨_, _, by simpa using rests, ?_⟩
    rw [List.nil_append, readOut_of_text h.mode cur ends, tokens, List.append_nil, List.append_nil]
  | c :: chars, s, cur, shown, raw, line, h, _, isLine, ends => by
    have markup : c ≠ '<' := fun e => isLine.no_markup (by simp [e])
    obtain ⟨t, react, mode, xml, inScript, gathers⟩ := h.push markup
    rw [List.cons_append, readOut_cons, react]
    by_cases lineEnd : c = '\n'
    · obtain rfl : chars = [] := by
        cases chars with
        | nil => rfl
        | cons d ds => exact absurd (by simp [lineEnd]) isLine.no_lineEnd
      rw [if_pos lineEnd] at mode
      obtain ⟨tokens, rests⟩ := gathers.flush (by simp)
      refine ⟨_, _, by rw [← xml, ← inScript, ← line_push_add]; exact rests, ?_⟩
      rw [List.nil_append, readOut_of_lineEnd mode, tokens]
      rfl
    · rw [if_neg lineEnd] at mode
      have same : { t with mode := Mode.text } = t := by rw [← mode]
      rw [same] at gathers
      have isLine' : IsLine chars :=
        ⟨fun m => isLine.no_markup (by simp [m]), by
          cases chars with
          | nil => simp
          | cons d ds => exact fun m => isLine.no_lineEnd (by simp [m])⟩
      have ends' : EndsText chars rest := by
        rcases ends with ends | ends
        · cases chars with
          | nil => exact absurd (by simpa using ends) lineEnd
          | cons d ds => exact .inl (by simpa using ends)
        · exact .inr ends
      obtain ⟨t', cur', rests, out⟩ := gathers.readOut (by simp) isLine' ends'
      refine ⟨t', cur', ?_, ?_⟩
      · rw [line_push_add, xml, inScript] at rests
        exact rests
      · simp only [out, Reaction.after_after]
        simp

/-! ### Constructs -/

theorem react_of_more {s : Scanner} {u v : Unfinished} (mode : s.mode = .within u) (cur : Cursor)
    {c : Char} (more : u.next s.xml s.inScript cur.pending c = .more v) :
    s.react cur (some c) = ⟨{ s with mode := .within v }, cur, []⟩ := by
  simp only [react, mode, progress, more]

theorem react_of_done {s : Scanner} {u : Unfinished} (mode : s.mode = .within u) (cur : Cursor)
    {c : Char} {k : Construct} (done : u.next s.xml s.inScript cur.pending c = .done k) :
    s.react cur (some c) = ⟨{ s with mode := .closed k }, cur, []⟩ := by
  simp only [react, mode, progress, done]

/-- The place after a text that begins on a line and is not taken yet. -/
def placeAfter (line : Nat) (read : List Char) : Cursor where
  pending := String.ofList read
  line := line + read.count '\n'

theorem push_placeAfter (line : Nat) (read : List Char) (c : Char) :
    (placeAfter line read).push c = placeAfter line (read ++ [c]) := by
  have pending : (String.ofList read).push c = String.ofList (read ++ [c]) := by simp
  unfold placeAfter Cursor.push
  rw [pending, List.count_append, ← Nat.add_assoc]
  by_cases h : c = '\n' <;> simp [h]

theorem readOut_of_feed (line : Nat) (rest : List Char) : ∀ {cs : List Char} {s : Scanner}
    {u v : Unfinished} {read : List Char}, s.mode = .within u →
    u.feed s.xml s.inScript read cs = some v →
    s.readOut (placeAfter line read) (cs ++ rest) =
      { s with mode := .within v }.readOut (placeAfter line (read ++ cs)) rest
  | [], s, u, v, read, mode, fed => by
    obtain rfl : u = v := Option.some.inj fed
    rw [← mode, List.nil_append, List.append_nil]
  | c :: cs, s, u, v, read, mode, fed => by
    rw [Unfinished.feed] at fed
    cases more : u.next s.xml s.inScript (String.ofList read) c with
    | more w =>
      rw [more] at fed
      have ih := readOut_of_feed line rest (s := { s with mode := .within w })
        rfl fed
      rw [List.cons_append, readOut_cons,
        react_of_more mode (placeAfter line read) more, push_placeAfter, ih,
        Reaction.after_nil, List.append_assoc, List.singleton_append]
    | done k => simp [more] at fed
    | broken => simp [more] at fed

/-- The beginning of a construct is read after a passage. -/
theorem Rests.readOut_begun {s : Scanner} {cur : Cursor} {xml inScript : Bool} {line : Nat}
    (h : Rests s cur xml inScript line) {body rest : List Char} {u : Unfinished}
    (fed : Unfinished.begun.feed xml inScript ['<'] body = some u) :
    s.readOut cur ('<' :: body ++ rest) =
      { s with mode := .within u, markupLine := line }.readOut
        (placeAfter line ('<' :: body)) rest := by
  have reaction : s.react cur (some '<') =
      ⟨{ s with mode := .within .begun, markupLine := line }, placeAfter line [], []⟩ := by
    have place : placeAfter line [] = cur := by
      rw [← h.line]
      exact congrArg (Cursor.mk · cur.line) h.pending.symm
    simp only [react, h.mode, readText, h.flush, h.line, place]
  rw [← h.xml, ← h.inScript] at fed
  rw [List.cons_append, readOut_cons, reaction, push_placeAfter, Reaction.after_nil]
  exact readOut_of_feed line rest (s := { s with mode := .within .begun, markupLine := line }) rfl fed

/-- What passing a construct on does. -/
theorem complete_spec (s : Scanner) (cur : Cursor) (k : Construct) :
    (s.complete cur k).tokens = (k.token? s.markupLine cur.pending).toList ∧
      (s.complete cur k).scanner.mode = .text ∧ (s.complete cur k).scanner.text = s.text ∧
      (s.complete cur k).scanner.xml = k.xmlAfter s.xml ∧
      (s.complete cur k).scanner.inScript = k.scriptAfter s.inScript ∧
      (s.complete cur k).cursor.line = cur.line ∧
      (s.complete cur k).cursor.pending = if k.isSilent then cur.pending else "" := by
  cases k <;> exact ⟨rfl, rfl, rfl, rfl, rfl, rfl, rfl⟩

/-- **A whole construct** leaves its token, or stays pending if it leaves none. -/
theorem Rests.readOut_completes {s : Scanner} {cur : Cursor} {xml inScript : Bool} {line : Nat}
    (h : Rests s cur xml inScript line) {raw : List Char} {k : Construct}
    (completes : Completes xml inScript raw k) (rest : List Char) :
    ∃ (t : Scanner) (cur' : Cursor),
      t.Gathers cur' [] (if k.isSilent then raw else []) (line + raw.count '\n') ∧
      t.xml = k.xmlAfter xml ∧ t.inScript = k.scriptAfter inScript ∧
      s.readOut cur (raw ++ rest) =
        (t.readOut cur' rest).after (k.token? line (String.ofList raw)).toList := by
  obtain ⟨body, c, u, rfl, fed, done⟩ := completes
  have step : { s with mode := .within u, markupLine := line }.react
      (placeAfter line ('<' :: body)) (some c) =
      ⟨{ s with mode := .closed k, markupLine := line }, placeAfter line ('<' :: body), []⟩ := by
    rw [← h.xml, ← h.inScript] at done
    exact react_of_done (s := { s with mode := .within u, markupLine := line }) rfl
      (placeAfter line ('<' :: body)) done
  rw [← List.cons_append, List.append_assoc, h.readOut_begun fed, List.singleton_append,
    readOut_cons, step, push_placeAfter, Reaction.after_nil, readOut_of_closed rfl]
  obtain ⟨tokens, mode, text, xml', inScript', line', pending⟩ := complete_spec
    { s with mode := .closed k, markupLine := line } (placeAfter line ('<' :: body ++ [c])) k
  refine ⟨_, _, ⟨mode, text.trans h.text, ?_, fun _ => line', fun ne => absurd rfl ne⟩,
    by rw [xml', h.xml], by rw [inScript', h.inScript], by rw [tokens]; rfl⟩
  rw [pending]
  split <;> rfl

/-- **A construct that breaks off** is reported and held back as text. -/
theorem Rests.readOut_breaksOff {s : Scanner} {cur : Cursor} {xml inScript : Bool} {line : Nat}
    (h : Rests s cur xml inScript line) {raw : List Char}
    (rest : List Char) (breaks : BreaksOff xml inScript raw rest.head?) :
    ∃ (t : Scanner) (cur' : Cursor), t.Gathers cur' raw raw (line + raw.count '\n') ∧
      cur'.line = line + raw.count '\n' ∧ t.xml = xml ∧ t.inScript = inScript ∧
      s.readOut cur (raw ++ rest) = (t.readOut cur' rest).after
        ((Opening.broken raw).report? inScript (line + raw.count '\n')).toList := by
  obtain ⟨body, u, rfl, fed, stops⟩ := breaks
  rw [← h.xml, ← h.inScript] at stops
  rw [h.readOut_begun fed, readOut_of_stopsBefore
    (s := { s with mode := .within u, markupLine := line }) rfl rfl stops]
  refine ⟨({ s with mode := .text, markupLine := line }.breakOff
      (placeAfter line ('<' :: body))).scanner, placeAfter line ('<' :: body),
    ⟨rfl, rfl, rfl, fun e => by simp at e, fun _ => rfl⟩, rfl, h.xml, h.inScript, ?_⟩
  simp only [breakOff, Opening.report?, h.inScript, placeAfter]
  cases inScript <;> rfl

/-! ### Passages -/

/-- **A passage is passed on** as its tokens. -/
theorem Rests.readOut_passage {s : Scanner} {cur : Cursor} {xml inScript : Bool} {line : Nat}
    (h : Rests s cur xml inScript line) {p : Passage} {rest : List Char}
    (valid : p.Valid xml inScript rest) :
    ∃ t cur', Rests t cur' (p.xmlAfter xml) (p.scriptAfter inScript) (line + p.raw.count '\n') ∧
      s.readOut cur (p.raw ++ rest) = (t.readOut cur' rest).after (p.tokens inScript line) := by
  match p, valid with
  | .markup k raw, ⟨completes, silent⟩ =>
    obtain ⟨t, cur', gathers, xml', inScript', out⟩ := h.readOut_completes completes rest
    rw [silent] at gathers
    have same : k.xmlAfter xml = xml := by cases k <;> first | rfl | cases silent
    exact ⟨t, cur', ⟨gathers.mode, gathers.text, gathers.pending, by rw [xml', same]; rfl, inScript',
      gathers.line_of_eq rfl⟩, out⟩
  | .text .plain chars, ⟨_, isLine, ne, ends⟩ =>
    obtain ⟨t, cur', rests, out⟩ := h.gathers.readOut ne isLine ends
    rw [h.xml, h.inScript, h.line] at rests
    exact ⟨t, cur', rests, out⟩
  | .text (.silent k raw) chars, ⟨⟨completes, silent⟩, isLine, ne, ends⟩ =>
    obtain ⟨t, cur', gathers, xml', inScript', out⟩ := h.readOut_completes completes (chars ++ rest)
    rw [silent] at gathers
    have tokens : ∀ line raw, k.token? line raw = none := by
      cases k <;> first | (intros; rfl) | cases silent
    have same : k.scriptAfter inScript = inScript := by cases k <;> first | rfl | cases silent
    obtain ⟨t', cur'', rests, out'⟩ := gathers.readOut ne isLine ends
    rw [xml', inScript', same, gathers.line_of_eq rfl, Nat.add_assoc, ← List.count_append] at rests
    refine ⟨t', cur'', rests, ?_⟩
    rw [Passage.raw, Opening.raw, List.append_assoc, out, out', tokens]
    rfl
  | .text (.broken raw) chars, ⟨breaks, isLine, ne, ends⟩ =>
    obtain ⟨t, cur', gathers, line', xml', inScript', out⟩ :=
      h.readOut_breaksOff (chars ++ rest) breaks
    obtain ⟨t', cur'', rests, out'⟩ := gathers.readOut ne isLine ends
    rw [xml', inScript', line', Nat.add_assoc, ← List.count_append] at rests
    refine ⟨t', cur'', rests, ?_⟩
    rw [Passage.raw, Opening.raw, List.append_assoc, out, out', Reaction.after_after]
    rfl

/-- **The tokens of a document are those of its passages**, and it ends at rest. -/
theorem Rests.readOut_rawOf : ∀ {ps : List Passage} {s : Scanner} {cur : Cursor}
    {xml inScript : Bool} {line : Nat}, Rests s cur xml inScript line → Cut xml inScript ps →
    (s.readOut cur (rawOf ps)).tokens = tokensOf inScript line ps
  | [], s, cur, xml, inScript, line, h, _ => by
    simp only [rawOf_nil, readOut_nil, react, h.mode, readText, h.flush, h.line, h.pending,
      tokensOf]
    rfl
  | p :: ps, s, cur, xml, inScript, line, h, ⟨valid, cut⟩ => by
    obtain ⟨t, cur', rests, out⟩ := h.readOut_passage valid
    rw [rawOf_cons, out, Reaction.tokens_after, rests.readOut_rawOf cut, tokensOf]

theorem rests_new (xml : Bool) : Rests (new xml) {} xml false 1 := ⟨rfl, rfl, rfl, rfl, rfl, rfl⟩

/-- **The tokens of a scan** of passages that a stream delivers. -/
theorem tokens_scan {s : Scanner} {ps : List Passage} (cut : Cut s.xmlFirst false ps)
    {stream : Stream} (chars : stream.chars = rawOf ps) (failure : stream.failure? = none) :
    (s.scan (.ofStream stream)).tokens.toList = tokensOf false 1 ps ∧
      (s.scan (.ofStream stream)).failure = none := by
  rw [scan_of_failure?_eq_none _ failure, chars]
  exact ⟨(rests_new s.xmlFirst).readOut_rawOf cut, rfl⟩

end Scanner

end HtmlMend.Markup
