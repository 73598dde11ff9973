import HtmlMend.Proofs.Markup.Emission

/-! # Markup: a scanner in service

A tokenizer serves one document after the other. At the beginning of a document it resets the flags
and the text that is not passed on, but the line and the mark of the last construct stay as they
are, whether the run before came to its end or was cut short by a read that failed or by a sink that
refused a token (`Tokenizer.run`). They are set before they are read: in the text the tokenizer is a
scanner but for these two, and in a construct it is that scanner (`Tracks`). So after any runs each
document is served as it is by a new tokenizer (`Tokenizer.run_afterAll`). -/

namespace HtmlMend.Markup

open Input

/-- A scanner in service. The text of a construct is what is pending from the mark on. -/
structure Tokenizer where
  scanner : Scanner
  mark : Nat := 0
deriving DecidableEq

/-- A token that is passed on, and the tokenizer as it is then. -/
structure Passed where
  token : Token
  tokenizer : Tokenizer
deriving DecidableEq

/-- The tokenizer's answer to a lookahead. -/
structure Response where
  tokenizer : Tokenizer
  cursor : Cursor
  passed : List Passed := []
deriving DecidableEq

/-- The tokens of an answer. -/
def Response.tokens (r : Response) : List Token := r.passed.map Passed.token

namespace Tokenizer

/-- A tokenizer before its first document. -/
def new (xml : Bool) : Tokenizer := { scanner := .new xml }

/-- The tokenizer at the beginning of a document. -/
def restart (t : Tokenizer) : Tokenizer :=
  { t with
    scanner := { t.scanner with
      xml := t.scanner.xmlFirst, inScript := false, mode := .text, text := "", textLine := 1 } }

/-- The tokenizer in a mode. -/
def inMode (t : Tokenizer) (mode : Mode) : Tokenizer :=
  { t with scanner := { t.scanner with mode } }

/-- Tokens that the tokenizer passes on as it is. -/
def pass (t : Tokenizer) (tokens : List Token) : List Passed := tokens.map (⟨·, t⟩)

/-- The place in the input, with what is pending from the mark on. -/
def sinceMark (t : Tokenizer) (cur : Cursor) : Cursor :=
  { cur with pending := Text.sliceFrom cur.pending t.mark }

/-- Pass the text on. It is forgotten before the sink has it. -/
def flush (t : Tokenizer) (cur : Cursor) : Response :=
  let r := t.scanner.flush cur
  let flushed : Tokenizer := { t with scanner := r.scanner }
  ⟨flushed, r.cursor, flushed.pass r.tokens⟩

/-- The lookahead in text. A construct is marked where it begins. -/
def readText (t : Tokenizer) (cur : Cursor) (look : Option Char) : Response :=
  let r := t.scanner.readText cur look
  { tokenizer :=
      { scanner := r.scanner, mark := if look = some '<' then r.cursor.pending.length else t.mark }
    cursor := r.cursor
    passed := (t.flush cur).tokenizer.pass r.tokens }

/-- Pass a complete construct on. A script begins after the sink has its tag. -/
def complete (t : Tokenizer) (cur : Cursor) (k : Construct) : Response :=
  let r := t.scanner.complete cur k
  let done : Tokenizer := { t with scanner := r.scanner }
  let passing := match k with
    | .startTag .. => t.inMode .text
    | _ => done
  ⟨done, r.cursor, passing.pass r.tokens⟩

/-- Report a construct that breaks off, and go on with its text once the sink has the report. -/
def breakOff (t : Tokenizer) (cur : Cursor) : Response :=
  let r := t.scanner.breakOff (t.sinceMark cur)
  ⟨{ t with scanner := r.scanner }, cur, (t.inMode .text).pass r.tokens⟩

end Tokenizer

/-- The lookahead in text, after an answer to it. -/
def Response.readText (r : Response) (look : Option Char) : Response :=
  let next := r.tokenizer.readText r.cursor look
  { next with passed := r.passed ++ next.passed }

/-- An answer with what was passed on before. -/
def Response.after (passed : List Passed) (r : Response) : Response :=
  { r with passed := passed ++ r.passed }

namespace Tokenizer

/-- The tokenizer's answer to the lookahead. -/
def react (t : Tokenizer) (cur : Cursor) (look : Option Char) : Response :=
  match t.scanner.mode with
  | .text => t.readText cur look
  | .lineEnd => ((t.inMode .text).flush cur).readText look
  | .closed k => (t.complete cur k).readText look
  | .within u =>
    let t := t.inMode .text
    match t.scanner.progress (t.sinceMark cur) u look with
    | .more u => ⟨t.inMode (.within u), cur, []⟩
    | .done k => ⟨t.inMode (.closed k), cur, []⟩
    | .broken => (t.breakOff cur).readText look

/-- The sum of the answers to characters. -/
def readOn (t : Tokenizer) (cur : Cursor) : List Char → Response
  | [] => ⟨t, cur, []⟩
  | c :: cs =>
    let r := t.react cur (some c)
    (r.tokenizer.readOn (r.cursor.push c) cs).after r.passed

/-- The sum of the answers to characters and to the end of the input after them. -/
def readOut (t : Tokenizer) (cur : Cursor) : List Char → Response
  | [] => t.react cur none
  | c :: cs =>
    let r := t.react cur (some c)
    (r.tokenizer.readOut (r.cursor.push c) cs).after r.passed

/-- At the end of the input the tokenizer answers after all characters. -/
theorem readOut_eq : ∀ (cs : List Char) (t : Tokenizer) (cur : Cursor),
    t.readOut cur cs =
      ((t.readOn cur cs).tokenizer.react (t.readOn cur cs).cursor none).after
        (t.readOn cur cs).passed
  | [], _, _ => rfl
  | c :: cs, t, cur => by
    rw [readOut, readOut_eq cs]
    simp only [readOn, Response.after, List.append_assoc]

/-! ### Runs -/

/-- What a tokenizer is run on: a stream, which may fail, and a sink, which may refuse a token. It
decides by the tokens that it was given, the last one included. -/
structure Job where
  stream : Stream
  refuses : List Token → Bool := fun _ => false

/-- How a run ends. -/
inductive Ending
  | complete
  | unreadable (why : ReadFailure)
  | refused
deriving DecidableEq

/-- The outcome of a run: the tokens that the sink was given, and the tokenizer that is left. -/
structure Outcome where
  tokens : List Token
  tokenizer : Tokenizer
  ending : Ending

/-- The place of the token that a sink refuses. -/
def refusedAt? (refuses : List Token → Bool) (tokens : List Token) : Option Nat :=
  (List.range tokens.length).find? fun n => refuses (tokens.take (n + 1))

/-- The tokens up to the one that a sink refuses. -/
def upToRefused (refuses : List Token → Bool) (tokens : List Token) : List Token :=
  match refusedAt? refuses tokens with
  | some n => tokens.take (n + 1)
  | none => tokens

/-- What the tokenizer does with a stream if no token is refused. -/
def serve (t : Tokenizer) (stream : Stream) : Response :=
  match stream.failure? with
  | none => t.restart.readOut {} stream.chars
  | some _ => t.restart.readOn {} stream.chars

/-- Run the tokenizer. A token that is refused ends the run, and leaves the tokenizer as it was when
it passed the token on. -/
def run (t : Tokenizer) (job : Job) : Outcome :=
  let r := t.serve job.stream
  match (refusedAt? job.refuses r.tokens).bind (r.passed[·]?) with
  | some p => ⟨upToRefused job.refuses r.tokens, p.tokenizer, .refused⟩
  | none =>
    { tokens := r.tokens
      tokenizer := r.tokenizer
      ending := match job.stream.failure? with
        | none => .complete
        | some why => .unreadable why }

/-- How a run ends whose sink is given the tokens of a scan. -/
def Ending.ofScan (refuses : List Token → Bool) (scan : Scan) : Ending :=
  if (refusedAt? refuses scan.tokens.toList).isSome then .refused
  else match scan.failure with
    | none => .complete
    | some why => .unreadable why

/-- The tokenizer that is left by runs one after the other. -/
def afterAll (t : Tokenizer) (jobs : List Job) : Tokenizer :=
  jobs.foldl (fun t job => (t.run job).tokenizer) t

end Tokenizer

/-! ### The tokenizer is a scanner -/

/-- Whether the scanner is in a construct or at its end. -/
def Mode.isMarkup : Mode → Bool
  | .within _ | .closed _ => true
  | _ => false

/-- A tokenizer is a scanner; in the text but for the line and the mark of the last construct. -/
inductive Tracks : Tokenizer → Scanner → Prop
  | same (s : Scanner) : Tracks ⟨s, 0⟩ s
  | text (s : Scanner) (line mark : Nat) (outside : s.mode.isMarkup = false) :
    Tracks ⟨{ s with markupLine := line }, mark⟩ s

/-- An answer of a tokenizer is that of a scanner. -/
structure Agrees (r : Response) (r' : Reaction) : Prop where
  tokens : r.tokens = r'.tokens
  cursor : r.cursor = r'.cursor
  tracks : Tracks r.tokenizer r'.scanner

@[simp] theorem map_token_pass (t : Tokenizer) (tokens : List Token) :
    (t.pass tokens).map Passed.token = tokens := by
  simp [Tokenizer.pass, Function.comp_def]

namespace Tracks

variable {t : Tokenizer} {s : Scanner}

theorem exists_line (h : Tracks t s) : ∃ line mark, t = ⟨{ s with markupLine := line }, mark⟩ := by
  cases h with
  | same => exact ⟨s.markupLine, 0, rfl⟩
  | text _ line mark => exact ⟨line, mark, rfl⟩

/-- In markup the tokenizer is the scanner. -/
theorem of_inside (h : Tracks t s) (inside : s.mode.isMarkup = true) : t = ⟨s, 0⟩ := by
  cases h with
  | same => rfl
  | text _ _ _ outside => rw [outside] at inside; cases inside

theorem flush_line (s : Scanner) (line : Nat) (cur : Cursor) :
    ({ s with markupLine := line } : Scanner).flush cur =
      { s.flush cur with scanner := { (s.flush cur).scanner with markupLine := line } } := by
  unfold Scanner.flush
  split <;> rfl

theorem flush (h : Tracks t s) (outside : s.mode.isMarkup = false) (cur : Cursor) :
    Agrees (t.flush cur) (s.flush cur) := by
  obtain ⟨line, mark, rfl⟩ := h.exists_line
  refine ⟨?_, ?_, ?_⟩
  · simp [Tokenizer.flush, Response.tokens, flush_line]
  · simp [Tokenizer.flush, flush_line]
  · rw [Tokenizer.flush, flush_line]
    exact .text _ line mark (by rw [Scanner.mode_flush, outside])

/-- **In the text** the tokenizer answers as the scanner does, and where a construct begins it is
the scanner. -/
theorem readText (h : Tracks t s) (outside : s.mode.isMarkup = false) (cur : Cursor)
    (look : Option Char) : Agrees (t.readText cur look) (s.readText cur look) := by
  have outside' : (s.flush cur).scanner.mode.isMarkup = false := by rw [Scanner.mode_flush, outside]
  obtain ⟨line, mark, rfl⟩ := h.exists_line
  cases look with
  | none =>
    refine ⟨?_, ?_, ?_⟩
    · simp [Tokenizer.readText, Response.tokens, Scanner.readText, flush_line]
    · simp [Tokenizer.readText, Scanner.readText, flush_line]
    · simp only [Tokenizer.readText, Scanner.readText, flush_line]
      exact .text _ line mark outside'
  | some c =>
    by_cases opens : c = '<'
    · subst opens
      refine ⟨?_, ?_, ?_⟩
      · simp [Tokenizer.readText, Response.tokens, Scanner.readText, flush_line]
      · simp [Tokenizer.readText, Scanner.readText, flush_line]
      · have pending : (s.flush cur).cursor.pending.length = 0 := by
          rw [Scanner.pending_flush]
          rfl
        simp only [Tokenizer.readText, Scanner.readText, flush_line, if_true, pending]
        exact .same _
    · let more (s : Scanner) : Scanner :=
        { s with
          mode := if c = '\n' then .lineEnd else .text
          textLine := if s.text = "" then cur.line else s.textLine
          text := s.text.push c }
      have stays {s : Scanner} : s.readText cur (some c) = ⟨more s, cur, []⟩ := by
        unfold Scanner.readText
        split <;> simp_all [more]
      refine ⟨?_, ?_, ?_⟩
      · simp [Tokenizer.readText, Response.tokens, stays]
      · simp [Tokenizer.readText, stays]
      · simp only [Tokenizer.readText, stays]
        refine .text (more s) line _ ?_
        simp only [more]
        split <;> rfl

end Tracks

namespace Agrees

variable {r : Response} {r' : Reaction}

theorem readText (h : Agrees r r') (outside : r'.scanner.mode.isMarkup = false)
    (look : Option Char) : Agrees (r.readText look) (r'.readText look) := by
  obtain ⟨tokens, cursor, tracks⟩ := h.tracks.readText outside r'.cursor look
  unfold Response.readText Reaction.readText
  rw [h.cursor]
  refine ⟨?_, cursor, tracks⟩
  simp only [Response.tokens, List.map_append] at tokens ⊢
  rw [tokens]
  exact congrArg (· ++ _) h.tokens

theorem after {passed : List Passed} {tokens : List Token} (same : passed.map Passed.token = tokens)
    (h : Agrees r r') : Agrees (r.after passed) (r'.after tokens) where
  tokens := by
    have := h.tokens
    simp only [Response.tokens, Response.after, List.map_append, same] at this ⊢
    rw [this, Reaction.tokens_after]
  cursor := h.cursor
  tracks := h.tracks

end Agrees

namespace Tracks

variable {t : Tokenizer} {s : Scanner}

theorem complete (s : Scanner) (cur : Cursor) (k : Construct) :
    Agrees (Tokenizer.complete ⟨s, 0⟩ cur k) (s.complete cur k) := by
  refine ⟨?_, rfl, .same _⟩
  simp [Tokenizer.complete, Response.tokens]

theorem sinceMark (s : Scanner) (cur : Cursor) : Tokenizer.sinceMark ⟨s, 0⟩ cur = cur := by
  simp [Tokenizer.sinceMark, Text.sliceFrom]

theorem breakOff (s : Scanner) (cur : Cursor) :
    Agrees (Tokenizer.breakOff ⟨s, 0⟩ cur) (s.breakOff cur) := by
  refine ⟨?_, rfl, ?_⟩
  · simp [Tokenizer.breakOff, Response.tokens, sinceMark]
  · rw [Tokenizer.breakOff, sinceMark]
    exact .same _

/-- **The tokenizer answers as the scanner does.** -/
theorem react (h : Tracks t s) (cur : Cursor) (look : Option Char) :
    Agrees (t.react cur look) (s.react cur look) := by
  have modes : t.scanner.mode = s.mode := by cases h <;> rfl
  unfold Tokenizer.react Scanner.react
  rw [modes]
  cases mode : s.mode with
  | text => exact h.readText (by rw [mode]; rfl) cur look
  | lineEnd =>
    have inText : Tracks (t.inMode .text) { s with mode := .text } := by
      obtain ⟨line, mark, rfl⟩ := h.exists_line
      exact .text { s with mode := .text } line mark rfl
    exact (inText.flush rfl cur).readText (by rw [Scanner.mode_flush]; rfl) look
  | closed k =>
    obtain rfl := h.of_inside (by rw [mode]; rfl)
    refine (complete s cur k).readText ?_ look
    cases k <;> rfl
  | within u =>
    obtain rfl := h.of_inside (by rw [mode]; rfl)
    simp only [Tokenizer.inMode, sinceMark]
    cases Scanner.progress { s with mode := .text } cur u look with
    | more u => exact ⟨rfl, rfl, .same _⟩
    | done k => exact ⟨rfl, rfl, .same _⟩
    | broken => exact (breakOff _ cur).readText rfl look

theorem readOn : ∀ (cs : List Char) {t : Tokenizer} {s : Scanner} (cur : Cursor), Tracks t s →
    Agrees (t.readOn cur cs) (s.readOn cur cs)
  | [], _, _, _, h => ⟨rfl, rfl, h⟩
  | c :: cs, t, s, cur, h => by
    obtain ⟨tokens, cursor, tracks⟩ := h.react cur (some c)
    rw [Tokenizer.readOn, Scanner.readOn_cons, cursor]
    exact (readOn cs _ tracks).after tokens

theorem readOut (cs : List Char) (cur : Cursor) (h : Tracks t s) :
    Agrees (t.readOut cur cs) (s.readOut cur cs) := by
  obtain ⟨tokens, cursor, tracks⟩ := readOn cs cur h
  have scanner := Scanner.readOut_append [] cs s cur
  rw [List.append_nil, Scanner.readOut_nil] at scanner
  rw [Tokenizer.readOut_eq, scanner, cursor]
  exact (tracks.react _ none).after tokens

theorem restart (t : Tokenizer) : Tracks t.restart (.new t.scanner.xmlFirst) :=
  .text (.new t.scanner.xmlFirst) t.scanner.markupLine t.mark rfl

end Tracks

/-! ### What a run leaves -/

namespace Scanner

variable (s : Scanner) (cur : Cursor)

@[simp] theorem xmlFirst_flush : (s.flush cur).scanner.xmlFirst = s.xmlFirst := by
  unfold flush
  split <;> rfl

@[simp] theorem xmlFirst_readText (look : Option Char) :
    (s.readText cur look).scanner.xmlFirst = s.xmlFirst := by
  unfold readText
  split
  · exact s.xmlFirst_flush cur
  · exact s.xmlFirst_flush cur
  · rfl

@[simp] theorem xmlFirst_complete (k : Construct) :
    (s.complete cur k).scanner.xmlFirst = s.xmlFirst := by
  cases k <;> rfl

end Scanner

/-- The tokenizer begins each document as `xml` says, now and whenever it passes a token on. -/
structure Response.Begins (xml : Bool) (r : Response) : Prop where
  left : r.tokenizer.scanner.xmlFirst = xml
  passed : ∀ p ∈ r.passed, p.tokenizer.scanner.xmlFirst = xml

namespace Tokenizer

theorem xmlFirst_pass {t : Tokenizer} {tokens : List Token} : ∀ p ∈ t.pass tokens,
    p.tokenizer.scanner.xmlFirst = t.scanner.xmlFirst := by
  intro p mem
  obtain ⟨token, -, rfl⟩ := List.mem_map.mp mem
  rfl

variable (t : Tokenizer) (cur : Cursor)

theorem begins_flush : (t.flush cur).Begins t.scanner.xmlFirst where
  left := t.scanner.xmlFirst_flush cur
  passed p mem := (xmlFirst_pass p mem).trans (t.scanner.xmlFirst_flush cur)

theorem begins_readText (look : Option Char) : (t.readText cur look).Begins t.scanner.xmlFirst where
  left := t.scanner.xmlFirst_readText cur look
  passed p mem := (xmlFirst_pass p mem).trans (t.scanner.xmlFirst_flush cur)

theorem begins_complete (k : Construct) : (t.complete cur k).Begins t.scanner.xmlFirst where
  left := t.scanner.xmlFirst_complete cur k
  passed p mem := (xmlFirst_pass p mem).trans (by cases k <;> rfl)

theorem begins_breakOff : (t.breakOff cur).Begins t.scanner.xmlFirst where
  left := rfl
  passed p mem := (xmlFirst_pass p mem : _ = (t.inMode .text).scanner.xmlFirst)

end Tokenizer

namespace Response.Begins

variable {xml : Bool} {r : Response}

theorem readText (h : r.Begins xml) (look : Option Char) : (r.readText look).Begins xml := by
  have next := r.tokenizer.begins_readText r.cursor look
  rw [h.left] at next
  exact ⟨next.left, List.forall_mem_append.mpr ⟨h.passed, next.passed⟩⟩

theorem after {before : Response} (h : r.Begins xml) (earlier : before.Begins xml) :
    (r.after before.passed).Begins xml :=
  ⟨h.left, List.forall_mem_append.mpr ⟨earlier.passed, h.passed⟩⟩

end Response.Begins

namespace Tokenizer

theorem begins_react (t : Tokenizer) (cur : Cursor) (look : Option Char) :
    (t.react cur look).Begins t.scanner.xmlFirst := by
  unfold react
  split
  · exact t.begins_readText cur look
  · exact ((t.inMode .text).begins_flush cur).readText look
  · exact (t.begins_complete cur _).readText look
  · dsimp only
    split
    · exact ⟨rfl, List.forall_mem_nil _⟩
    · exact ⟨rfl, List.forall_mem_nil _⟩
    · exact ((t.inMode .text).begins_breakOff cur).readText look

theorem begins_readOn : ∀ (cs : List Char) (t : Tokenizer) (cur : Cursor),
    (t.readOn cur cs).Begins t.scanner.xmlFirst
  | [], _, _ => ⟨rfl, List.forall_mem_nil _⟩
  | c :: cs, t, cur => by
    have here := t.begins_react cur (some c)
    have rest := begins_readOn cs (t.react cur (some c)).tokenizer
      ((t.react cur (some c)).cursor.push c)
    rw [here.left] at rest
    exact rest.after here

theorem begins_readOut (cs : List Char) (t : Tokenizer) (cur : Cursor) :
    (t.readOut cur cs).Begins t.scanner.xmlFirst := by
  have read := begins_readOn cs t cur
  have last := (t.readOn cur cs).tokenizer.begins_react (t.readOn cur cs).cursor none
  rw [read.left] at last
  rw [readOut_eq]
  exact last.after read

/-! ### Runs -/

theorem begins_serve (t : Tokenizer) (stream : Stream) :
    (t.serve stream).Begins t.scanner.xmlFirst := by
  unfold serve
  split
  · exact begins_readOut stream.chars t.restart {}
  · exact begins_readOn stream.chars t.restart {}

/-- **However a run ends**, it leaves a tokenizer with the option that it had. -/
theorem xmlFirst_run (t : Tokenizer) (job : Job) :
    (t.run job).tokenizer.scanner.xmlFirst = t.scanner.xmlFirst := by
  have begins := t.begins_serve job.stream
  unfold run
  dsimp only
  split
  · next p refused =>
    obtain ⟨n, -, passed⟩ := Option.bind_eq_some_iff.mp refused
    exact begins.passed p (List.mem_of_getElem? passed)
  · exact begins.left

theorem xmlFirst_afterAll (t : Tokenizer) : ∀ jobs : List Job,
    (t.afterAll jobs).scanner.xmlFirst = t.scanner.xmlFirst
  | [] => rfl
  | job :: jobs => by
    rw [afterAll, List.foldl_cons]
    exact (xmlFirst_afterAll _ jobs).trans (t.xmlFirst_run job)

theorem serve_eq_scan (t : Tokenizer) (stream : Stream) :
    let scan := (Scanner.new t.scanner.xmlFirst).scan (.ofStream stream)
    scan.tokens.toList = (t.serve stream).tokens ∧ scan.failure = stream.failure? ∧
      Tracks (t.serve stream).tokenizer scan.scanner := by
  intro scan
  have restart : (Scanner.new t.scanner.xmlFirst).restart = .new t.scanner.xmlFirst := rfl
  unfold serve
  cases failure : stream.failure? with
  | none =>
    obtain ⟨tokens, -, tracks⟩ := Tracks.readOut stream.chars {} (Tracks.restart t)
    have eq : scan = _ := Scanner.scan_of_failure?_eq_none _ failure
    rw [eq, restart]
    exact ⟨by simpa using tokens.symm, rfl, tracks⟩
  | some why =>
    obtain ⟨tokens, -, tracks⟩ := Tracks.readOn stream.chars {} (Tracks.restart t)
    have eq : scan = _ := Scanner.scan_of_failure?_eq_some _ failure
    rw [eq, restart]
    exact ⟨by simpa using tokens.symm, rfl, tracks⟩

theorem lt_of_refusedAt? {refuses : List Token → Bool} {tokens : List Token} {n : Nat}
    (h : refusedAt? refuses tokens = some n) : n < tokens.length :=
  List.mem_range.mp (List.mem_of_find?_eq_some h)

theorem run_of_refused {t : Tokenizer} {job : Job} {n : Nat}
    (refused : refusedAt? job.refuses (t.serve job.stream).tokens = some n) :
    (t.run job).tokens = upToRefused job.refuses (t.serve job.stream).tokens ∧
      (t.run job).ending = .refused := by
  have inside : n < (t.serve job.stream).passed.length := by
    simpa [Response.tokens] using lt_of_refusedAt? refused
  simp only [run, refused, Option.bind_some, List.getElem?_eq_getElem inside, and_self]

theorem run_of_taken {t : Tokenizer} {job : Job}
    (taken : refusedAt? job.refuses (t.serve job.stream).tokens = none) :
    t.run job =
      { tokens := (t.serve job.stream).tokens
        tokenizer := (t.serve job.stream).tokenizer
        ending := match job.stream.failure? with
          | none => .complete
          | some why => .unreadable why } := by
  simp only [run, taken, Option.bind_none]

/-- **A run is a scan** on a new scanner with the same option, up to the token that is refused. -/
theorem run_eq_scan (t : Tokenizer) (job : Job) :
    let scan := (Scanner.new t.scanner.xmlFirst).scan (.ofStream job.stream)
    (t.run job).tokens = upToRefused job.refuses scan.tokens.toList ∧
      (t.run job).ending = .ofScan job.refuses scan ∧
      ((t.run job).ending = .complete →
        (t.run job).tokenizer.scanner.xml = scan.scanner.xml ∧
          (t.run job).tokenizer.scanner.inScript = scan.scanner.inScript) := by
  obtain ⟨tokens, failure, tracks⟩ := t.serve_eq_scan job.stream
  simp only [Ending.ofScan, tokens, failure]
  cases refused : refusedAt? job.refuses (t.serve job.stream).tokens with
  | some n =>
    obtain ⟨given, ending⟩ := run_of_refused refused
    exact ⟨given, by simp [ending], by simp [ending]⟩
  | none =>
    obtain ⟨line, mark, left⟩ := tracks.exists_line
    rw [run_of_taken refused]
    exact ⟨by simp [upToRefused, refused], by simp, fun _ => by simp [left]⟩

end Tokenizer

namespace Scanner

/-- The scanner that is left by scans one after the other. -/
def afterAll (s : Scanner) (streams : List Stream) : Scanner :=
  streams.foldl (fun s stream => (s.scan (.ofStream stream)).scanner) s

/-- Of the scanner before it a scan has only the option. -/
theorem scan_eq_of_xmlFirst {s s' : Scanner} (same : s.xmlFirst = s'.xmlFirst) (r : Reader) :
    s.scan r = s'.scan r := by
  rw [scan, scan, restart, restart, same]

theorem xmlFirst_scan (s : Scanner) (stream : Stream) :
    (s.scan (.ofStream stream)).scanner.xmlFirst = s.xmlFirst := by
  have begins := Tokenizer.begins_serve ⟨s, 0⟩ stream
  obtain ⟨-, -, tracks⟩ := Tokenizer.serve_eq_scan ⟨s, 0⟩ stream
  obtain ⟨line, mark, left⟩ := tracks.exists_line
  have same : s.scan (.ofStream stream) = (new s.xmlFirst).scan (.ofStream stream) :=
    scan_eq_of_xmlFirst rfl _
  rw [same]
  simpa [left] using begins.left

/-- **A scan does not depend on the scans before it.** -/
theorem scan_afterAll (stream : Stream) : ∀ (streams : List Stream) (s : Scanner),
    (s.afterAll streams).scan (.ofStream stream) = s.scan (.ofStream stream)
  | [], _ => rfl
  | first :: streams, s => by
    rw [afterAll, List.foldl_cons]
    exact (scan_afterAll stream streams _).trans (scan_eq_of_xmlFirst (s.xmlFirst_scan first) _)

end Scanner

namespace Tokenizer

/-- **A tokenizer can be used again.** After any runs, each of which may have ended with its
document, at a read that failed or at a token that was refused, a run gives its sink the tokens that
a new tokenizer gives it, ends as that does, and if it is complete leaves the flags that that
leaves. These are the tokens and the flags of a scan by a scanner that has scanned what came
before. -/
theorem run_afterAll (xml : Bool) (earlier : List Job) (job : Job) :
    let reused := ((new xml).afterAll earlier).run job
    let fresh := (new xml).run job
    let scan := ((Scanner.new xml).afterAll (earlier.map Job.stream)).scan (.ofStream job.stream)
    reused.tokens = fresh.tokens ∧ reused.ending = fresh.ending ∧
      (reused.ending = .complete →
        reused.tokenizer.scanner.xml = fresh.tokenizer.scanner.xml ∧
          reused.tokenizer.scanner.inScript = fresh.tokenizer.scanner.inScript) ∧
      fresh.tokens = upToRefused job.refuses scan.tokens.toList ∧
      fresh.ending = .ofScan job.refuses scan ∧
      (fresh.ending = .complete →
        fresh.tokenizer.scanner.xml = scan.scanner.xml ∧
          fresh.tokenizer.scanner.inScript = scan.scanner.inScript) := by
  intro reused fresh scan
  have kept : ((new xml).afterAll earlier).scanner.xmlFirst = xml :=
    (new xml).xmlFirst_afterAll earlier
  have same : scan = (Scanner.new xml).scan (.ofStream job.stream) :=
    Scanner.scan_afterAll job.stream (earlier.map Job.stream) (.new xml)
  rw [same]
  obtain ⟨tokens, ending, flags⟩ := ((new xml).afterAll earlier).run_eq_scan job
  obtain ⟨tokens', ending', flags'⟩ := (new xml).run_eq_scan job
  rw [kept] at tokens ending flags
  refine ⟨tokens.trans tokens'.symm, ending.trans ending'.symm, fun complete => ?_, tokens',
    ending', flags'⟩
  obtain ⟨xmlSame, scriptSame⟩ := flags complete
  obtain ⟨xmlSame', scriptSame'⟩ := flags' ((ending'.trans ending.symm).trans complete)
  exact ⟨xmlSame.trans xmlSame'.symm, scriptSame.trans scriptSame'.symm⟩

/-- A run after one that was cut short by its sink in an XML declaration and a script, with a stale
mark and text that was not passed on. -/
example :
    let cut : Job :=
      { stream := .whole "<?xml?><script>\n<a", refuses := fun tokens => tokens.length = 3 }
    let left := (new false).afterAll [cut]
    let next : Job := { stream := .whole "<p>" }
    left.scanner.xml = true ∧ left.scanner.inScript = true ∧
      (left.run next).tokens = ((new false).run next).tokens := by
  decide +kernel

end Tokenizer

end HtmlMend.Markup
