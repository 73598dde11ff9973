import HtmlMend.Proofs.CommandLine.Serving
import HtmlMend.Proofs.Page.Strict
import HtmlMend.Proofs.Page.Warning

/-! # Command line: the exit status

Without a wish for the whole log a run of the program ends in one of three ways (`run_status`). It
has the status one, and then something is said. Or it has the status zero and nothing is said. Or it
has the status zero, and all that is said is the warning of a table that the page leaves open: that
warning is part of the log, and does not count as a problem. -/

namespace HtmlMend.CommandLine

open Input Markup Output Page

variable {d : Directory} {arguments : List String} {request : Request}
  {page : ByteArray}

/-- The tokens of a page. -/
def pageTokens (page : ByteArray) : List Token :=
  ((Scanner.new false).scan (.ofStream (.ofBytes page))).tokens.toList

/-- The failure that ends the reading of a page early. -/
def pageFailure? (page : ByteArray) : Option ReadFailure :=
  ((Scanner.new false).scan (.ofStream (.ofBytes page))).failure

/-- The number of tables that are open where a page ends. -/
def tablesLeftOpen (page : ByteArray) : Nat := openTables (pageTokens page).dropLast

/-- What is said of a page that is accepted: nothing, or that a table is open where it ends. -/
def IsQuiet (request : Request) (page : ByteArray) (messages : String) : Prop :=
  (tablesLeftOpen page = 0 ∧ messages = "") ∨
    (0 < tablesLeftOpen page ∧ ∃ line,
      messages = unlines [(Event.tableUnterminated request.input line).logLine])

/-! ### Pages that are read to the end -/

theorem exists_pageTokens_eq (whole : pageFailure? page = none) :
    ∃ body line, pageTokens page = body ++ [.endOfInput line ""] ∧
      ∀ token ∈ body, token.isEnd = false := by
  have delivered : (Stream.ofBytes page).failure? = none := by
    cases failure : (Stream.ofBytes page).failure? with
    | none => rfl
    | some why =>
      rw [pageFailure?, Scanner.scan_of_failure?_eq_some _ failure] at whole
      cases whole
  obtain ⟨ps, cut, raw⟩ := exists_cut false false (Stream.ofBytes page).chars
  obtain ⟨tokens, -⟩ := Scanner.tokens_scan (s := .new false) cut raw.symm delivered
  obtain ⟨body, line, split, -, inner⟩ := tokensOf_spec 1 cut
  exact ⟨body, line, tokens.trans split, fun token mem => (inner token mem).isEnd_raw.1⟩

/-- The warnings of lenient work on a page that is read to its end: there is one exactly if a table
is left open. -/
theorem warnings_mend {settings : Settings} (lenient : settings.strict = false)
    (whole : pageFailure? page = none) :
    (tablesLeftOpen page = 0 ∧
        warnings (mend settings false (.ofBytes page)).events.toList = []) ∨
      (0 < tablesLeftOpen page ∧ ∃ line,
        warnings (mend settings false (.ofBytes page)).events.toList =
          [.tableUnterminated settings.file line]) := by
  obtain ⟨body, line, tokens, inner⟩ := exists_pageTokens_eq whole
  have events : (mend settings false (.ofBytes page)).events.toList =
      eventsFrom settings {} (body ++ [.endOfInput line ""]) := by
    change (((({} : Report).addAll settings (pageTokens page)).endedBy
      (pageFailure? page)).events.toList) = _
    rw [whole, Report.endedBy_none, Report.toList_events_addAll lenient, tokens]
    rfl
  have open_ : tablesLeftOpen page = openTables body := by
    rw [tablesLeftOpen, tokens, List.dropLast_concat]
  have counted := (hasTables_outlineFrom settings body).isSome_iff
  rw [events, open_, warnings_eventsFrom line "" {} inner, Outline.endWarnings]
  cases table : (outlineFrom settings {} body).table with
  | none =>
    rw [table] at counted
    exact .inl ⟨Nat.eq_zero_of_not_pos fun pos => Bool.false_ne_true (counted.mpr pos), rfl⟩
  | some t =>
    rw [table] at counted
    exact .inr ⟨counted.mp rfl, t.line, rfl⟩

/-! ### Work with the status zero -/

/-- Work that strictness does not cut off is lenient work. -/
theorem mend_settings_of_accepted {stream : Stream}
    (accepted : ∀ problem, (mend request.settings false stream).ending ≠ .refused problem) :
    mend request.settings false stream = mend (request.settings.withStrict false) false stream := by
  have cutOff := isCutOff_addAll request.settings
    ((Scanner.new false).scan (.ofStream stream)).tokens.toList
    ((Scanner.new false).scan (.ofStream stream)).failure
  have settings : request.settings.withStrict request.strict = request.settings := rfl
  cases strict : request.strict with
  | false =>
    rw [strict] at settings
    rw [settings]
  | true =>
    rw [strict] at settings
    rw [settings] at cutOff
    exact cutOff.accepted accepted

theorem whole_of_conclusion (h : (request.work page).conclusion = []) :
    pageFailure? page = none ∧
      ∀ problem, (mend request.settings false (.ofBytes page)).ending ≠ .refused problem := by
  have concluded : request.conclusion (mend request.settings false (.ofBytes page)) = [] := h
  have accepted (problem : Diagnostic) :
      (mend request.settings false (.ofBytes page)).ending ≠ .refused problem := by
    intro refused
    rw [Request.conclusion, refused] at concluded
    cases concluded
  refine ⟨?_, accepted⟩
  cases failure : pageFailure? page with
  | none => rfl
  | some why =>
    have ending : (mend request.settings false (.ofBytes page)).ending = .unreadable why := by
      rw [mend_settings_of_accepted accepted]
      change ((({} : Report).addAll (request.settings.withStrict false) (pageTokens page)).endedBy
        (pageFailure? page)).ending = _
      rw [failure, Report.endedBy_some (Report.ending_addAll rfl _ _)]
    rw [Request.conclusion, ending] at concluded
    cases concluded

/-- **What work with the status zero says** is the warning of a table left open, if there is one. -/
theorem messages_work (quiet : request.verbose = false) (h : (request.work page).status = 0) :
    IsQuiet request page (request.work page).messages := by
  have concluded := Work.status_eq_zero_iff.mp h
  obtain ⟨whole, accepted⟩ := whole_of_conclusion concluded
  have records : request.records = fun e => decide (e.level = .warning) := by
    funext e
    rw [Request.records, quiet, Bool.false_or]
  have messages : (request.work page).messages = unlines ((warnings
      (mend (request.settings.withStrict false) false (.ofBytes page)).events.toList).map
        Event.logLine) := by
    rw [Work.messages, concluded, List.append_nil, ← mend_settings_of_accepted accepted]
    simp only [Request.work, records, warnings]
  rw [messages]
  have lenient : (request.settings.withStrict false).strict = false := rfl
  rcases warnings_mend lenient whole with ⟨none, silent⟩ | ⟨some, line, warned⟩
  · exact .inl ⟨none, by rw [silent]; rfl⟩
  · exact .inr ⟨some, line, by rw [warned]; rfl⟩

/-! ### Runs -/

/-- Work that is delivered has the status one and says something, or is quiet. -/
theorem status_deliver (quiet : request.verbose = false) (output : Option Place) :
    ((request.deliver d (request.work page) output).status = 1 ∧
        (request.deliver d (request.work page) output).standardError ≠ "") ∨
      ((request.deliver d (request.work page) output).status = 0 ∧
        IsQuiet request page (request.deliver d (request.work page) output).standardError) := by
  obtain ⟨w, delivered, status, said⟩ :=
    request.exists_delivered d (request.work page) output
  rw [status, said]
  rcases w.status_eq_zero_or_one with zero | one
  · have same : w = request.work page := by
      rcases delivered with same | rfl
      · exact same
      · exact withoutSpace_of_status zero
    rw [same] at zero ⊢
    exact .inr ⟨zero, messages_work quiet zero⟩
  · exact .inl ⟨one, Work.messages_ne_empty one⟩

/-- **The exit status of a run** that does not ask for the whole log. With the status one something
is said. With the status zero nothing is said, except that a table is open where the page ends. -/
theorem run_status (d : Directory) (stdin : ByteArray) (accepted : read arguments = .run request)
    (quiet : request.verbose = false) :
    ((run d stdin arguments).status = 1 ∧ (run d stdin arguments).standardError ≠ "") ∨
      ((run d stdin arguments).status = 0 ∧ ∃ page, request.page? d stdin = some page ∧
        IsQuiet request page (run d stdin arguments).standardError) := by
  rw [run_of_read accepted]
  cases places : request.places d with
  | error message =>
    rw [serve_of_error places]
    exact .inl ⟨rfl, ne_empty_of_places places⟩
  | ok found =>
    obtain ⟨input, output⟩ := found
    rw [serve_of_places places, page?_of_places places]
    rcases status_deliver quiet output with one | ⟨zero, said⟩
    · exact .inl one
    · exact .inr ⟨zero, _, rfl, said⟩

/-- A page without problems that leaves a table open. -/
theorem run_status_table :
    read [] = .run {} ∧ ((run {} "<table>".toUTF8 []).status = 0 ∧
      ∃ page, Request.page? {} {} "<table>".toUTF8 = some page ∧
        IsQuiet {} page (run {} "<table>".toUTF8 []).standardError) := by
  have accepted : read [] = .run {} := by decide +kernel
  have zero : (run {} "<table>".toUTF8 []).status = 0 := by decide +kernel
  refine ⟨accepted, ?_⟩
  rcases run_status {} "<table>".toUTF8 accepted rfl with ⟨one, -⟩ | quiet
  · exact absurd (one.symm.trans zero) (by decide)
  · exact quiet

/-- The status is zero although something is said. -/
theorem run_status_warning :
    read [] = .run {} ∧ (run {} "<table>".toUTF8 []).status = 0 ∧
      (run {} "<table>".toUTF8 []).standardError =
        "fixuphtml.rewriter: WARNING: <stdin>:1: unterminated table\n" := by
  decide +kernel

end HtmlMend.CommandLine
