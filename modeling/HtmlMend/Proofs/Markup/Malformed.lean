import HtmlMend.Proofs.Markup.Cover

/-! # Markup: reports and malformed text

Outside scripts a text has a `<` in it only if it begins with a construct that breaks off, and such
a text comes directly after the report on it; there are no other reports (`reportsMalformed_scan`).
The proof goes passage by passage: each token fits where it stands (`Reported`). -/

namespace HtmlMend.Markup

open Input

/-! ### Scripts -/

/-- Whether what follows the token is in a script: from the start tag of a script up to its end
tag. -/
def Token.scriptAfter (inScript : Bool) : Token → Bool
  | .startTag tag => inScript || tag.name = "script"
  | .endTag tag => inScript && tag.name ≠ "script"
  | _ => inScript

/-- Whether what follows the tokens is in a script. -/
def endsInScript (tokens : List Token) : Bool := tokens.foldl Token.scriptAfter false

/-- The reports in the tokens of a document are those on its malformed text. -/
structure ReportsMalformed (html : String) (tokens : List Token) : Prop where
  /-- After a report comes a text that begins with `<`; a report is in no script. -/
  text_of_report : ∀ before report after, tokens = before ++ .malformed report :: after →
    endsInScript before = false ∧ ∃ data line raw later,
      after = .text data line raw :: later ∧ data.toList.head? = some '<'
  /-- A text in no script that has a `<` begins with it and comes after a report. -/
  report_of_text : ∀ before data line raw after, tokens = before ++ .text data line raw :: after →
    endsInScript before = false → '<' ∈ data.toList →
      data.toList.head? = some '<' ∧ ∃ earlier report, before = earlier ++ [.malformed report]
  none_iff : (∀ token ∈ tokens, token.isReport = false) ↔
    ∀ before data line raw after, tokens = before ++ .text data line raw :: after →
      endsInScript before = false → '<' ∉ data.toList
  count_le : tokens.countP Token.isReport ≤ html.toList.count '<'

/-! ### Where tokens fit -/

/-- The token fits into a place that is in a script or not, and where a text is due or not since a
report has just come. -/
def Token.Fits (inScript due : Bool) : Token → Prop
  | .malformed _ => due = false ∧ inScript = false
  | .text data _ _ =>
    if due then data.toList.head? = some '<' else inScript = false → '<' ∉ data.toList
  | _ => due = false

/-- Each of the tokens fits where it stands. -/
def Reported (inScript due : Bool) : List Token → Prop
  | [] => due = false
  | token :: rest =>
    token.Fits inScript due ∧ Reported (token.scriptAfter inScript) token.isReport rest

/-- Whether a text is due after tokens: the last of them is a report. -/
def dueAfter (due : Bool) (tokens : List Token) : Bool :=
  tokens.foldl (fun _ token => token.isReport) due

namespace Reported

variable {inScript due : Bool} {tokens before after : List Token}

theorem append : ∀ (before : List Token) {inScript due : Bool},
    Reported inScript due (before ++ after) →
    Reported (before.foldl Token.scriptAfter inScript) (dueAfter due before) after
  | [], _, _, h => h
  | _ :: before, _, _, ⟨_, later⟩ => append before later

/-- Directly after a report comes the text that it is about. -/
theorem text_of_report (h : Reported false false tokens) {report : Diagnostic}
    (split : tokens = before ++ .malformed report :: after) :
    endsInScript before = false ∧ ∃ data line raw later,
      after = .text data line raw :: later ∧ data.toList.head? = some '<' := by
  subst split
  obtain ⟨⟨-, outside⟩, next⟩ := h.append before
  refine ⟨outside, ?_⟩
  match after, next with
  | .text data line raw :: later, ⟨begins, _⟩ => exact ⟨data, line, raw, later, rfl, begins⟩

/-- Directly before a malformed text comes the report on it. -/
theorem report_of_text (h : Reported false false tokens) {data : String} {line : Option Int}
    {raw : String} (split : tokens = before ++ .text data line raw :: after)
    (outside : endsInScript before = false) (markup : '<' ∈ data.toList) :
    data.toList.head? = some '<' ∧ ∃ earlier report, before = earlier ++ [.malformed report] := by
  subst split
  obtain ⟨fits, -⟩ := h.append before
  cases due : dueAfter false before with
  | false =>
    rw [due] at fits
    exact absurd markup (fits outside)
  | true =>
    rw [due] at fits
    refine ⟨fits, ?_⟩
    rcases List.eq_nil_or_concat before with rfl | ⟨earlier, last, rfl⟩
    · cases due
    · cases last with
      | malformed report => exact ⟨earlier, report, List.concat_eq_append⟩
      | _ => simp [dueAfter, Token.isReport] at due

/-- There are reports exactly if there are malformed texts. -/
theorem none_iff (h : Reported false false tokens) : (∀ token ∈ tokens, token.isReport = false) ↔
    ∀ before data line raw after, tokens = before ++ .text data line raw :: after →
      endsInScript before = false → '<' ∉ data.toList := by
  constructor
  · intro none before data line raw after split outside markup
    obtain ⟨-, earlier, report, rfl⟩ := h.report_of_text split outside markup
    have isReport := none (.malformed report) (by simp [split])
    cases isReport
  · intro clean token mem
    cases token with
    | malformed report =>
      obtain ⟨before, after, split⟩ := List.append_of_mem mem
      obtain ⟨outside, data, line, raw, later, rfl, begins⟩ := h.text_of_report split
      have split : tokens = (before ++ [.malformed report]) ++ .text data line raw :: later := by
        simp [split]
      have outside : endsInScript (before ++ [.malformed report]) = false := by
        simpa [endsInScript, Token.scriptAfter] using outside
      exact absurd (List.mem_of_mem_head? begins) (clean _ _ _ _ _ split outside)
    | _ => rfl

end Reported

/-! ### The tokens of passages -/

/-- The token of a construct fits where no text is due, and it begins or ends a script if the
construct does: in a script the only end tag is that of the script. -/
theorem Form.token_spec {xml inScript : Bool} {raw : List Char} {k : Construct}
    (form : Form xml inScript raw k) {line : Nat} {text : String} {token : Token}
    (leaves : k.token? line text = some token) : token.Fits inScript false ∧
      token.isReport = false ∧ token.scriptAfter inScript = k.scriptAfter inScript := by
  cases form with
  | endTag name sp isName spaces script =>
    obtain rfl := Option.some.inj leaves
    refine ⟨rfl, rfl, ?_⟩
    cases inScript with
    | false => rfl
    | true => simp [Token.scriptAfter, Construct.scriptAfter, script rfl]
  | startTag | comment | doctype =>
    obtain rfl := Option.some.inj leaves
    exact ⟨rfl, rfl, rfl⟩
  | cdata | xmlDeclaration => cases leaves

/-- **The tokens of a passage fit** before others that do. -/
theorem Passage.Valid.reported {xml inScript : Bool} {rest : List Char} {p : Passage}
    (valid : p.Valid xml inScript rest) (line : Nat) {tokens : List Token}
    (later : Reported (p.scriptAfter inScript) false tokens) :
    Reported inScript false (p.tokens inScript line ++ tokens) := by
  cases p with
  | markup k raw =>
    obtain ⟨completes, silent⟩ := valid
    obtain ⟨token, leaves⟩ : ∃ token, k.token? line (String.ofList raw) = some token := by
      cases k <;> first | exact ⟨_, rfl⟩ | cases silent
    obtain ⟨fits, noReport, script⟩ := completes.form.token_spec leaves
    rw [Passage.tokens, leaves]
    refine ⟨fits, ?_⟩
    rw [noReport, script]
    exact later
  | text opening chars =>
    obtain ⟨opens, isLine, -⟩ := valid
    -- What is no construct has no `<`; only the text of a construct that breaks off begins with it.
    have clean : inScript = false → '<' ∉ (String.ofList chars).toList := fun _ => by
      simpa using isLine.no_markup
    cases opening with
    | plain => exact ⟨clean, later⟩
    | silent k raw => exact ⟨clean, later⟩
    | broken raw =>
      have breaks : BreaksOff xml inScript raw (chars ++ rest).head? := opens
      obtain ⟨cs, rfl⟩ := List.head?_eq_some_iff.mp breaks.head?
      cases inScript with
      | true => exact ⟨fun outside => absurd outside (by decide), later⟩
      | false => exact ⟨⟨rfl, rfl⟩, by simp [Token.Fits, Token.isReport, Opening.shown], later⟩

theorem Passage.Valid.countP_le {xml inScript : Bool} {rest : List Char} {p : Passage}
    (valid : p.Valid xml inScript rest) (line : Nat) :
    (p.tokens inScript line).countP Token.isReport ≤ p.raw.count '<' := by
  cases p with
  | markup k raw => cases k <;> exact Nat.zero_le _
  | text opening chars =>
    cases opening with
    | plain => exact Nat.zero_le _
    | silent k raw => exact Nat.zero_le _
    | broken raw =>
      have breaks : BreaksOff xml inScript raw (chars ++ rest).head? := valid.1
      have one : (Passage.tokens inScript line (.text (.broken raw) chars)).countP
          Token.isReport ≤ 1 := by
        cases inScript with
        | true => exact Nat.zero_le 1
        | false => exact Nat.le_refl 1
      have markup : '<' ∈ Passage.raw (.text (.broken raw) chars) :=
        List.mem_append_left chars (List.mem_of_mem_head? breaks.head?)
      exact Nat.le_trans one (List.one_le_count_iff.mpr markup)

theorem reported_tokensOf : ∀ {ps : List Passage} {xml inScript : Bool} (line : Nat),
    Cut xml inScript ps → Reported inScript false (tokensOf inScript line ps) ∧
      (tokensOf inScript line ps).countP Token.isReport ≤ (rawOf ps).count '<'
  | [], _, _, _, _ => ⟨⟨rfl, rfl⟩, Nat.le_refl 0⟩
  | p :: ps, xml, inScript, line, ⟨valid, cut⟩ => by
    obtain ⟨later, count⟩ := reported_tokensOf (line + p.raw.count '\n') cut
    refine ⟨valid.reported line later, ?_⟩
    rw [tokensOf, List.countP_append, rawOf_cons, List.count_append]
    exact Nat.add_le_add (valid.countP_le line) count

/-! ### Scans -/

/-- **Reports are on malformed text, and all malformed text is reported**, in a scan of any stream
that does not fail. -/
theorem reportsMalformed_scan (s : Scanner) {stream : Stream} (delivered : stream.failure? = none) :
    ReportsMalformed (String.ofList stream.chars) (s.scan (.ofStream stream)).tokens.toList := by
  obtain ⟨ps, cut, raw⟩ := exists_cut s.xmlFirst false stream.chars
  rw [(Scanner.tokens_scan cut raw.symm delivered).1]
  obtain ⟨reported, count⟩ := reported_tokensOf 1 cut
  exact
    { text_of_report := fun _ _ _ split => reported.text_of_report split
      report_of_text := fun _ _ _ _ _ split => reported.report_of_text split
      none_iff := reported.none_iff
      count_le := by rwa [← raw, String.toList_ofList] }

theorem reportsMalformed_scan_script :
    let stream : Stream := [.text "<p <", .text "<script>a<b</script>"]
    stream.failure? = none ∧ String.ofList stream.chars = "<p <<script>a<b</script>" ∧
      ReportsMalformed "<p <<script>a<b</script>"
        ((Scanner.new false).scan (.ofStream stream)).tokens.toList := by
  intro stream
  have chars : String.ofList stream.chars = "<p <<script>a<b</script>" := by decide +kernel
  have reports := reportsMalformed_scan (.new false) (rfl : stream.failure? = none)
  rw [chars] at reports
  exact ⟨rfl, chars, reports⟩

end HtmlMend.Markup
