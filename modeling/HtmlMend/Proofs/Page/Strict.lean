import HtmlMend.Proofs.Page.Delivery

/-! # Pages: strict work

Strict work on a page is the work that is not strict, cut off at the first report on malformed
markup: it is refused exactly if there is a report, with the first of them, and what is written then
is what had been written when that report came (`mend_strict`). Without a report the two are the
same. -/

namespace HtmlMend.Markup

/-- The report that a token is. -/
def Token.report? : Token → Option Diagnostic
  | .malformed report => some report
  | _ => none

theorem Token.report?_eq_none {token : Token} (h : token.isReport = false) :
    token.report? = none := by
  cases token with
  | malformed report => cases h
  | _ => rfl

theorem clean_or_first_report (tokens : List Token) :
    (∀ token ∈ tokens, token.isReport = false) ∨
      ∃ before report after, tokens = before ++ .malformed report :: after ∧
        ∀ token ∈ before, token.isReport = false := by
  cases first : tokens.find? Token.isReport with
  | none => exact .inl (by simpa using List.find?_eq_none.mp first)
  | some token =>
    obtain ⟨isReport, before, after, split, clean⟩ := List.find?_eq_some_iff_append.mp first
    cases token with
    | malformed report => exact .inr ⟨before, report, after, split, by simpa using clean⟩
    | _ => cases isReport

end HtmlMend.Markup

namespace HtmlMend.Page

open Input Markup Output

/-- The settings, for work that is strict or not. -/
def Settings.withStrict (settings : Settings) (strict : Bool) : Settings := { settings with strict }

/-- A report on strict work on tokens is that on lenient work, cut off at the first report on
malformed markup. -/
structure IsCutOff (settings : Settings) (tokens : List Token) (strict lenient : Report) :
    Prop where
  /-- The problems are the reports in the tokens, in order, each with the file. -/
  problems : lenient.problems.toList =
    (tokens.filterMap Token.report?).map (·.inFile settings.file)
  refused_iff : (∃ problem, strict.ending = .refused problem) ↔ lenient.problems.toList ≠ []
  /-- Strict work is refused with the first problem. What it has written is what lenient work has
  written for the tokens before, and the output of lenient work begins with it. -/
  refused : ∀ problem, strict.ending = .refused problem →
    lenient.problems.toList.head? = some problem ∧
      (∃ before report after, tokens = before ++ .malformed report :: after ∧
        (∀ token ∈ before, token.isReport = false) ∧ problem = report.inFile settings.file ∧
        strict.text = (editAll (settings.withStrict false) before).text) ∧
      ∃ more, lenient.text = strict.text ++ more
  accepted : (∀ problem, strict.ending ≠ .refused problem) → strict = lenient

variable {settings : Settings}

/-! ### Tokens one by one -/

theorem Settings.problem?_eq (settings : Settings) (token : Token) :
    settings.problem? token = token.report?.map (·.inFile settings.file) := by
  cases token <;> rfl

namespace Report

theorem add_withStrict (r : Report) (strict : Bool) (token : Token) :
    r.add (settings.withStrict strict) token = r.add settings token := by
  cases token <;> rfl

theorem toList_problems_addAll (lenient : settings.strict = false) : ∀ (tokens : List Token)
    (r : Report), (r.addAll settings tokens).problems.toList =
      r.problems.toList ++ (tokens.filterMap Token.report?).map (·.inFile settings.file)
  | [], r => by simp [addAll]
  | token :: rest, r => by
    rw [addAll_cons lenient, toList_problems_addAll lenient rest]
    cases h : token.report? <;> simp [add, Settings.problem?_eq, h]

theorem ending_addAll (lenient : settings.strict = false) : ∀ (tokens : List Token) (r : Report),
    (r.addAll settings tokens).ending = r.ending
  | [], _ => rfl
  | token :: rest, r => by rw [addAll_cons lenient, ending_addAll lenient rest]; rfl

/-- As long as there is no report strict work does what lenient work does. -/
theorem addAll_strict_append (rest : List Token) : ∀ {clean : List Token} (r : Report),
    (∀ token ∈ clean, token.isReport = false) →
    r.addAll (settings.withStrict true) (clean ++ rest) =
      (r.addAll (settings.withStrict false) clean).addAll (settings.withStrict true) rest
  | [], _, _ => rfl
  | token :: clean, r, noReports => by
    obtain ⟨noReport, noReports⟩ := List.forall_mem_cons.mp noReports
    have none : (settings.withStrict true).problem? token = none := by
      rw [Settings.problem?_eq, Token.report?_eq_none noReport]
      rfl
    have step : r.addAll (settings.withStrict true) (token :: (clean ++ rest)) =
        (r.add settings token).addAll (settings.withStrict true) (clean ++ rest) := by
      rw [addAll, none, add_withStrict]
      rfl
    rw [List.cons_append, step, addAll_cons rfl, add_withStrict]
    exact addAll_strict_append rest _ noReports

/-- The first report ends strict work; nothing is written for it. -/
theorem addAll_strict_malformed (r : Report) (report : Diagnostic) (rest : List Token) :
    (r.addAll (settings.withStrict true) (.malformed report :: rest)).ending =
        .refused (report.inFile settings.file) ∧
      (r.addAll (settings.withStrict true) (.malformed report :: rest)).text = r.text := by
  rw [addAll]
  exact ⟨rfl, by simp [Settings.withStrict, Settings.problem?, text, add, Outline.edit]⟩

theorem problems_endedBy (r : Report) (failure : Option ReadFailure) :
    (r.endedBy failure).problems = r.problems := by
  unfold endedBy
  split <;> rfl

theorem endedBy_ne_refused {r : Report} (complete : r.ending = .complete)
    (failure : Option ReadFailure) (problem : Diagnostic) :
    (r.endedBy failure).ending ≠ .refused problem := by
  intro refused
  cases failure with
  | none =>
    rw [endedBy_none] at refused
    cases complete.symm.trans refused
  | some why =>
    rw [endedBy_some complete] at refused
    cases refused

end Report

/-! ### Runs -/

theorem filterMap_report?_of_clean {tokens : List Token}
    (clean : ∀ token ∈ tokens, token.isReport = false) : tokens.filterMap Token.report? = [] :=
  List.filterMap_eq_nil_iff.mpr fun token mem => Token.report?_eq_none (clean token mem)

/-- **Strict work on tokens** is the lenient work, cut off at the first report, however the scan
ended. -/
theorem isCutOff_addAll (settings : Settings) (tokens : List Token)
    (failure : Option ReadFailure) :
    IsCutOff settings tokens
      ((({} : Report).addAll (settings.withStrict true) tokens).endedBy failure)
      ((({} : Report).addAll (settings.withStrict false) tokens).endedBy failure) := by
  have problems : ((({} : Report).addAll (settings.withStrict false) tokens).endedBy
      failure).problems.toList = (tokens.filterMap Token.report?).map (·.inFile settings.file) := by
    rw [Report.problems_endedBy, Report.toList_problems_addAll rfl]
    rfl
  -- The two do the same up to the first report, and only there they part.
  rcases clean_or_first_report tokens with clean | ⟨before, report, after, rfl, clean⟩
  · have same : ({} : Report).addAll (settings.withStrict true) tokens =
        ({} : Report).addAll (settings.withStrict false) tokens := by
      have all := @Report.addAll_strict_append settings [] tokens {} clean
      rwa [List.append_nil] at all
    have complete : (({} : Report).addAll (settings.withStrict false) tokens).ending =
      .complete := Report.ending_addAll rfl tokens {}
    have notRefused := Report.endedBy_ne_refused complete failure
    refine ⟨problems, ?_, ?_, fun _ => by rw [same]⟩
    · rw [problems, filterMap_report?_of_clean clean, same]
      exact ⟨fun ⟨problem, refused⟩ => absurd refused (notRefused problem), fun ne => absurd rfl ne⟩
    · intro problem refused
      rw [same] at refused
      exact absurd refused (notRefused problem)
  · obtain ⟨ending, written⟩ := @Report.addAll_strict_malformed settings
      (({} : Report).addAll (settings.withStrict false) before) report after
    rw [← Report.addAll_strict_append _ _ clean] at ending written
    have first : (before ++ .malformed report :: after).filterMap Token.report? =
        report :: after.filterMap Token.report? := by
      rw [List.filterMap_append, filterMap_report?_of_clean clean]
      rfl
    rw [Report.endedBy_of_refused ending]
    refine ⟨problems, ?_, ?_, fun accepted => absurd ending (accepted _)⟩
    · rw [problems, first]
      exact ⟨fun _ => by simp, fun _ => ⟨_, ending⟩⟩
    · intro problem refused
      obtain rfl : report.inFile settings.file = problem := by
        simpa using ending.symm.trans refused
      refine ⟨by rw [problems, first]; rfl,
        ⟨before, report, after, rfl, clean, rfl, written⟩, ?_⟩
      rw [Report.text_endedBy, Report.addAll_append rfl, written]
      exact Report.exists_text_addAll _ _

/-- **Strict work on a page** is the work that is not strict, cut off at the first report. -/
theorem mend_strict (settings : Settings) (xml : Bool) (stream : Stream) :
    IsCutOff settings ((Scanner.new xml).scan (.ofStream stream)).tokens.toList
      (mend (settings.withStrict true) xml stream) (mend (settings.withStrict false) xml stream) :=
  isCutOff_addAll settings _ _

example : (mend (Settings.withStrict {} true) false (.whole "<p>a< b<p")).text = "<p>a" ∧
    (mend (Settings.withStrict {} false) false (.whole "<p>a< b<p")).problems.size = 2 := by
  decide +kernel

end HtmlMend.Page
