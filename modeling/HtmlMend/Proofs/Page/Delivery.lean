import HtmlMend.Proofs.Page.Conservation

/-! # Pages: delivery

A page is its text: the pieces in which a stream delivers it do not matter (`mend_of_delivers`). And
what is written before a read fails is the beginning of what is written for every page that begins
with what was read (`mend_of_failure`), since the tokens passed on until then are the first of those
of such a page. -/

namespace HtmlMend.Page

open Input Markup Output

variable {settings : Settings}

/-! ### Pieces -/

/-- **The pieces in which a text is delivered do not matter**: every scanner passes the same tokens
on as if the text came in one piece, and the report is the same. -/
theorem mend_of_delivers (settings : Settings) (xml : Bool) {text : String} {stream : Stream}
    (delivers : stream.Delivers text) :
    (∀ s : Scanner, s.scan (.ofStream stream) = s.scan (.ofStream (.whole text))) ∧
      mend settings xml stream = mend settings xml (.whole text) := by
  obtain ⟨chars, failure⟩ := delivers.spec
  have same (s : Scanner) : s.scan (.ofStream stream) = s.scan (.ofStream (.whole text)) :=
    s.scan_congr (chars.trans (Stream.chars_whole text).symm)
      (failure.trans (Stream.failure?_whole text).symm)
  exact ⟨same, by simp only [mend, same]⟩

theorem mend_of_delivers_tag :
    Stream.Delivers "<p a='b'>c" [.text "<p a=", .text "'", .text "b'>c"] ∧
      (∀ s : Scanner, s.scan (.ofStream [.text "<p a=", .text "'", .text "b'>c"]) =
        s.scan (.ofStream (.whole "<p a='b'>c"))) ∧
      mend {} false [.text "<p a=", .text "'", .text "b'>c"] =
        mend {} false (.whole "<p a='b'>c") := by
  have delivers : Stream.Delivers "<p a='b'>c" (["<p a=", "'", "b'>c"].map .text) :=
    .texts (by decide) (by decide +kernel)
  exact ⟨delivers, mend_of_delivers {} false delivers⟩

/-! ### Reads that fail -/

namespace Report

theorem endedBy_some {r : Report} (complete : r.ending = .complete) (why : ReadFailure) :
    r.endedBy (some why) = { r with ending := .unreadable why } := by
  unfold endedBy
  rw [complete]

theorem endedBy_of_refused {r : Report} {problem : Diagnostic} (refused : r.ending = .refused problem)
    (failure : Option ReadFailure) : r.endedBy failure = r := by
  unfold endedBy
  rw [refused]

@[simp] theorem text_endedBy (r : Report) (failure : Option ReadFailure) :
    (r.endedBy failure).text = r.text := by
  unfold endedBy
  split <;> rfl

/-- What is written stays written. -/
theorem exists_text_addAll (r : Report) (tokens : List Token) :
    ∃ more, (r.addAll settings tokens).text = r.text ++ more := by
  obtain ⟨m, -, -, written, -⟩ := @exists_take_addAll settings tokens r
  exact ⟨textOf (writtenFrom settings r.outline (tokens.take m)), by
    rw [text, written, textOf_append, text]⟩

end Report

/-- **What is written does not depend on what is not read.** Work on a page of which a read fails
ends there, or is refused before. What it has written until then is the beginning of what is written
for every page that begins with what was read; and if it is refused, so is the work on such a page,
with the same text written. -/
theorem mend_of_failure (settings : Settings) (xml : Bool) {pieces : List String}
    (full : ∀ piece ∈ pieces, piece ≠ "") (why : ReadFailure) {stream : Stream}
    (begins : (String.join pieces).toList <+: stream.chars) :
    let failing := mend settings xml (pieces.map .text ++ [.failure why])
    let report := mend settings xml stream
    (failing.ending = .unreadable why ∨ ∃ problem, failing.ending = .refused problem) ∧
      (∃ more, report.text = failing.text ++ more) ∧
      ∀ problem, failing.ending = .refused problem →
        report.ending = .refused problem ∧ report.text = failing.text := by
  obtain ⟨chars, failure⟩ := Stream.texts_append [.failure why] full
  rw [← chars.trans (List.append_nil _)] at begins
  obtain ⟨later, tokens⟩ := (Scanner.new xml).tokens_scan_of_failure failure begins
  have ends : ((Scanner.new xml).scan (.ofStream (pieces.map .text ++ [.failure why]))).failure =
      some why := by rw [Scanner.scan_of_failure?_eq_some _ failure]
  simp only [mend, ← tokens, ends]
  -- Only the tokens of both scans matter now; work on them is refused or it is not.
  generalize ((Scanner.new xml).scan
    (.ofStream (pieces.map .text ++ [.failure why]))).tokens.toList = read
  rcases @Report.addAll_append_cases settings later read {} rfl with
    ⟨complete, all⟩ | ⟨problem, refused, all⟩
  · have unreadable : ((({} : Report).addAll settings read).endedBy (some why)).ending =
        .unreadable why := by rw [Report.endedBy_some complete]
    refine ⟨.inl unreadable, ?_, fun problem refused => ?_⟩
    · rw [all, Report.text_endedBy, Report.text_endedBy]
      exact Report.exists_text_addAll _ later
    · cases unreadable.symm.trans refused
  · rw [all, Report.endedBy_of_refused refused, Report.endedBy_of_refused refused]
    exact ⟨.inr ⟨problem, refused⟩, ⟨"", by simp⟩, fun problem refused => ⟨refused, rfl⟩⟩

theorem mend_of_failure_table :
    let failing : Stream := [.text "a<table>", .text "<td>b", .failure .device]
    let stream : Stream := [.text "a<table><td>", .text "bc</table"]
    (∀ piece ∈ ["a<table>", "<td>b"], piece ≠ "") ∧
      (String.join ["a<table>", "<td>b"]).toList <+: stream.chars ∧
      (mend {} false failing).text = "a" ∧
      ∃ more, (mend {} false stream).text = (mend {} false failing).text ++ more := by
  intro failing stream
  have full : ∀ piece ∈ ["a<table>", "<td>b"], piece ≠ "" := by decide
  have begins : (String.join ["a<table>", "<td>b"]).toList <+: stream.chars := by decide +kernel
  exact ⟨full, begins, by decide +kernel, (mend_of_failure {} false full .device begins).2.1⟩

end HtmlMend.Page
