import HtmlMend.Markup.Scanner
import HtmlMend.Page.Editor

/-! # Pages: mending a whole page

A page is read, cut into tokens, and edited token by token. The work ends with the input, or early:
at a read that fails, or, if it is strict, at the first malformed markup. What is written until
then stays written. -/

namespace HtmlMend.Page

open Input Markup Output

/-- How the work on a page ended. -/
inductive Ending
  | complete
  /-- Strict work ended at malformed markup. -/
  | refused (report : Diagnostic)
  | unreadable (why : ReadFailure)
deriving DecidableEq, Repr

/-- The outcome of the work on a page. -/
structure Report where
  outline : Outline := {}
  written : Array Fragment := #[]
  problems : Array Diagnostic := #[]
  events : Array Event := #[]
  ending : Ending := .complete

namespace Report

/-- The text that is written. -/
def text (r : Report) : String := textOf r.written.toList

/-- The report after one more token. -/
def add (r : Report) (settings : Settings) (token : Token) : Report :=
  let ⟨outline, written, problems, events, ending⟩ := r
  let edit := outline.edit settings token
  { outline := edit.outline
    written := written ++ edit.written
    problems := problems ++ (settings.problem? token).toList
    events := events ++ edit.events
    ending }

/-- The report after more tokens. Strict work ends at the first problem. -/
def addAll (r : Report) (settings : Settings) : List Token → Report
  | [] => r
  | token :: rest =>
    let next := r.add settings token
    match settings.strict, settings.problem? token with
    | true, some problem => { next with ending := .refused problem }
    | _, _ => next.addAll settings rest

/-- The report if the scan of the page ended at a failure. -/
def endedBy (r : Report) (failure : Option ReadFailure) : Report :=
  match r.ending, failure with
  | .complete, some why => { r with ending := .unreadable why }
  | _, _ => r

end Report

/-- Mend the page that a stream delivers. -/
def mend (settings : Settings) (xml : Bool) (stream : Stream) : Report :=
  let scan := (Scanner.new xml).scan (.ofStream stream)
  (({} : Report).addAll settings scan.tokens.toList).endedBy scan.failure

/-- Mend a page that is a text. -/
def mendText (settings : Settings) (html : String) : Report :=
  mend settings false (.whole html)

end HtmlMend.Page
