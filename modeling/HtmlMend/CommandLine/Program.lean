import HtmlMend.CommandLine.Directory
import HtmlMend.CommandLine.Arguments
import HtmlMend.Page.Report

/-! # Command line: the program

The program mends one page. The page is read from a file or from standard input, and the result is
written to a file or to standard output; the input is opened first, and opening the output empties
it. Standard error gets the log, and then the problems with their places. The exit status is zero if
there are none, and two if the arguments are refused. -/

namespace HtmlMend.CommandLine

open Input Output Page

/-- What the work on a page leads to: the text for the output, the lines of the log, and what is
said when the work is over. -/
structure Work where
  output : String
  log : List String
  conclusion : List String
deriving DecidableEq, Repr

/-- Lines of text. -/
def unlines (lines : List String) : String := String.join (lines.map (· ++ "\n"))

namespace Work

/-- The exit status after the work. -/
def status (w : Work) : UInt32 := if w.conclusion.isEmpty then 0 else 1

/-- The text for standard error. -/
def messages (w : Work) : String := unlines (w.log ++ w.conclusion)

end Work

/-- Why a path cannot be opened. -/
inductive OpenError
  /-- The path has a null character. -/
  | nullCharacter
  /-- The mark that ends the options is given as the output, and stands for no path. -/
  | noPath
  | file (why : FileError)
deriving DecidableEq, Repr

namespace Request

/-- The settings for a request. -/
def settings (r : Request) : Settings := { file := r.input, strict := r.strict }

/-- Whether an event is recorded. -/
def records (r : Request) (e : Event) : Bool := r.verbose || e.level = .warning

/-- What is said about a read that failed. -/
def failureText (r : Request) : ReadFailure → String
  | .undecodable fault => "UnicodeDecodeError: " ++ fault.message
  | why => Diagnostic.located r.input none why.message

/-- What is said when the work is over. -/
def conclusion (r : Request) (report : Report) : List String :=
  match report.ending with
  | .complete => report.problems.toList.map Diagnostic.text
  | .refused problem => [problem.text]
  | .unreadable why => [r.failureText why]

/-- The work on a page. -/
def work (r : Request) (page : ByteArray) : Work :=
  let report := mend r.settings false (.ofBytes page)
  { output := report.text
    log := (report.events.toList.filter r.records).map Event.logLine
    conclusion := r.conclusion report }

/-- The work when the output has no space for its text. An empty text needs none. -/
def withoutSpace (r : Request) (w : Work) : Work :=
  if w.output = "" then w
  else { w with output := "", conclusion := [Diagnostic.located r.input none FileError.noSpace.text] }

/-- What is said about a path that cannot be opened. -/
def openFailure (r : Request) (path : String) : OpenError → String
  | .nullCharacter => unlines ["ValueError: embedded null byte"]
  | .noPath => unlines ["TypeError: expected str, bytes or os.PathLike object, not list"]
  | .file why => unlines [Diagnostic.located r.input none (why.textAt path)]

end Request

/-- Whether a path can be looked for. -/
def checkPath (path : String) : Except OpenError Unit :=
  if path.toList.contains '\x00' then .error .nullCharacter else .ok ()

/-- Whether the path of an output can be looked for. -/
def checkOutput (path : String) : Except OpenError Unit :=
  if path = separatorMark then .error .noPath else checkPath path

/-- What a run of the program leaves. -/
structure Outcome where
  status : UInt32
  standardOutput : String
  standardError : String
  directory : Directory

/-- The place of an input. -/
def openInput (d : Directory) (path : String) : Except OpenError Place := do
  checkPath path
  (d.findInput path).mapError .file

/-- The place for an output. -/
def openOutput (d : Directory) (path : String) : Except OpenError Place := do
  checkOutput path
  (d.findOutput path).mapError .file

/-- The place that a path leads to, if there is a path; without one a standard stream is meant. -/
def openPath (request : Request) (path : Option String) (find : String → Except OpenError Place) :
    Except String (Option Place) :=
  match path with
  | none => .ok none
  | some path =>
    match find path with
    | .error e => .error (request.openFailure path e)
    | .ok place => .ok (some place)

/-- Meet a request in a directory. -/
def serve (d : Directory) (stdin : ByteArray) (request : Request) : Outcome :=
  let places : Except String (Option Place × Option Place) := do
    let input ← openPath request request.input (openInput d)
    let output ← openPath request request.output (openOutput d)
    return (input, output)
  match places with
  | .error message => ⟨1, "", message, d⟩
  | .ok (input, output) =>
    let emptied := match output with
      | some place => d.write place .empty
      | none => d
    let page := match input with
      | some place => emptied.content place
      | none => stdin
    let work := request.work page
    match output with
    | none => ⟨work.status, work.output, work.messages, d⟩
    | some .fullDevice =>
      let work := request.withoutSpace work
      ⟨work.status, "", work.messages, d⟩
    | some place => ⟨work.status, "", work.messages, emptied.write place work.output.toUTF8⟩

/-- Run the program in a directory. -/
def run (d : Directory) (stdin : ByteArray) (arguments : List String) : Outcome :=
  match read arguments with
  | .help => ⟨0, helpText, "", d⟩
  | .refuse why => ⟨2, "", refusal why, d⟩
  | .run request => serve d stdin request

end HtmlMend.CommandLine
