import HtmlMend.CommandLine.Program

/-! # The program

The command line over the files of the system: it opens, reads and writes, and leaves the rest to
`Request.work`. -/

namespace HtmlMend.CommandLine

/-- The error of a file that cannot be opened. -/
def fileError : IO.Error → FileError
  | .noFileOrDirectory .. => .notFound
  | .inappropriateType _ number text | .permissionDenied _ number text
  | .invalidArgument _ number text => .other number.toNat text
  | e => .other 5 (toString e)

/-- Open a file at a path that can be looked for. -/
def openFile (path : String) (mode : IO.FS.Mode) : Except OpenError Unit →
    IO (Except OpenError IO.FS.Handle)
  | .error e => return .error e
  | .ok () => do
    match ← (IO.FS.Handle.mk path mode).toBaseIO with
    | .error e => return .error (.file (fileError e))
    | .ok handle => return .ok handle

/-- Open a file to read it. A directory is none. -/
def openReadable (path : String) : IO (Except OpenError IO.FS.Handle) := do
  match ← openFile path .read (checkPath path) with
  | .error e => return .error e
  | .ok handle =>
    if ← (← IO.FS.realPath path).isDir then return .error (.file .isDirectory)
    return .ok handle

/-- Write to standard error and end with a status. -/
def endWith (status : UInt32) (message : String) : IO UInt32 := do
  (← IO.getStderr).putStr message
  return status

/-- Open the output of a request, read the page from its input, and do the work. -/
def serveOutput (request : Request) (input : IO.FS.Stream) : IO UInt32 := do
  let finish (output : IO.FS.Stream) : IO UInt32 := do
    let work := request.work (← input.readBinToEnd)
    let writing : IO Unit := do
      output.putStr work.output
      output.flush
    let work := match ← writing.toBaseIO with
      | .ok () => work
      | .error _ => request.withoutSpace work
    endWith work.status work.messages
  match request.output with
  | none => finish (← IO.getStdout)
  | some path =>
    match ← openFile path .write (checkOutput path) with
    | .error e => endWith 1 (request.openFailure path e)
    | .ok handle => finish (.ofHandle handle)

/-- Open the input of a request, and serve it. -/
def serveFiles (request : Request) : IO UInt32 := do
  match request.input with
  | none => serveOutput request (← IO.getStdin)
  | some path =>
    match ← openReadable path with
    | .error e => endWith 1 (request.openFailure path e)
    | .ok handle => serveOutput request (.ofHandle handle)

end HtmlMend.CommandLine

open HtmlMend.CommandLine in
/-- The program. -/
def main (arguments : List String) : IO UInt32 := do
  match read arguments with
  | .help =>
    (← IO.getStdout).putStr helpText
    return 0
  | .refuse why => endWith 2 (refusal why)
  | .run request => serveFiles request
