import HtmlMend.Text.Quoted

/-! # Command line: arguments

The arguments name at most one input and options in any order. A short option is one letter; letters
of options without a value can be joined, and a value can follow its letter; an `=` may stand
between the first letter and what is joined to it. A long option can be cut short as long as no
other begins the same way; its value follows an `=` or is the next argument. After `--` nothing is
an option. -/

namespace HtmlMend.CommandLine

/-- What the arguments ask for. -/
structure Request where
  input : Option String := none
  output : Option String := none
  strict : Bool := false
  verbose : Bool := false
deriving DecidableEq, Repr

/-- An option. -/
inductive Flag
  | help
  | output
  | strict
  | verbose
deriving DecidableEq, Repr

namespace Flag

/-- All options. -/
def all : List Flag := [.help, .output, .strict, .verbose]

/-- The letter of an option. -/
def letter? : Flag → Option Char
  | .help => some 'h'
  | .output => some 'o'
  | .strict => none
  | .verbose => some 'v'

/-- The word of an option. -/
def word : Flag → String
  | .help => "help"
  | .output => "output"
  | .strict => "strict"
  | .verbose => "verbose"

/-- An option as it is given by its word. -/
def long (f : Flag) : String := "--" ++ f.word

/-- The ways to give an option. -/
def names (f : Flag) : String :=
  match f.letter? with
  | some c => "-" ++ c.toString ++ "/" ++ f.long
  | none => f.long

/-- Whether an option has a value. -/
def takesValue : Flag → Bool
  | .output => true
  | _ => false

/-- The option of a letter. -/
def ofLetter? (c : Char) : Option Flag := all.find? fun f => f.letter? = some c

end Flag

/-- Why arguments are refused. -/
inductive UsageError
  /-- An option cut short could be any of several. -/
  | ambiguous (argument : String) (candidates : List Flag)
  /-- An option lacks its value. -/
  | missingValue (flag : Flag)
  /-- An option that has no value is given one. -/
  | unexpectedValue (flag : Flag) (value : String)
  /-- Arguments have no meaning. -/
  | unrecognized (arguments : List String)
deriving DecidableEq, Repr

/-- A usage error in words. -/
def UsageError.text : UsageError → String
  | .ambiguous argument candidates =>
    "ambiguous option: " ++ argument ++ " could match " ++
      ", ".intercalate (candidates.map Flag.long)
  | .missingValue flag => "argument " ++ flag.names ++ ": expected one argument"
  | .unexpectedValue flag value =>
    "argument " ++ flag.names ++ ": ignored explicit argument " ++ Text.quoted value
  | .unrecognized arguments => "unrecognized arguments: " ++ " ".intercalate arguments

/-! ### Kinds of arguments -/

/-- An argument by its form. -/
inductive Argument
  /-- Not an option. -/
  | plain (text : String)
  /-- The mark that ends the options. -/
  | separator
  /-- A short option and what follows its letter. -/
  | short (flag : Flag) (attached : List Char)
  /-- A long option and the value after its `=`. -/
  | long (flag : Flag) (value : Option String)
  /-- An option that there is not. -/
  | unknown (text : String)
deriving DecidableEq, Repr

/-- The mark that ends the options. -/
def separatorMark : String := "--"

/-- Whether characters are digits. -/
def areDigits (cs : List Char) : Bool := cs.all Text.isDigit

/-- Whether the characters after a minus sign make a number, a line end after it included. -/
def isNumber (cs : List Char) : Bool :=
  let cs := if cs.getLast? = some '\n' then cs.dropLast else cs
  match cs.dropWhile Text.isDigit with
  | [] => !cs.isEmpty
  | '.' :: decimals => !decimals.isEmpty && areDigits decimals
  | _ => false

/-- An argument that begins like an option and is none: a number or a text with spaces is plain. -/
def classifyOther (argument : String) (afterDash : List Char) : Argument :=
  if isNumber afterDash || argument.toList.contains ' ' then .plain argument else .unknown argument

/-- The form of an argument that begins with two dashes. -/
def classifyLong (argument : String) (afterDashes : List Char) : Except UsageError Argument :=
  let word := afterDashes.takeWhile (· ≠ '=')
  let value := match afterDashes.dropWhile (· ≠ '=') with
    | [] => none
    | _ :: value => some (String.ofList value)
  match Flag.all.filter fun f => word.isPrefixOf f.word.toList with
  | [] => .ok (classifyOther argument ('-' :: afterDashes))
  | [flag] => .ok (.long flag value)
  | candidates => .error (.ambiguous argument candidates)

/-- The form of an argument before the mark that ends the options. -/
def classifyOne (argument : String) : Except UsageError Argument :=
  match argument.toList with
  | ['-', '-'] => .ok .separator
  | '-' :: '-' :: rest => classifyLong argument rest
  | '-' :: letter :: rest =>
    match Flag.ofLetter? letter with
    | some flag => .ok (.short flag rest)
    | none => .ok (classifyOther argument (letter :: rest))
  | _ => .ok (.plain argument)

/-- The forms of arguments. -/
def classify : List String → Except UsageError (List Argument)
  | [] => .ok []
  | argument :: rest => do
    match ← classifyOne argument with
    | .separator => return .separator :: rest.map .plain
    | a => return a :: (← classify rest)

/-! ### Joined options -/

/-- The value of the last option of an argument. -/
inductive Value
  /-- The option has none. -/
  | absent
  | given (value : String)
  /-- It is the next argument. -/
  | next
deriving DecidableEq, Repr

/-- The options of one argument: those without a value, and the value if the last is the output. -/
structure Bundle where
  flags : List Flag
  value : Value := .absent
deriving DecidableEq, Repr

/-- The options of an argument that gives an option by its word. -/
def longBundle (flag : Flag) (value : Option String) : Except UsageError Bundle :=
  match flag.takesValue, value with
  | true, some value => .ok ⟨[], .given value⟩
  | true, none => .ok ⟨[], .next⟩
  | false, some value => .error (.unexpectedValue flag value)
  | false, none => .ok ⟨[flag], .absent⟩

/-- The options of letters that are joined: an option and the characters after its letter. The
first option with a value takes all that follows, an `=` included. -/
def joined (flag : Flag) : List Char → Except UsageError Bundle
  | [] => longBundle flag none
  | c :: rest =>
    if flag.takesValue then longBundle flag (some (String.ofList (c :: rest)))
    else match Flag.ofLetter? c with
      | some other => do
        let b ← joined other rest
        return { b with flags := flag :: b.flags }
      | none => .error (.unexpectedValue flag (String.ofList (c :: rest)))

/-- The options of an argument that gives an option by its letter. An `=` right after the first
letter is left out; letters can be joined after it too. -/
def shortBundle (flag : Flag) : List Char → Except UsageError Bundle
  | ['='] => longBundle flag (some "")
  | '=' :: attached => joined flag attached
  | attached => joined flag attached

/-! ### Reading arguments -/

/-- What arguments lead to. -/
inductive Command
  | help
  | run (request : Request)
  | refuse (why : UsageError)
deriving DecidableEq, Repr

/-- What is read of the arguments. -/
structure Reading where
  request : Request := {}
  /-- Whether the input is named. -/
  inputRead : Bool := false
  /-- Whether the last argument was the input. -/
  justRead : Bool := false
  /-- The options of the last argument if the output is the next one. -/
  awaiting : Option (List Flag) := none
  leftOver : List String := []
deriving DecidableEq, Repr

namespace Reading

/-- The reading after an argument without a meaning. -/
def leave (r : Reading) (text : String) : Reading :=
  { r with leftOver := r.leftOver ++ [text], justRead := false }

/-- The reading after an argument that is not an option. -/
def plain (r : Reading) (text : String) : Reading :=
  if r.inputRead then r.leave text
  else
    { r with request := { r.request with input := some text }, inputRead := true, justRead := true }

/-- The reading after the mark that ends the options. It goes with the input, right after it or
before it; otherwise it has no meaning. -/
def separator (r : Reading) : Reading :=
  if r.inputRead && !r.justRead then r.leave separatorMark else { r with justRead := false }

/-- The reading after options. A request for help is met at once. -/
def setFlags (r : Reading) (flags : List Flag) : Except Command Reading :=
  if flags.contains .help then .error .help
  else
    .ok { r with
      justRead := false
      request := { r.request with
        strict := r.request.strict || flags.contains .strict
        verbose := r.request.verbose || flags.contains .verbose } }

/-- The reading after the output is named, and the options before it. -/
def setOutput (r : Reading) (flags : List Flag) (output : String) : Except Command Reading := do
  let r ← r.setFlags flags
  return { r with request := { r.request with output := some output } }

/-- The reading after the options of one argument. -/
def addBundle (r : Reading) (b : Except UsageError Bundle) : Except Command Reading :=
  match b with
  | .error why => .error (.refuse why)
  | .ok ⟨flags, .next⟩ => .ok { r with awaiting := some flags }
  | .ok ⟨flags, .given value⟩ => r.setOutput flags value
  | .ok ⟨flags, .absent⟩ => r.setFlags flags

/-- The reading after one more argument. -/
def add (r : Reading) (a : Argument) : Except Command Reading :=
  match r.awaiting, a with
  | some flags, .plain value => { r with awaiting := none }.setOutput flags value
  | some _, _ => .error (.refuse (.missingValue .output))
  | none, .plain text => .ok (r.plain text)
  | none, .separator => .ok r.separator
  | none, .unknown text => .ok (r.leave text)
  | none, .short flag attached => r.addBundle (shortBundle flag attached)
  | none, .long flag value => r.addBundle (longBundle flag value)

/-- What the reading leads to at the end of the arguments. -/
def finish (r : Reading) : Command :=
  if r.awaiting.isSome then .refuse (.missingValue .output)
  else if r.leftOver.isEmpty then .run r.request
  else .refuse (.unrecognized r.leftOver)

/-- What the reading leads to with more arguments. -/
def addAll (r : Reading) : List Argument → Command
  | [] => r.finish
  | a :: rest =>
    match r.add a with
    | .error command => command
    | .ok r => r.addAll rest

end Reading

/-- What the arguments lead to. -/
def read (arguments : List String) : Command :=
  match classify arguments with
  | .error why => .refuse why
  | .ok forms => ({} : Reading).addAll forms

/-! ### What the program says about itself -/

/-- The name of the program. -/
def programName : String := "fixuphtml"

/-- The usage. -/
def usage : String := "usage: " ++ programName ++ " [-h] [-o OUTPUT] [--strict] [-v] [input]\n"

/-- The answer to a request for help. -/
def helpText : String :=
  usage ++
  "\nFix up HTML generated by pandoc.\n" ++
  "\npositional arguments:\n" ++
  "  input                 input file (default: standard input)\n" ++
  "\noptions:\n" ++
  "  -h, --help            show this help message and exit\n" ++
  "  -o OUTPUT, --output OUTPUT\n" ++
  "                        output file (default: standard output)\n" ++
  "  --strict              stop at the first malformed markup instead of\n" ++
  "                        reporting and continuing\n" ++
  "  -v, --verbose         log rewrite decisions\n"

/-- The answer to arguments that are refused. -/
def refusal (why : UsageError) : String :=
  usage ++ programName ++ ": error: " ++ why.text ++ "\n"

end HtmlMend.CommandLine
