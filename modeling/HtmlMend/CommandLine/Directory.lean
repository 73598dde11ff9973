import HtmlMend.NameMap
import HtmlMend.Text.Quoted
import HtmlMend.Text.Split

/-! # Command line: files of a directory

The files that paths lead to from a directory. A path goes from part to part; all parts but the last
must be directories, and a slash at the end asks for one. Of what lies outside the directory only
the directories of the root and two devices are known: the null device takes what is written and
gives nothing, the full device takes nothing. Elsewhere outside nothing can be read, and what is
written there is gone. -/

namespace HtmlMend.CommandLine

/-- Why a file cannot be opened. -/
inductive FileError
  | notFound
  | notDirectory
  | isDirectory
  | noSpace
  | nameTooLong
  | other (number : Nat) (text : String)
deriving DecidableEq, Repr

namespace FileError

/-- The number of an error. -/
def number : FileError → Nat
  | .notFound => 2
  | .notDirectory => 20
  | .isDirectory => 21
  | .noSpace => 28
  | .nameTooLong => 36
  | .other number _ => number

/-- An error in words. -/
def reason : FileError → String
  | .notFound => "No such file or directory"
  | .notDirectory => "Not a directory"
  | .isDirectory => "Is a directory"
  | .noSpace => "No space left on device"
  | .nameTooLong => "File name too long"
  | .other _ text => text

/-- The text of an error. -/
def text (e : FileError) : String := "[Errno " ++ toString e.number ++ "] " ++ e.reason

/-- The text of an error at a path. -/
def textAt (e : FileError) (path : String) : String := e.text ++ ": " ++ Text.quoted path

end FileError

/-- The files of a directory, each by its path. -/
abbrev Directory := NameMap ByteArray

/-- A directory that a path goes through. -/
inductive Spot
  /-- The directory that the files are in, or one in it. -/
  | within (parts : List String)
  | root
  /-- The directory of the devices. -/
  | devices
  /-- Another directory of the root. -/
  | belowRoot
  /-- Any other. -/
  | outside
deriving DecidableEq, Repr

namespace Spot

/-- The directory above. -/
def parent : Spot → Spot
  | .within [] => .outside
  | .within parts => .within parts.dropLast
  | .root => .root
  | .devices | .belowRoot => .root
  | .outside => .outside

/-- The directories of the root, less that of the devices. -/
def rootNames : List String :=
  ["bin", "boot", "etc", "home", "lib", "media", "mnt", "opt", "proc", "root", "run", "sbin", "srv",
    "sys", "tmp", "usr", "var"]

end Spot

/-- Where a path leads. -/
inductive Place
  | directory (spot : Spot)
  /-- A file, or the place for one. -/
  | file (name : String)
  | nullDevice
  | fullDevice
  /-- Of what is there nothing is known. -/
  | outside
deriving DecidableEq, Repr

namespace Directory

/-- The path of parts. -/
def join (parts : List String) : String := "/".intercalate parts

/-- Whether the parts lead to a directory. -/
def hasDirectory (d : Directory) (parts : List String) : Bool :=
  parts.isEmpty || d.names.any fun name => (join parts ++ "/").toList.isPrefixOf name.toList

/-- The longest name of a file, in bytes. -/
def longestName : Nat := 255

/-- The longest path, in bytes. -/
def longestPath : Nat := 4095

/-- What a name means in a directory. -/
def look (d : Directory) (here : Spot) (name : String) : Except FileError Place :=
  if name = "." then .ok (.directory here)
  else if name = ".." then .ok (.directory here.parent)
  else if longestName < name.utf8ByteSize then .error .nameTooLong
  else match here with
    | .within parts =>
      .ok (if d.hasDirectory (parts ++ [name]) then .directory (.within (parts ++ [name]))
        else .file (join (parts ++ [name])))
    | .root =>
      .ok (if name = "dev" then .directory .devices
        else if Spot.rootNames.contains name then .directory .belowRoot
        else .outside)
    | .devices =>
      .ok (if name = "null" then .nullDevice else if name = "full" then .fullDevice else .outside)
    | .belowRoot | .outside => .ok .outside

/-- One part further on a path. -/
def enter (d : Directory) (here : Spot) (part : String) : Except FileError Spot :=
  match d.look here part with
  | .error e => .error e
  | .ok (.directory spot) => .ok spot
  | .ok (.file name) => .error (if d.contains name then .notDirectory else .notFound)
  | .ok .nullDevice | .ok .fullDevice => .error .notDirectory
  | .ok .outside => .error .notFound

/-- The directory that holds what a path leads to, and its name there. -/
def approach (d : Directory) (path : String) : Except FileError (Spot × String) := do
  if path = "" then throw .notFound
  if longestPath < path.utf8ByteSize then throw .nameTooLong
  let parts := (Text.fields '/' path).filter (· ≠ "")
  let start : Spot := if path.toList.head? = some '/' then .root else .within []
  return (← parts.dropLast.foldlM d.enter start, parts.getLast?.getD ".")

/-- Whether a path asks for a directory. -/
def asksDirectory (path : String) : Bool := path.toList.getLast? = some '/'

/-- The place of a file that is there. -/
def findInput (d : Directory) (path : String) : Except FileError Place := do
  let (here, name) ← d.approach path
  match ← d.look here name with
  | .directory _ => throw .isDirectory
  | .outside => throw .notFound
  | place =>
    if let .file name := place then
      unless d.contains name do throw .notFound
    if asksDirectory path then throw .notDirectory
    return place

/-- The place for a file that is written. -/
def findOutput (d : Directory) (path : String) : Except FileError Place := do
  let (here, name) ← d.approach path
  if asksDirectory path then throw .isDirectory
  match ← d.look here name with
  | .directory _ => throw .isDirectory
  | place => return place

/-- What is read from a place; where there is no file it is nothing. -/
def content (d : Directory) : Place → ByteArray
  | .file name => (d.get? name).getD .empty
  | _ => .empty

/-- The directory after something is written to a place. -/
def write (d : Directory) (place : Place) (bytes : ByteArray) : Directory :=
  match place with
  | .file name => d.insert name bytes
  | _ => d

end Directory

end HtmlMend.CommandLine
