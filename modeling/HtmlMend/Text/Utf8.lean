import HtmlMend.Text.Quoted

/-! # Text: faults in UTF-8

Where bytes fail to be UTF-8 and why. A character of several bytes has a first byte that fixes
their number, and a second byte that must not make it overlong, a surrogate or greater than
`U+10FFFF`. Bytes that come in parts may end within a character; the bytes of that character then
belong to the next part. -/

namespace HtmlMend.Text.Utf8

/-- Why bytes are not UTF-8. -/
inductive Flaw
  | invalidStart
  | invalidContinuation
  | unexpectedEnd
deriving DecidableEq, Repr

/-- A fault: the bytes that are not a character, and where they stand. -/
structure Fault where
  flaw : Flaw
  offset : Nat
  bytes : List UInt8
deriving DecidableEq, Repr

/-- The name of a flaw. -/
def Flaw.text : Flaw → String
  | .invalidStart => "invalid start byte"
  | .invalidContinuation => "invalid continuation byte"
  | .unexpectedEnd => "unexpected end of data"

/-- The text of a fault: the byte itself if it is one, and the offsets. -/
def Fault.message (f : Fault) : String :=
  let subject := match f.bytes with
    | [b] => "byte 0x" ++ String.ofList (hexDigits 2 b.toNat) ++ " in position " ++
        toString f.offset
    | bytes => "bytes in position " ++ toString f.offset ++ "-" ++
        toString (f.offset + bytes.length - 1)
  "'utf-8' codec can't decode " ++ subject ++ ": " ++ f.flaw.text

/-- What bytes begin with: a character, the beginning of one, or a fault of some length. -/
inductive Head
  | char (c : Char) (width : Nat)
  | cut
  | flawed (flaw : Flaw) (width : Nat)
deriving DecidableEq, Repr

/-- Whether a byte continues a character. -/
def isContinuation (b : UInt8) : Bool := 0x80 ≤ b.toNat && b.toNat < 0xC0

/-- Whether a byte can be the second after a first byte. -/
def isSecond (first b : UInt8) : Bool :=
  isContinuation b &&
    (first.toNat ≠ 0xE0 || 0xA0 ≤ b.toNat) && (first.toNat ≠ 0xED || b.toNat < 0xA0) &&
    (first.toNat ≠ 0xF0 || 0x90 ≤ b.toNat) && (first.toNat ≠ 0xF4 || b.toNat < 0x90)

/-- The number that a byte adds to the bits before it. -/
def extend (bits : Nat) (b : UInt8) : Nat := bits * 0x40 + b.toNat % 0x40

/-- The rest of a character of which `read` bytes with the given bits are read and `more` are to
come. -/
def continueWith (read bits : Nat) : Nat → List UInt8 → Head
  | 0, _ => .char (Char.ofNat bits) read
  | _ + 1, [] => .cut
  | more + 1, b :: rest =>
    if isContinuation b then continueWith (read + 1) (extend bits b) more rest
    else .flawed .invalidContinuation read

/-- A character of several bytes, of which the first has the given bits and `more` follow. -/
def several (first : UInt8) (bits more : Nat) : List UInt8 → Head
  | [] => .cut
  | b :: rest =>
    if isSecond first b then continueWith 2 (extend bits b) more rest
    else .flawed .invalidContinuation 1

/-- What a byte and those after it begin with. -/
def head (first : UInt8) (rest : List UInt8) : Head :=
  let n := first.toNat
  if n < 0x80 then .char (Char.ofNat n) 1
  else if n < 0xC2 then .flawed .invalidStart 1
  else if n < 0xE0 then several first (n % 0x20) 0 rest
  else if n < 0xF0 then several first (n % 0x10) 1 rest
  else if n < 0xF5 then several first (n % 0x08) 2 rest
  else .flawed .invalidStart 1

/-- Whether bytes are the first two of a surrogate. -/
def isCutSurrogate : List UInt8 → Bool
  | [first, second] => first.toNat = 0xED && isContinuation second
  | _ => false

/-- A part of the bytes as text: its characters, the bytes that are left for the next part, and the
fault at which it ended. -/
structure Part where
  chars : List Char
  left : List UInt8 := []
  fault : Option Fault := none

/-- The characters of bytes at an offset, of which the first `skip` are read. In the last part
nothing may be left. -/
def decodePart (last : Bool) (offset : Nat) : Nat → List UInt8 → Part
  | _, [] => { chars := [] }
  | skip + 1, _ :: rest => decodePart last (offset + 1) skip rest
  | 0, b :: rest =>
    match head b rest with
    | .char c width =>
      let part := decodePart last (offset + 1) (width - 1) rest
      { part with chars := c :: part.chars }
    | .cut =>
      if last then { chars := [], fault := some ⟨.unexpectedEnd, offset, b :: rest⟩ }
      else { chars := [], left := b :: rest }
    | .flawed flaw width =>
      if !last && isCutSurrogate (b :: rest) then { chars := [], left := b :: rest }
      else { chars := [], fault := some ⟨flaw, offset, (b :: rest).take width⟩ }

end HtmlMend.Text.Utf8
