import HtmlMend.Text.Utf8

/-! # Input: streams

A stream is the list of what its reads deliver, one after the other. A read delivers text or fails;
an empty text is the end of the input, and so is the end of the list. -/

namespace HtmlMend.Input

/-- Why a read failed. -/
inductive ReadFailure
  /-- The device did not deliver. -/
  | device
  /-- The bytes delivered are not text. -/
  | undecodable (fault : Text.Utf8.Fault)
deriving DecidableEq, Repr

/-- The text of a failure. -/
def ReadFailure.message : ReadFailure → String
  | .device => "read failed"
  | .undecodable fault => fault.message

/-- The outcome of one read. -/
inductive Read
  | text (s : String)
  | failure (why : ReadFailure)
deriving DecidableEq, Repr

/-- The number of characters that a read delivers. -/
def Read.size : Read → Nat
  | .text s => s.length
  | .failure _ => 0

/-- What the reads of an input deliver, in order. -/
abbrev Stream := List Read

namespace Stream

/-- The number of characters that the reads deliver. -/
def size : Stream → Nat
  | [] => 0
  | read :: later => read.size + size later

/-- A text delivered by one read. -/
def whole (text : String) : Stream := [.text text]

/-- The pieces that a list is cut into, each of one character and `more` that follow it. -/
def pieces (more : Nat) : List Char → List (List Char)
  | [] => []
  | c :: cs => (c :: cs.take more) :: pieces more (cs.drop more)
termination_by cs => cs.length
decreasing_by simp only [List.length_drop, List.length_cons]; omega

/-- A text delivered in pieces of `size` characters. A size of zero delivers nothing, a negative
one the whole text. -/
def inPieces (text : String) (size : Int) : Stream :=
  match size with
  | .ofNat 0 => []
  | .ofNat (more + 1) => (pieces more text.toList).map fun piece => .text (String.ofList piece)
  | .negSucc _ => whole text

/-! ### Bytes

Bytes that are UTF-8 deliver their text. Bytes that are not are read in blocks, and each read takes
as many blocks as it needs for its characters, so that the text before a fault is delivered up to
the last read that was complete. -/

/-- The number of characters that a read asks for, and of bytes in a block. -/
def blockSize : Nat := 8192

/-- The size of the next block if `wanted` characters are missing and the last block had `bytes`
bytes and gave `chars` characters. -/
def nextBlock (wanted bytes chars : Nat) : Nat :=
  max blockSize (if chars = 0 then wanted else wanted * max bytes chars / chars)

/-- The characters of a block that can be delivered: a carriage return at its end waits for the
next block, since it may be half of a line end. -/
def splitReturn (cs : List Char) : List Char × List Char :=
  if cs.getLast? = some '\r' then (cs.dropLast, ['\r']) else (cs, [])

/-- The reads of bytes that are not UTF-8, with the bytes and characters carried over from the
blocks before, and the numbers of bytes and characters of the last block. The first argument bounds
the number of blocks. -/
def blocks (ready held : List Char) (left : List UInt8) (bytes chars : Nat) :
    Nat → List UInt8 → Stream
  | 0, _ => [.text (String.ofList (ready ++ held))]
  | bound + 1, rest =>
    if blockSize ≤ ready.length then
      .text (String.ofList (ready.take blockSize)) ::
        blocks (ready.drop blockSize) held left bytes chars bound rest
    else
      let block := rest.take (nextBlock (blockSize - ready.length) bytes chars)
      let part := Text.Utf8.decodePart block.isEmpty 0 0 (left ++ block)
      match part.fault with
      | some fault => [.failure (.undecodable fault)]
      | none =>
        let (now, later) := splitReturn (held ++ part.chars)
        if block.isEmpty then [.text (String.ofList (ready ++ now ++ later))]
        else blocks (ready ++ now) later part.left block.length now.length bound
          (rest.drop block.length)

/-- The reads of bytes. -/
def ofBytes (bytes : ByteArray) : Stream :=
  match String.fromUTF8? bytes with
  | some text => whole text
  | none => blocks [] [] [] 0 0 (bytes.size + 2) bytes.toList

end Stream

end HtmlMend.Input
