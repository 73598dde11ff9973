import HtmlMend.Input.Stream
import HtmlMend.Text.Split

/-! # Input: a reader with one character of lookahead

A reader stands before a character, its *lookahead*, and records the characters that it moves past:
they are *pending* until they are taken. The lookahead is `none` at the end of the input. -/

namespace HtmlMend.Input

/-- A place in the input: the text read since it was last taken, and the number of the line. -/
structure Cursor where
  pending : String := ""
  line : Nat := 1
deriving DecidableEq, Repr

namespace Cursor

/-- The place after one more character. -/
def push (cur : Cursor) (c : Char) : Cursor where
  pending := cur.pending.push c
  line := if c = '\n' then cur.line + 1 else cur.line

/-- The place with the pending text taken. -/
def clear (cur : Cursor) : Cursor := { cur with pending := "" }

@[simp] theorem pending_push (cur : Cursor) (c : Char) :
    (cur.push c).pending = cur.pending.push c := rfl

@[simp] theorem pending_clear (cur : Cursor) : cur.clear.pending = "" := rfl

@[simp] theorem line_clear (cur : Cursor) : cur.clear.line = cur.line := rfl

end Cursor

/-- A reader: where it stands, its lookahead, the rest of the last read, and the reads to come. -/
structure Reader where
  cursor : Cursor := {}
  lookahead : Option Char := none
  chunk : List Char := []
  stream : Stream
deriving DecidableEq

namespace Reader

/-- A reader of a stream, before its first character is loaded. -/
def ofStream (stream : Stream) : Reader := { stream }

/-- Load the next character into the lookahead; read on if the last read is used up. A read that
fails leaves the lookahead as it was. -/
def load (r : Reader) : Reader × Option ReadFailure :=
  match r.chunk with
  | c :: rest => ({ r with lookahead := some c, chunk := rest }, none)
  | [] =>
    match r.stream with
    | [] => ({ r with lookahead := none }, none)
    | .failure why :: later => ({ r with stream := later }, some why)
    | .text s :: later =>
      match s.toList with
      | [] => ({ r with lookahead := none, stream := later }, none)
      | c :: rest => ({ r with lookahead := some c, chunk := rest, stream := later }, none)

/-- Begin to read: on the first line, nothing pending, the next character loaded. -/
def start (r : Reader) : Reader × Option ReadFailure := { r with cursor := {} }.load

/-- Move past the lookahead. At the end of the input nothing happens. -/
def advance (r : Reader) : Reader × Option ReadFailure :=
  match r.lookahead with
  | none => (r, none)
  | some c => { r with cursor := r.cursor.push c }.load

/-- The pending text, and the reader without it. -/
def takePending (r : Reader) : String × Reader :=
  (r.cursor.pending, { r with cursor := r.cursor.clear })

/-- The number of pending characters. -/
def pendingLength (r : Reader) : Nat := r.cursor.pending.length

/-- The pending text from an offset on; a negative offset counts from its end. -/
def peekPending (r : Reader) (start : Int) : String := Text.sliceFrom r.cursor.pending start

/-- The number of characters that are not read past, as far as reads deliver them. -/
def remaining (r : Reader) : Nat :=
  (if r.lookahead.isSome then 1 else 0) + r.chunk.length + r.stream.size

theorem remaining_advance_lt {r : Reader} {c : Char} (look : r.lookahead = some c)
    (read : r.advance.2 = none) : r.advance.1.remaining < r.remaining := by
  obtain ⟨cursor, lookahead, chunk, stream⟩ := r
  obtain rfl : lookahead = some c := look
  rcases chunk with _ | ⟨d, rest⟩
  · rcases stream with _ | ⟨⟨s⟩ | why, later⟩
    · simp [advance, load, remaining]
    · rcases h : s.toList with _ | ⟨d, rest⟩
      · simp [advance, load, remaining, h, Stream.size]
        omega
      · simp [advance, load, remaining, h, Stream.size, Read.size, ← String.length_toList]
        omega
    · simp [advance, load] at read
  · simp [advance, load, remaining]

end Reader

end HtmlMend.Input
