import HtmlMend.Markup.Scanner
import HtmlMend.Proofs.Input.Delivery

/-! # Markup: the course of a scan

A scan is the sum of the scanner's reactions to the characters delivered, each as the lookahead, and
at last to the end of the input (`scan_of_failure?_eq_none`), unless a read fails
(`scan_of_failure?_eq_some`). So all else that is said about scans is said about `readOut`, a
recursion on the list of the characters. -/

namespace HtmlMend.Markup

open Input

/-- A reaction with tokens before its own. -/
def Reaction.after (tokens : List Token) (r : Reaction) : Reaction :=
  { r with tokens := tokens ++ r.tokens }

namespace Reaction

@[simp] theorem scanner_after (tokens : List Token) (r : Reaction) :
    (r.after tokens).scanner = r.scanner := rfl

@[simp] theorem cursor_after (tokens : List Token) (r : Reaction) :
    (r.after tokens).cursor = r.cursor := rfl

@[simp] theorem tokens_after (tokens : List Token) (r : Reaction) :
    (r.after tokens).tokens = tokens ++ r.tokens := rfl

@[simp] theorem after_nil (r : Reaction) : r.after [] = r := rfl

@[simp] theorem after_after (xs ys : List Token) (r : Reaction) :
    (r.after ys).after xs = r.after (xs ++ ys) := by simp [after]

end Reaction

namespace Scanner

/-- The sum of the reactions to characters. -/
def readOn (s : Scanner) (cur : Cursor) : List Char → Reaction
  | [] => ⟨s, cur, []⟩
  | c :: cs =>
    let r := s.react cur (some c)
    (r.scanner.readOn (r.cursor.push c) cs).after r.tokens

/-- The sum of the reactions to characters and to the end of the input after them. -/
def readOut (s : Scanner) (cur : Cursor) : List Char → Reaction
  | [] => s.react cur none
  | c :: cs =>
    let r := s.react cur (some c)
    (r.scanner.readOut (r.cursor.push c) cs).after r.tokens

@[simp] theorem readOn_nil (s : Scanner) (cur : Cursor) : s.readOn cur [] = ⟨s, cur, []⟩ := rfl

@[simp] theorem readOut_nil (s : Scanner) (cur : Cursor) : s.readOut cur [] = s.react cur none := rfl

theorem readOn_cons (s : Scanner) (cur : Cursor) (c : Char) (cs : List Char) :
    s.readOn cur (c :: cs) =
      ((s.react cur (some c)).scanner.readOn ((s.react cur (some c)).cursor.push c) cs).after
        (s.react cur (some c)).tokens := rfl

theorem readOut_cons (s : Scanner) (cur : Cursor) (c : Char) (cs : List Char) :
    s.readOut cur (c :: cs) =
      ((s.react cur (some c)).scanner.readOut ((s.react cur (some c)).cursor.push c) cs).after
        (s.react cur (some c)).tokens := rfl

theorem readOut_append (ys : List Char) : ∀ (xs : List Char) (s : Scanner) (cur : Cursor),
    s.readOut cur (xs ++ ys) =
      ((s.readOn cur xs).scanner.readOut (s.readOn cur xs).cursor ys).after (s.readOn cur xs).tokens
  | [], s, cur => rfl
  | c :: xs, s, cur => by
    simp only [List.cons_append, readOut, readOn, readOut_append ys xs, Reaction.after_after,
      Reaction.scanner_after, Reaction.cursor_after, Reaction.tokens_after]

theorem readOn_append (ys : List Char) : ∀ (xs : List Char) (s : Scanner) (cur : Cursor),
    s.readOn cur (xs ++ ys) =
      ((s.readOn cur xs).scanner.readOn (s.readOn cur xs).cursor ys).after (s.readOn cur xs).tokens
  | [], s, cur => rfl
  | c :: xs, s, cur => by
    simp only [List.cons_append, readOn, readOn_append ys xs, Reaction.after_after,
      Reaction.scanner_after, Reaction.cursor_after, Reaction.tokens_after]

/-! ### Scans of streams -/

theorem append_append_tokens (passed : Array Token) (xs ys : List Token) :
    passed ++ xs ++ ys = passed ++ (xs ++ ys) := by
  apply Array.ext'
  simp only [Array.toList_appendList, List.append_assoc]

theorem follow_of_none {s : Scanner} {r : Reader} (look : r.lookahead = none)
    (passed : Array Token) :
    s.follow r passed =
      { tokens := passed ++ (s.react r.cursor none).tokens
        scanner := (s.react r.cursor none).scanner } := by
  rw [follow]
  obtain ⟨cursor, lookahead, chunk, stream⟩ := r
  obtain rfl : lookahead = none := look
  rfl

theorem follow_of_some {s : Scanner} {r : Reader} {c : Char} (look : r.lookahead = some c)
    (passed : Array Token) :
    s.follow r passed =
      match ({ r with cursor := (s.react r.cursor (some c)).cursor.push c } : Reader).load with
      | (_, some why) =>
        { tokens := passed ++ (s.react r.cursor (some c)).tokens
          scanner := (s.react r.cursor (some c)).scanner
          failure := some why }
      | (next, none) =>
        (s.react r.cursor (some c)).scanner.follow next
          (passed ++ (s.react r.cursor (some c)).tokens) := by
  rw [follow]
  obtain ⟨cursor, lookahead, chunk, stream⟩ := r
  obtain rfl : lookahead = some c := look
  dsimp only
  split
  · next why h =>
    rw [Reader.advance_of_lookahead rfl] at h
    simp only [h]
  · next h =>
    rw [Reader.advance_of_lookahead rfl] at h
    simp only [h]

/-- **Following a reader** from a character on: what the reader delivers is read, and the end of the
input too if no read fails. -/
theorem follow_eq {s : Scanner} {r : Reader} {c : Char} (look : r.lookahead = some c)
    (passed : Array Token) :
    s.follow r passed = match r.stream.failure? with
      | none =>
        { tokens := passed ++ (s.readOut r.cursor (c :: r.unread)).tokens
          scanner := (s.readOut r.cursor (c :: r.unread)).scanner }
      | some why =>
        { tokens := passed ++ (s.readOn r.cursor (c :: r.unread)).tokens
          scanner := (s.readOn r.cursor (c :: r.unread)).scanner
          failure := some why } := by
  induction left : r.unread generalizing s r c passed with
  | nil =>
    rw [follow_of_some look]
    rcases Reader.load_cases { r with cursor := (s.react r.cursor (some c)).cursor.push c } with
      ⟨d, next, -, unread, -⟩ | ⟨next, load, -, last, cursor, failure⟩ |
      ⟨next, why, load, -, failure⟩
    · exact absurd (left.symm.trans unread) (by simp)
    · rw [load, show r.stream.failure? = none from failure]
      simp only [follow_of_none last, cursor, append_append_tokens]
      rfl
    · rw [load, show r.stream.failure? = some why from failure, readOn_cons]
      simp
  | cons d ds ih =>
    rw [follow_of_some look]
    rcases Reader.load_cases { r with cursor := (s.react r.cursor (some c)).cursor.push c } with
      ⟨e, next, load, unread, look', cursor, failure⟩ | ⟨next, -, unread, -⟩ |
      ⟨next, why, -, unread, -⟩
    · obtain ⟨rfl, rfl⟩ : e = d ∧ next.unread = ds := by
        have := unread.symm.trans left
        simpa using this
      rw [load, show r.stream.failure? = next.stream.failure? from failure.symm]
      rw [readOut_cons s, readOn_cons s]
      simp only [ih look' _ rfl, cursor]
      cases next.stream.failure? with
      | none => simp only [append_append_tokens, Reaction.tokens_after, Reaction.scanner_after]
      | some why => simp only [append_append_tokens, Reaction.tokens_after, Reaction.scanner_after]
    · exact absurd (left.symm.trans unread) (by simp)
    · exact absurd (left.symm.trans unread) (by simp)

/-- What was passed on before a reader is followed comes first, and matters no further. -/
theorem follow_passed (s : Scanner) (r : Reader) (passed : Array Token) :
    (s.follow r passed).tokens.toList = passed.toList ++ (s.follow r #[]).tokens.toList ∧
      (s.follow r passed).failure = (s.follow r #[]).failure := by
  cases look : r.lookahead with
  | none =>
    rw [follow_of_none look, follow_of_none look]
    simp
  | some c =>
    rw [follow_eq look, follow_eq look]
    cases r.stream.failure? <;> simp

/-- **A scan of a stream without failures** reads what the stream delivers, and the end. -/
theorem scan_of_failure?_eq_none (s : Scanner) {stream : Stream}
    (failure : stream.failure? = none) :
    s.scan (.ofStream stream) =
      { tokens := (s.restart.readOut {} stream.chars).tokens.toArray
        scanner := (s.restart.readOut {} stream.chars).scanner } := by
  unfold scan Reader.start
  rcases Reader.load_cases { Reader.ofStream stream with cursor := {} } with
    ⟨c, next, load, unread, look, cursor, failure'⟩ | ⟨next, load, unread, look, cursor, -⟩ |
    ⟨next, why, -, -, failure'⟩
  · have chars : stream.chars = c :: next.unread := unread
    have going : next.stream.failure? = none := failure'.trans failure
    rw [load]
    simp only [follow_eq look, going, chars, cursor]
    simp
  · have chars : stream.chars = [] := unread
    rw [load]
    simp only [follow_of_none look, chars, cursor, readOut]
    simp
  · exact absurd (failure'.symm.trans failure) (by simp)

/-- **A scan of a stream that fails** reads what the stream delivers before. -/
theorem scan_of_failure?_eq_some (s : Scanner) {stream : Stream} {why : ReadFailure}
    (failure : stream.failure? = some why) :
    s.scan (.ofStream stream) =
      { tokens := (s.restart.readOn {} stream.chars).tokens.toArray
        scanner := (s.restart.readOn {} stream.chars).scanner
        failure := some why } := by
  unfold scan Reader.start
  rcases Reader.load_cases { Reader.ofStream stream with cursor := {} } with
    ⟨c, next, load, unread, look, cursor, failure'⟩ | ⟨next, -, -, -, -, failure'⟩ |
    ⟨next, why', load, unread, failure'⟩
  · have chars : stream.chars = c :: next.unread := unread
    have going : next.stream.failure? = some why := failure'.trans failure
    rw [load]
    simp only [follow_eq look, going, chars, cursor]
    simp
  · exact absurd (failure'.symm.trans failure) (by simp)
  · have chars : stream.chars = [] := unread
    obtain rfl : why' = why := by
      have := failure'.symm.trans failure
      simpa using this
    rw [load, chars]
    simp

/-- **A scan depends on what the stream delivers** and on how it ends, not on the pieces. -/
theorem scan_congr (s : Scanner) {stream stream' : Stream} (chars : stream.chars = stream'.chars)
    (failure : stream.failure? = stream'.failure?) :
    s.scan (.ofStream stream) = s.scan (.ofStream stream') := by
  cases h : stream.failure? with
  | none =>
    rw [scan_of_failure?_eq_none s h, scan_of_failure?_eq_none s (failure.symm.trans h), chars]
  | some why =>
    rw [scan_of_failure?_eq_some s h, scan_of_failure?_eq_some s (failure.symm.trans h), chars]

/-- **What is passed on before a read fails** is passed on first if more is delivered instead. -/
theorem tokens_scan_of_failure (s : Scanner) {failing stream : Stream} {why : ReadFailure}
    (failure : failing.failure? = some why) (begins : failing.chars <+: stream.chars) :
    (s.scan (.ofStream failing)).tokens.toList <+: (s.scan (.ofStream stream)).tokens.toList := by
  obtain ⟨rest, chars⟩ := begins
  rw [scan_of_failure?_eq_some s failure]
  cases ends : stream.failure? with
  | none =>
    rw [scan_of_failure?_eq_none s ends, ← chars, readOut_append]
    exact List.prefix_append _ _
  | some why' =>
    rw [scan_of_failure?_eq_some s ends, ← chars, readOn_append]
    exact List.prefix_append _ _

end Scanner

end HtmlMend.Markup
